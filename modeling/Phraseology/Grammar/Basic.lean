import Std.Data.TreeMap
import Phraseology.Tag

/-!
# Recognition grammars

A grammar is a finite state transducer.  Its nodes are numbered, and each is
either terminal or has arcs that lead to other nodes.  The output of an arc is
read as a `Label`: nothing, an opening or a closing tag, or a spoken word.

Terminal is the stronger of the two: naming a node terminal drops the arcs that
leave it, and arcs that are added later are dropped as well.  The arcs of a node
are kept by ascending target, and by arrival among arcs to the same target.
-/

namespace Phraseology

/-- What an arc puts out.  Tags carry their whole text and the name in it. -/
inductive Label where
  | silent
  | opening (text name : String)
  | closing (text name : String)
  | word (text : String)
deriving DecidableEq, Repr

namespace Label

/-- The text of the silent output. -/
def silentText : String := "<eps>"

/-- The label with a given text. -/
def ofText (text : String) : Label :=
  if text == silentText then silent
  else
    match Tag.tagName? text with
    | some name => if Tag.isClosing text then closing text name else opening text name
    | none => word text

/-- The text of a label. -/
def text : Label → String
  | silent => silentText
  | opening text _ => text
  | closing text _ => text
  | word text => text

@[simp] theorem text_ofText (t : String) : (ofText t).text = t := by
  unfold ofText
  split
  · next h => exact (eq_of_beq h).symm
  · split
    · split <;> rfl
    · rfl

end Label

/-- What an arc reads, puts out and weighs. -/
structure Arc where
  input : String
  output : String
  weight : Option Float
deriving Repr

namespace Arc

/-- What kind of output an arc has. -/
def label (arc : Arc) : Label :=
  Label.ofText arc.output

@[simp] theorem text_label (arc : Arc) : arc.label.text = arc.output :=
  Label.text_ofText arc.output

end Arc

/-- A node of a grammar. -/
inductive Node where
  | terminal
  /-- The arcs that leave the node, each with its target. -/
  | branching (arcs : List (Nat × Arc))
deriving Repr

/-- A named grammar. -/
structure Grammar where
  name : String
  nodes : Std.TreeMap Nat Node

namespace Grammar

/-- The node at which every sentence starts. -/
def startNode : Nat := 0

/-- A grammar without nodes. -/
def empty (name : String) : Grammar where
  name := name
  nodes := ∅

/-- Whether a grammar has no nodes. -/
def isEmpty (grammar : Grammar) : Bool :=
  grammar.nodes.isEmpty

/-- The node with a number. -/
def node? (grammar : Grammar) (id : Nat) : Option Node :=
  grammar.nodes[id]?

/-- Whether sentences may end at a node. -/
def isTerminal (grammar : Grammar) (id : Nat) : Bool :=
  match grammar.node? id with
  | some .terminal => true
  | _ => false

/-- The arcs that leave a node, each with its target. -/
def transitions (grammar : Grammar) (id : Nat) : List (Nat × Arc) :=
  match grammar.node? id with
  | some (.branching arcs) => arcs
  | _ => []

/-- The numbers of the nodes in ascending order. -/
def nodeIds (grammar : Grammar) : List Nat :=
  grammar.nodes.keys

/-- All arcs, each with its source and its target. -/
def arcs (grammar : Grammar) : List (Nat × Nat × Arc) :=
  grammar.nodeIds.flatMap fun source =>
    (grammar.transitions source).map fun (target, arc) => (source, target, arc)

/-- Adds an arc behind those with the same or a lower target. -/
def insertArc (target : Nat) (arc : Arc) : List (Nat × Arc) → List (Nat × Arc)
  | [] => [(target, arc)]
  | (other, known) :: rest =>
    if other ≤ target then (other, known) :: insertArc target arc rest
    else (target, arc) :: (other, known) :: rest

/-- Makes a node terminal. -/
def markTerminal (grammar : Grammar) (id : Nat) : Grammar :=
  { grammar with nodes := grammar.nodes.insert id .terminal }

/-- Adds an arc, unless it would leave a terminal node. -/
def addArc (grammar : Grammar) (source target : Nat) (arc : Arc) : Grammar :=
  match grammar.node? source with
  | some .terminal => grammar
  | _ =>
    { grammar with
      nodes := grammar.nodes.insert source
        (.branching (insertArc target arc (grammar.transitions source))) }

end Grammar

end Phraseology
