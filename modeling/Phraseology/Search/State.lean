import Phraseology.Grammar.Basic
import Phraseology.Search.Parse
import Phraseology.Search.Policy
import Phraseology.Token

/-!
# States of a search

A state is a place in the grammar together with what has been put out, what has
been skipped, which tags are open and which words are still unread.  Three kinds
of move lead on from a node that is not terminal: an arc without a word, which
leaves the words unread; an arc with the word that comes next; and skipping that
word, where the node has some arc with a word.
-/

namespace Phraseology

/-- A word of the sentence: as it goes into the output, and as it is compared
with the grammar. -/
structure Heard where
  token : String
  observation : String
  observed : Token.observation token = observation
deriving DecidableEq, Repr

/-- A word of the sentence, given as it goes into the output. -/
def Heard.ofToken (token : String) : Heard where
  token := token
  observation := Token.observation token
  observed := rfl

/-- A partial derivation. -/
structure State where
  node : Nat
  output : List String
  /-- The names of the open tags, innermost first. -/
  openTags : List String
  /-- Tags opened and not closed again. -/
  tagCost : Nat
  skips : Nat
  skipped : List String
  inCallsign : Bool
  unread : List Heard
deriving DecidableEq, Repr

/-- What a search is about. -/
structure Task where
  grammar : Grammar
  sentence : List Heard
  /-- Opening tags of commands that are left out. -/
  pruned : List String
  policy : SkipPolicy
  phase : Phase

namespace State

/-- The state at which a sentence starts. -/
def initial (sentence : List Heard) : State where
  node := Grammar.startNode
  output := []
  openTags := []
  tagCost := 0
  skips := 0
  skipped := []
  inCallsign := false
  unread := sentence

/-- How many of the open tags a closing tag closes: those down to the innermost
one with its name, or the innermost one if none has its name. -/
def closedBy (name : String) (openTags : List String) : Nat :=
  match openTags.findIdx? (Tag.baseName · == Tag.baseName name) with
  | some i => i + 1
  | none => 1

/-- Goes along an arc that puts out nothing. -/
def pass (state : State) (target : Nat) : State :=
  { state with node := target }

/-- Goes along an arc that opens a tag. -/
def openTag (state : State) (target : Nat) (text name : String) : State :=
  { state with
    node := target
    output := state.output ++ [text]
    openTags := name :: state.openTags
    tagCost := state.tagCost + 1
    inCallsign := text == Tag.callsignOpen || state.inCallsign }

/-- Goes along an arc that closes a tag. -/
def closeTag (state : State) (target : Nat) (text name : String) : State :=
  let count := closedBy name state.openTags
  let closed := state.openTags.take count
  { state with
    node := target
    output := state.output ++ closed.map Tag.closingTag
    openTags := state.openTags.drop count
    tagCost := state.tagCost - closed.length
    inCallsign := text != Tag.callsignClose && state.inCallsign }

/-- Goes along an arc with the word that comes next. -/
def readWord (state : State) (target : Nat) (heard : Heard) (rest : List Heard) : State :=
  { state with
    node := target
    output := state.output ++ [heard.token]
    unread := rest }

/-- Skips the word that comes next. -/
def skipWord (state : State) (cost : Nat) (heard : Heard) (rest : List Heard) : State :=
  { state with
    skips := state.skips + cost
    skipped := state.skipped ++ [heard.token]
    unread := rest }

/-- The move along an arc that leaves the words unread. -/
def stay? (pruned : List String) (state : State) (target : Nat) (arc : Arc) : Option State :=
  match arc.label with
  | .silent => some (state.pass target)
  | .opening text name =>
    if pruned.contains text then none else some (state.openTag target text name)
  | .closing text name => some (state.closeTag target text name)
  | .word _ => none

/-- The move along an arc with the word that comes next. -/
def read? (state : State) (target : Nat) (arc : Arc) : Option State :=
  match arc.label, state.unread with
  | .word text, heard :: rest =>
    if text == heard.observation then some (state.readWord target heard rest) else none
  | _, _ => none

/-- Whether an arc has a word. -/
def hasWord (arc : Arc) : Bool :=
  match arc.label with
  | .word _ => true
  | _ => false

/-- The move that skips the word that comes next. -/
def skip? (policy : SkipPolicy) (arcs : List (Nat × Arc)) (state : State) : Option State :=
  match state.unread with
  | [] => none
  | heard :: rest =>
    if arcs.any (hasWord ·.2) then
      (policy.skipCost? heard.observation state.inCallsign).map fun cost =>
        state.skipWord cost heard rest
    else none

/-- The states after a move that leaves the words unread, in the order of the
arcs. -/
def staying (task : Task) (state : State) : List State :=
  (task.grammar.transitions state.node).filterMap fun (target, arc) =>
    state.stay? task.pruned target arc

/-- The states after a move that takes the next word: reading it along the arcs in
their order, and skipping it last. -/
def advancing (task : Task) (state : State) : List State :=
  let arcs := task.grammar.transitions state.node
  (arcs.filterMap fun (target, arc) => state.read? target arc) ++
    (state.skip? task.policy arcs).toList

/-- The words that are still unread, as they would go into the output. -/
def unreadTokens (state : State) : List String :=
  state.unread.map (·.token)

/-- The parse that a state at a terminal node completes.  Where words may be
skipped, open tags are closed and the unread words count twice; otherwise there
must be none of them. -/
def complete? (policy : SkipPolicy) (state : State) : Option Parse :=
  if policy.allowSkip then
    some
      { tokens := state.output ++ state.openTags.map Tag.closingTag
        cost :=
          { skips := state.skips + state.unread.length
            tags := state.tagCost + state.unread.length }
        skipped := state.skipped ++ state.unreadTokens }
  else if state.unread.isEmpty then
    some
      { tokens := state.output
        cost := { skips := state.skips, tags := state.tagCost }
        skipped := state.skipped }
  else none

/-- The name of the tag around a sentence. -/
def sentenceName : String := "s"

/-- A state on the way to being closed by force. -/
structure Closing where
  tokens : List String
  unread : List String
  skips : Nat

/-- Closes an open tag.  In front of the closing tag of a sentence go the words
that are still unread, and count as skipped. -/
def Closing.close (closing : Closing) (name : String) : Closing :=
  if name == sentenceName then
    { tokens := closing.tokens ++ closing.unread ++ [Tag.closingTag name]
      unread := []
      skips := closing.skips + closing.unread.length }
  else { closing with tokens := closing.tokens ++ [Tag.closingTag name] }

/-- All open tags of a state closed, the innermost first. -/
def closing (state : State) : Closing :=
  state.openTags.foldl Closing.close
    { tokens := state.output, unread := state.unreadTokens, skips := state.skips }

/-- The parse that a state gives when it is closed by force. -/
def forceClose (state : State) : Parse where
  tokens := state.closing.tokens
  cost := { skips := state.closing.skips + state.closing.unread.length, tags := 0 }
  skipped := state.skipped

end State

/-- What tells states apart in a search: the node, and the skipped words and the
output as text. -/
structure StateKey where
  node : Nat
  skipped : String
  output : String
deriving DecidableEq, Repr

namespace StateKey

/-- The key of a state. -/
def ofState (state : State) : StateKey where
  node := state.node
  skipped := Text.unwords state.skipped
  output := Text.unwords state.output

/-- The order in which keys are stored. -/
abbrev order : StateKey → StateKey → Ordering :=
  compareLex (compareOn StateKey.node)
    (compareLex (compareOn StateKey.output) (compareOn StateKey.skipped))

instance : Std.LawfulEqCmp order where
  compare_self := by simp [order, compareLex, compareOn]
  eq_of_compare := by
    intro a b h
    simp only [order, compareLex, compareOn, Ordering.then_eq_eq,
      Std.LawfulEqCmp.compare_eq_iff_eq] at h
    obtain ⟨hn, ho, hs⟩ := h
    cases a
    cases b
    simp_all

end StateKey

end Phraseology
