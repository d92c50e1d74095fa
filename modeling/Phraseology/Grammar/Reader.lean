import Phraseology.Decimal.Reader
import Phraseology.Error
import Phraseology.Grammar.Basic
import Phraseology.Text.Blank
import Phraseology.Text.Case
import Phraseology.Text.Lines

/-!
# Reading grammars

A grammar file has one row on a line, its fields separated by tabs.  Four fields
are an arc: source, target, input and output, with a weight as an optional fifth
one.  One field names a terminal node, with a final weight as an optional second
one.  Blank lines are passed over, and outputs are taken in lower case.
-/

namespace Phraseology

/-- What a row says. -/
inductive GrammarRow where
  | terminal (node : Nat)
  | arc (source target : Nat) (arc : Arc)
deriving Repr

namespace GrammarRow

/-- A field that holds a value of some kind. -/
def field {α : Type} (read? : String → Option α) (what text : String) : Except RowFault α :=
  match read? (Text.trim text) with
  | some value => .ok value
  | none => .error (.invalidField what text)

/-- A field that holds the number of a node. -/
def nodeField (text : String) : Except RowFault Nat :=
  field (Decimal.natOfBits? 32) "node id" text

/-- The row of an arc whose weight has been read. -/
def arcOf (weight : Option Float) (source target input output : String) :
    Except RowFault GrammarRow :=
  match nodeField source with
  | .error fault => .error fault
  | .ok source =>
    match nodeField target with
    | .error fault => .error fault
    | .ok target =>
      .ok (.arc source target { input, output := Text.lower output, weight })

/-- The row that some fields make up.  Of two faults the one in a weight counts. -/
def ofFields : List String → Except RowFault GrammarRow
  | [node] => (nodeField node).map .terminal
  | [node, weight] =>
    match field Decimal.float? "final weight" weight with
    | .error fault => .error fault
    | .ok _ => (nodeField node).map .terminal
  | [source, target, input, output] => arcOf none source target input output
  | [source, target, input, output, weight] =>
    match field Decimal.float? "weight" weight with
    | .error fault => .error fault
    | .ok weight => arcOf (some weight) source target input output
  | fields => .error (.fieldCount fields.length)

/-- The row on a line; a blank line has none. -/
def ofLine (line : String) : Except RowFault (Option GrammarRow) :=
  if Text.isBlankText line then .ok none
  else (ofFields (Text.tabFields (Text.trim line))).map some

end GrammarRow

namespace Grammar

/-- A grammar with what one more row says. -/
def addRow (grammar : Grammar) : GrammarRow → Grammar
  | .terminal node => grammar.markTerminal node
  | .arc source target arc => grammar.addArc source target arc

/-- Adds the rows of numbered lines, up to the first line at fault. -/
def readLines (grammar : Grammar) : Nat → List (Option String) → Except Failure Grammar
  | _, [] => .ok grammar
  | _, none :: _ => .error .unreadable
  | number, some line :: rest =>
    match GrammarRow.ofLine line with
    | .error fault => .error (.malformedRow number fault)
    | .ok none => readLines grammar (number + 1) rest
    | .ok (some row) => readLines (grammar.addRow row) (number + 1) rest

/-- The grammar that a file holds. -/
def ofBytes (name : String) (bytes : ByteArray) : Except Failure Grammar :=
  readLines (empty name) 1 (Text.lines bytes)

end Grammar

end Phraseology
