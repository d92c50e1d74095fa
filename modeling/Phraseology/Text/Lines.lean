import Phraseology.Text.Blank

/-!
# Lines of a byte stream

A stream of bytes is read line by line.  A line ends with a line feed, which a
carriage return may precede; bytes after the last line feed form a line of
their own, in which a final carriage return is kept.  Each line is decoded by
itself, so bytes that are not valid UTF-8 spoil their own line only.
-/

namespace Phraseology.Text

/-- A line without the carriage return that stood before its line feed. -/
def dropReturn (line : List UInt8) : List UInt8 :=
  match line.reverse with
  | 13 :: rest => rest.reverse
  | _ => line

/-- The lines among the pieces between line feeds.  The last piece is a line
only if it is not empty, and no line feed follows it. -/
def linesOfPieces : List (List UInt8) → List (List UInt8)
  | [] => []
  | [last] => if last.isEmpty then [] else [last]
  | piece :: more => dropReturn piece :: linesOfPieces more

/-- The text of some bytes, if they are valid UTF-8. -/
def decode? (bytes : List UInt8) : Option String :=
  String.fromUTF8? ⟨bytes.toArray⟩

/-- The lines of a byte stream; `none` stands for a line that is not valid
UTF-8. -/
def lines (bytes : ByteArray) : List (Option String) :=
  (linesOfPieces (pieces (· == 10) bytes.toList)).map decode?

end Phraseology.Text
