import Phraseology.Text.PrintTable
import Phraseology.Text.Ranges

/-!
# Quoted text

The form in which a message shows a piece of text: between double quotes, with
quotes and backslashes marked by a backslash, the usual short escapes for tab,
line ends and NUL, and `\u{…}` with hexadecimal digits for every character that
does not show by itself.
-/

namespace Phraseology.Text

/-- A lower case hexadecimal number. -/
def hexText (n : Nat) : List Char :=
  Nat.toDigits 16 n

/-- Whether a character shows by itself in quoted text. -/
def isShown (c : Char) : Bool :=
  let n := c.toNat
  if n < 0x80 then 0x20 ≤ n && n < 0x7F
  else !inRanges unprintableRanges n && !inRanges graphemeExtendRanges n

/-- A character inside quoted text. -/
def quoteChar (c : Char) : List Char :=
  match c with
  | '"' => ['\\', '"']
  | '\\' => ['\\', '\\']
  | '\t' => ['\\', 't']
  | '\r' => ['\\', 'r']
  | '\n' => ['\\', 'n']
  | '\x00' => ['\\', '0']
  | c => if isShown c then [c] else ['\\', 'u', '\x7b'] ++ hexText c.toNat ++ ['\x7d']

/-- A text as a message quotes it. -/
def quote (text : String) : String :=
  String.ofList (['"'] ++ text.toList.flatMap quoteChar ++ ['"'])

end Phraseology.Text
