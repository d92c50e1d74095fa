import Phraseology.Text.IdentifierTable
import Phraseology.Text.Ranges

/-!
# Identifiers

Which characters can start an identifier and which can stand further inside.
Every character that can start one can also stand inside.
-/

namespace Phraseology.Text

/-- Whether a character can start an identifier: among the first 128, the letters. -/
def startsIdentifier (c : Char) : Bool :=
  if c.toNat < 0x80 then c.isAlpha else inRanges identifierStartRanges c.toNat

/-- Whether a character can stand in an identifier: among the first 128, the letters, the
digits and the low line. -/
def continuesIdentifier (c : Char) : Bool :=
  startsIdentifier c ||
    if c.toNat < 0x80 then c.isDigit || c == '_' else inRanges identifierInnerRanges c.toNat

end Phraseology.Text
