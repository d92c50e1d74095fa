import Phraseology.Decimal.Reader
import Phraseology.Settings.Name

/-!
# Numbers of the object notation

A whole number has an optional sign, an optional mark of its base (`0b`, `0o` or `0x`)
and digits, among which underscores do not count; the name of a kind of whole numbers
may stand behind it and bounds it.  A number with a point or an exponent may carry the
name of a kind of doubles, as may the words for infinity and for what is not a number.
-/

namespace Phraseology.Settings

/-- The value of a hexadecimal digit. -/
def hexDigit? (c : Char) : Option Nat :=
  if c.isDigit then some (c.toNat - 48)
  else if 'a' ≤ c && c ≤ 'f' then some (c.toNat - 87)
  else if 'A' ≤ c && c ≤ 'F' then some (c.toNat - 55)
  else none

/-- The number that hexadecimal digits denote. -/
def hexNumber? (cs : List Char) : Option Nat :=
  cs.foldlM (fun n c => (hexDigit? c).map (16 * n + ·)) 0

/-- A kind of whole numbers: the name that marks it, and its bounds. -/
structure WholeKind where
  name : String
  least : Int
  greatest : Int

/-- Whole numbers of some bits, the first of which is the sign. -/
def WholeKind.signed (name : String) (bits : Nat) : WholeKind :=
  ⟨name, -(Decimal.twoTo (bits - 1) : Int), Decimal.twoTo (bits - 1) - 1⟩

/-- Whole numbers of some bits without a sign. -/
def WholeKind.unsigned (name : String) (bits : Nat) : WholeKind :=
  ⟨name, 0, Decimal.twoTo bits - 1⟩

/-- The kind of the numbers in settings. -/
def WholeKind.word64 : WholeKind := .unsigned "u64" 64

/-- The kinds that can be named behind a number. -/
def wholeKinds : List WholeKind :=
  [.signed "i8" 8, .signed "i16" 16, .signed "i32" 32, .signed "i64" 64,
    .unsigned "u8" 8, .unsigned "u16" 16, .unsigned "u32" 32, .word64]

/-- Whether a number is of a kind. -/
def WholeKind.holds (kind : WholeKind) (n : Int) : Bool :=
  kind.least ≤ n && n ≤ kind.greatest

/-- The base of a whole number, with what follows its mark. -/
def takeBase : Rest → Nat × Rest
  | '0' :: 'b' :: rest => (2, rest)
  | '0' :: 'o' :: rest => (8, rest)
  | '0' :: 'x' :: rest => (16, rest)
  | cs => (10, cs)

/-- Whether a character can be a digit of a whole number in some base, or stand among
the digits. -/
def isWholeChar (c : Char) : Bool :=
  (hexDigit? c).isSome || c == '_'

/-- The number that digits denote in a base.  An underscore may stand behind the first
digit only. -/
def digitsIn? (base : Nat) (cs : List Char) : Option Nat :=
  match cs with
  | [] => none
  | '_' :: _ => none
  | _ =>
    (cs.filter (· != '_')).foldlM (fun n c =>
      (hexDigit? c).bind fun d => if d < base then some (base * n + d) else none) 0

/-- The kind that is named behind the digits of a whole number.  The mark of a base ends
the digits unless it looks like one, so only binary and decimal numbers can name a
kind. -/
def namedKind? (cs : Rest) : Option WholeKind :=
  wholeKinds.find? fun kind => (afterWord? kind.name (cs.dropWhile isWholeChar)).isSome

/-- A whole number.  Its value is given if it can be one of settings: if it names their
kind or none and lies in their bounds. -/
def wholeNumber? (cs : Rest) : Option (Option Nat × Rest) :=
  let (negative, unsigned) := Decimal.takeSign cs
  let (base, start) := takeBase unsigned
  let rest := start.dropWhile isWholeChar
  (digitsIn? base (start.takeWhile isWholeChar)).bind fun n =>
    let signed : Int := if negative then -n else n
    let value := if WholeKind.word64.holds signed then some n else none
    match namedKind? unsigned with
    | some kind =>
      if kind.holds signed then
        some (if kind.name == WholeKind.word64.name then value else none,
          rest.drop kind.name.length)
      else none
    | none =>
      if (WholeKind.signed "i64" 64).holds signed || value.isSome then some (value, rest)
      else none

/-- Whether a character can stand in a number with a point or an exponent. -/
def isFractionChar (c : Char) : Bool :=
  c.isDigit || c == 'e' || c == 'E' || c == '.' || c == '+' || c == '-' || c == '_'

/-- Whether each underscore has a digit or the mark of the exponent in front of it, with
no point between the two. -/
def underscoresFit : Bool → List Char → Bool
  | _, [] => true
  | allowed, '_' :: rest => allowed && underscoresFit allowed rest
  | _, '.' :: rest => underscoresFit false rest
  | allowed, '+' :: rest => underscoresFit allowed rest
  | allowed, '-' :: rest => underscoresFit allowed rest
  | _, _ :: rest => underscoresFit true rest

/-- The words for infinity and for what is not a number. -/
def specialWords : List String :=
  ["inf", "inff32", "inff64", "NaN", "NaNf32", "NaNf64"]

/-- What follows a number with a point or an exponent, or a signed special word. -/
def afterFraction? (cs : Rest) : Option Rest :=
  match specialWords.findSome? fun word => afterWord? word (Decimal.takeSign cs).2 with
  | some rest => some rest
  | none =>
    let token := cs.takeWhile isFractionChar
    let rest := cs.dropWhile isFractionChar
    if underscoresFit false token &&
        Decimal.isNumber (String.ofList (token.filter (· != '_'))) then
      some ((["f32", "f64"].findSome? fun kind => afterWord? kind rest).getD rest)
    else none

/-- Whether the characters of a fraction reach further than those of a whole number. -/
def looksLikeFraction (cs : Rest) : Bool :=
  let unsigned := (Decimal.takeSign cs).2
  (unsigned.takeWhile isWholeChar).length < (unsigned.takeWhile isFractionChar).length

/-- A number, with its value if it can be one of settings.  What is no whole number, or
one out of all bounds, may still be a fraction. -/
def number? (cs : Rest) : Option (Option Nat × Rest) :=
  let fraction := (afterFraction? cs).map (none, ·)
  if looksLikeFraction cs then fraction else (wholeNumber? cs).or fraction

end Phraseology.Settings
