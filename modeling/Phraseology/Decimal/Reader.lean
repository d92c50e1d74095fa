import Phraseology.Decimal.Double

/-!
# Reading numbers

A written number is an optional sign followed by `inf`, `infinity` or `nan` in
any letter case, or by digits with an optional point and an optional exponent.
At least one digit stands beside the point, and at least one in an exponent.
Whole numbers are an optional `+` and digits, up to a number of bits.
-/

namespace Phraseology.Decimal

/-- What a written number denotes, before it is rounded to a double. -/
inductive Literal where
  | infinite (negative : Bool)
  | notANumber
  /-- The number `digits · 10 ^ exponent`. -/
  | finite (negative : Bool) (digits : Nat) (exponent : Int)
deriving DecidableEq, Repr

/-- Whether a character is one of the ten digits. -/
def isDigit (c : Char) : Bool :=
  '0' ≤ c && c ≤ '9'

/-- The number that digits denote. -/
def ofDigits (cs : List Char) : Nat :=
  cs.foldl (fun n c => 10 * n + (c.toNat - 48)) 0

/-- Digits, at least one, and nothing else. -/
def digits? (cs : List Char) : Option Nat :=
  if !cs.isEmpty && cs.all isDigit then some (ofDigits cs) else none

/-- An optional sign, with the rest. -/
def takeSign : List Char → Bool × List Char
  | '-' :: rest => (true, rest)
  | '+' :: rest => (false, rest)
  | cs => (false, cs)

/-- The exponent behind a mantissa: nothing stands for zero. -/
def exponent? : List Char → Option Int
  | [] => some 0
  | e :: rest =>
    if e == 'e' || e == 'E' then
      let (negative, ds) := takeSign rest
      (digits? ds).map fun n => if negative then -(n : Int) else n
    else none

/-- A number without its sign and without the words for the special values. -/
def unsigned? (negative : Bool) (cs : List Char) : Option Literal :=
  let whole := cs.takeWhile isDigit
  let rest := cs.dropWhile isDigit
  let (fraction, tail) :=
    match rest with
    | '.' :: more => (more.takeWhile isDigit, more.dropWhile isDigit)
    | _ => ([], rest)
  if whole.isEmpty && fraction.isEmpty then none
  else
    (exponent? tail).map fun e =>
      .finite negative (ofDigits (whole ++ fraction)) (e - fraction.length)

/-- The number that a text denotes. -/
def Literal.ofChars? (cs : List Char) : Option Literal :=
  let (negative, rest) := takeSign cs
  let name := rest.map Char.toLower
  if name == "inf".toList || name == "infinity".toList then some (.infinite negative)
  else if name == "nan".toList then some .notANumber
  else unsigned? negative rest

/-- The double nearest to a written number.  Beyond 400 places before or behind
the point there is nothing but infinity and zero, so no large power is formed. -/
def Literal.toFloat : Literal → Float
  | .infinite negative => nearest negative (tenTo 400) 1
  | .notANumber => 0.0 / 0.0
  | .finite negative digits exponent =>
    let places : Int := exponent + (Nat.toDigits 10 digits).length
    if digits == 0 || places < -400 then nearest negative 0 1
    else if 400 < places then nearest negative (tenTo 400) 1
    else if exponent < 0 then nearest negative digits (tenTo (-exponent).toNat)
    else nearest negative (digits * tenTo exponent.toNat) 1

/-- The double that a text denotes. -/
def float? (text : String) : Option Float :=
  (Literal.ofChars? text.toList).map Literal.toFloat

/-- Whether a text denotes a number. -/
def isNumber (text : String) : Bool :=
  (Literal.ofChars? text.toList).isSome

/-- The whole number that a text denotes, if it fits into `size` bits. -/
def natOfBits? (size : Nat) (text : String) : Option Nat :=
  let ds :=
    match text.toList with
    | '+' :: rest => rest
    | cs => cs
  (digits? ds).filter (· < twoTo size)

theorem float?_isSome (text : String) : (float? text).isSome = isNumber text := by
  simp [float?, isNumber]

end Phraseology.Decimal
