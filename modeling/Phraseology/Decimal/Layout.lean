import Phraseology.Decimal.Shortest

/-!
# Writing numbers

Two layouts of the shortest decimal form.  The positional one never uses an
exponent and writes a whole number without a point; a tie between two shortest
forms goes up.  The one for records always shows a fraction or an exponent:
positional between `10 ^ -5` and `10 ^ 16`, with a signed exponent outside; a tie
goes to the even digit.
-/

namespace Phraseology.Decimal

/-- A run of zeros. -/
def zeros (n : Nat) : List Char :=
  List.replicate n '0'

/-- The digits of a whole number. -/
def digitChars (n : Nat) : List Char :=
  Nat.toDigits 10 n

/-- Positional text of a positive number, with `tail` behind a whole number. -/
def Digits.positional (d : Digits) (tail : List Char) : List Char :=
  let ds := digitChars d.digits
  let point : Int := ds.length + d.exponent
  if 0 ≤ d.exponent then ds ++ zeros d.exponent.toNat ++ tail
  else if 0 < point then ds.take point.toNat ++ '.' :: ds.drop point.toNat
  else '0' :: '.' :: zeros (-point).toNat ++ ds

/-- Text of a positive number with an exponent, which carries its sign. -/
def Digits.scientific (d : Digits) : List Char :=
  let ds := digitChars d.digits
  let exponent : Int := ds.length + d.exponent - 1
  let mantissa :=
    match ds with
    | first :: second :: rest => first :: '.' :: second :: rest
    | _ => ds
  mantissa ++ 'e' :: (if exponent < 0 then '-' else '+') :: digitChars exponent.natAbs

/-- A number as text for people: positional, `inf`, `-inf` and `NaN` by name,
and the sign of zero kept. -/
def plainText (x : Float) : String :=
  if x.isNaN then "NaN"
  else
    let body :=
      if x.isInf then "inf".toList
      else if x == 0.0 then ['0']
      else (shortest .up (Scaled.ofFloat x)).positional []
    String.ofList (if isNegative x then '-' :: body else body)

/-- A number in a record: with a fraction or an exponent, and `null` for what is
not a finite number. -/
def recordText (x : Float) : String :=
  if x.isNaN || x.isInf then "null"
  else
    let body :=
      if x == 0.0 then "0.0".toList
      else
        let d := shortest .even (Scaled.ofFloat x)
        let point : Int := (digitChars d.digits).length + d.exponent
        if -5 < point && point ≤ 16 then d.positional ".0".toList else d.scientific
    String.ofList (if isNegative x then '-' :: body else body)

end Phraseology.Decimal
