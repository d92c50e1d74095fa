/-!
# Doubles as scaled whole numbers

A finite double is `m · 2 ^ e` for a whole number `m` below `2 ^ 53` and an
exponent `e` of at least `-1074`.  `Scaled.ofFloat` reads the two numbers off
the bits, and `nearestBits` goes the other way: it gives the bits of the double
that is nearest to a quotient of whole numbers, ties to the even neighbour, by
exact arithmetic.
-/

namespace Phraseology.Decimal

/-- The magnitude `mantissa · 2 ^ exponent`. -/
structure Scaled where
  mantissa : Nat
  exponent : Int
deriving DecidableEq, Repr

/-- A power of two. -/
def twoTo (n : Nat) : Nat := Nat.pow 2 n

/-- A power of ten. -/
def tenTo (n : Nat) : Nat := Nat.pow 10 n

/-- The number of mantissas with the same exponent, `2 ^ 52`. -/
def mantissaSpan : Nat := twoTo 52

/-- The sign bit of a double, `2 ^ 63`. -/
def signBit : Nat := twoTo 63

/-- The bits of positive infinity. -/
def infinityBits : Nat := 2047 * mantissaSpan

/-- Whether the sign bit of a double is set. -/
def isNegative (x : Float) : Bool :=
  signBit ≤ x.toBits.toNat

/-- The magnitude of a finite double. -/
def Scaled.ofFloat (x : Float) : Scaled :=
  let bits := x.toBits.toNat % signBit
  if bits < mantissaSpan then ⟨bits, -1074⟩
  else ⟨mantissaSpan + bits % mantissaSpan, bits / mantissaSpan - 1075⟩

/-- The whole number nearest to `num / den`, a tie going to the even one. -/
def roundHalfEven (num den : Nat) : Nat :=
  let quotient := num / den
  let twice := 2 * (num % den)
  if twice < den then quotient
  else if den < twice then quotient + 1
  else quotient + quotient % 2

/-- The two numbers whose quotient is `num / den / 2 ^ exponent`. -/
def unscale (num den : Nat) (exponent : Int) : Nat × Nat :=
  if exponent < 0 then (num * twoTo (-exponent).toNat, den)
  else (num, den * twoTo exponent.toNat)

/-- The exponent at which `num / den` has a mantissa of 53 bits, or the least
exponent there is. -/
def doubleExponent (num den : Nat) : Int :=
  let guess : Int := (num.log2 : Int) - den.log2 - 52
  let (n, d) := unscale num den guess
  max (-1074) (if n / d < mantissaSpan then guess - 1 else guess)

/-- The bits of the double nearest to a positive quotient. -/
def nearestBits (num den : Nat) : Nat :=
  let exponent := doubleExponent num den
  let (n, d) := unscale num den exponent
  min infinityBits ((exponent + 1074).toNat * mantissaSpan + roundHalfEven n d)

/-- The double with the given sign that is nearest to a quotient. -/
def nearest (negative : Bool) (num den : Nat) : Float :=
  let magnitude := if num == 0 then 0 else nearestBits num den
  Float.ofBits (UInt64.ofNat (if negative then signBit + magnitude else magnitude))

end Phraseology.Decimal
