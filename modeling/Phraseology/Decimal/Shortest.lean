import Phraseology.Decimal.Double

/-!
# The fewest digits that read back

Every double stands for the interval of reals that round to it.  Its decimal
form is the point of the coarsest decimal grid that meets this interval; of two
such points the nearer one, and of two equally near the one that a `Tie` rule
names.  All comparisons are between whole numbers.
-/

namespace Phraseology.Decimal

/-- The positive number `digits · 10 ^ exponent`. -/
structure Digits where
  digits : Nat
  exponent : Int
deriving DecidableEq, Repr

/-- Which of two points at the same distance is taken. -/
inductive Tie where
  /-- The upper one. -/
  | up
  /-- The one whose last digit is even. -/
  | even
deriving DecidableEq, Repr

/-- Whether the upper one of `below` and `below + 1` is taken. -/
def Tie.takesUpper (tie : Tie) (below : Nat) : Bool :=
  match tie with
  | .up => true
  | .even => below % 2 == 1

/-- An interval of reals around a value, all three in units of
`2 ^ (exponent - 2)`.  The ends belong to it if `closed` is set. -/
structure Interval where
  low : Nat
  value : Nat
  high : Nat
  exponent : Int
  closed : Bool

/-- The reals that round to a magnitude: half a unit to each side, but only a
quarter below a power of two, where the units shrink. -/
def Interval.around (x : Scaled) : Interval where
  low := 4 * x.mantissa - (if x.mantissa == mantissaSpan && -1074 < x.exponent then 1 else 2)
  value := 4 * x.mantissa
  high := 4 * x.mantissa + 2
  exponent := x.exponent - 2
  closed := x.mantissa % 2 == 0

/-- The two numbers by which a binary magnitude and a decimal one are multiplied
to compare them as whole numbers: `n · 2 ^ b` against `c · 10 ^ k`. -/
def commonScale (b k : Int) : Nat × Nat :=
  (twoTo b.toNat * tenTo (-k).toNat, twoTo (-b).toNat * tenTo k.toNat)

/-- Whether `point · 10 ^ k` lies in the interval. -/
def Interval.contains (i : Interval) (k : Int) (point : Nat) : Bool :=
  let (binary, decimal) := commonScale i.exponent k
  let p := point * decimal
  if i.closed then i.low * binary ≤ p && p ≤ i.high * binary
  else i.low * binary < p && p < i.high * binary

/-- The points of the grid `10 ^ k` on both sides of the value: the lower one,
and how the distance to it compares with the distance to the upper one. -/
def Interval.neighbour (i : Interval) (k : Int) : Nat × Ordering :=
  let (binary, decimal) := commonScale i.exponent k
  let v := i.value * binary
  (v / decimal, compare (2 * (v % decimal)) decimal)

/-- The nearest point of the grid `10 ^ k` that lies in the interval. -/
def Interval.hit? (i : Interval) (tie : Tie) (k : Int) : Option Nat :=
  let (below, distance) := i.neighbour k
  let upper :=
    match distance with
    | .lt => false
    | .eq => tie.takesUpper below
    | .gt => true
  match i.contains k below, i.contains k (below + 1) with
  | true, true => some (if upper then below + 1 else below)
  | true, false => some below
  | false, true => some (below + 1)
  | false, false => none

/-- The first hit on grids that get finer from `10 ^ k` on. -/
def Interval.firstHit (i : Interval) (tie : Tie) : Nat → Int → Digits
  | 0, k => ⟨(i.neighbour k).1, k⟩
  | steps + 1, k =>
    match i.hit? tie k with
    | some point => ⟨point, k⟩
    | none => i.firstHit tie steps (k - 1)

/-- The shortest decimal form of a positive magnitude.  The search starts on a
grid coarser than the magnitude itself, and seventeen digits always suffice. -/
def shortest (tie : Tie) (x : Scaled) : Digits :=
  let bits : Int := x.mantissa.log2 + x.exponent
  (Interval.around x).firstHit tie 24 ((bits + 1) * 30103 / 100000 + 2)

end Phraseology.Decimal
