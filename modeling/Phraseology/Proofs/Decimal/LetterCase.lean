import Phraseology.Proofs.Decimal.Numeral
import Phraseology.Proofs.Text.LetterCase

/-!
# Written numbers in lower case

The letters in a written number are those of an exponent and of the special values, and both
are read in either case.  Signs, the point and digits are no letters.  So a number in lower
case denotes what it denoted before (`float?_map_toLower`).
-/

namespace Phraseology.Decimal

open Text (toNat_toLower)

variable {c d : Char} {cs : List Char}

/-! ## Characters -/

/-- A character that is no letter is the lower case of nothing else. -/
theorem toLower_eq_iff (hd : d.toNat < 65) : c.toLower = d ↔ c = d := by
  rw [← Char.toNat_inj, ← Char.toNat_inj, toNat_toLower]
  split <;> omega

theorem toLower_toLower (c : Char) : c.toLower.toLower = c.toLower := by
  rw [← Char.toNat_inj, toNat_toLower c.toLower, toNat_toLower]
  split
  · rw [if_neg (by omega)]
  · rfl

theorem isDigit_toLower (c : Char) : isDigit c.toLower = isDigit c := by
  rw [Bool.eq_iff_iff, isDigit_iff, isDigit_iff, toNat_toLower]
  split <;> omega

theorem map_toLower_of_digits (hcs : ∀ c ∈ cs, isDigit c = true) : cs.map Char.toLower = cs := by
  refine (List.map_congr_left fun c hc => ?_).trans (List.map_id cs)
  have hdigit := isDigit_iff.mp (hcs c hc)
  rw [id, ← Char.toNat_inj, toNat_toLower, if_neg (by omega)]

/-! ## Parts of a number -/

theorem takeWhile_map_toLower (cs : List Char) :
    (cs.map Char.toLower).takeWhile isDigit = cs.takeWhile isDigit := by
  have hsame : isDigit ∘ Char.toLower = isDigit := funext isDigit_toLower
  rw [List.takeWhile_map, hsame]
  exact map_toLower_of_digits fun c hc => List.all_eq_true.mp List.all_takeWhile c hc

theorem dropWhile_map_toLower (cs : List Char) :
    (cs.map Char.toLower).dropWhile isDigit = (cs.dropWhile isDigit).map Char.toLower := by
  have hsame : isDigit ∘ Char.toLower = isDigit := funext isDigit_toLower
  rw [List.dropWhile_map, hsame]

theorem digits?_map_toLower (cs : List Char) : digits? (cs.map Char.toLower) = digits? cs := by
  have hall : (cs.map Char.toLower).all isDigit = cs.all isDigit := by
    rw [List.all_map]
    exact congrArg cs.all (funext isDigit_toLower)
  unfold digits?
  rw [List.isEmpty_map, hall]
  split
  · next hdigits =>
      rw [Bool.and_eq_true] at hdigits
      rw [map_toLower_of_digits fun c hc => List.all_eq_true.mp hdigits.2 c hc]
  · rfl

theorem takeSign_map_toLower (cs : List Char) :
    takeSign (cs.map Char.toLower) = ((takeSign cs).1, (takeSign cs).2.map Char.toLower) := by
  cases cs with
  | nil => rfl
  | cons c cs =>
      by_cases hminus : c = '-'
      · subst hminus
        rfl
      · by_cases hplus : c = '+'
        · subst hplus
          rfl
        · have hminus' : c.toLower ≠ '-' := fun h => hminus ((toLower_eq_iff (by decide)).mp h)
          have hplus' : c.toLower ≠ '+' := fun h => hplus ((toLower_eq_iff (by decide)).mp h)
          simp [takeSign, hminus, hplus, hminus', hplus']

theorem exponent?_map_toLower (cs : List Char) :
    exponent? (cs.map Char.toLower) = exponent? cs := by
  cases cs with
  | nil => rfl
  | cons e rest =>
      have hmark : (e.toLower == 'e' || e.toLower == 'E') = (e == 'e' || e == 'E') := by
        rw [Bool.eq_iff_iff, Bool.or_eq_true, Bool.or_eq_true, beq_iff_eq, beq_iff_eq, beq_iff_eq,
          beq_iff_eq, ← Char.toNat_inj, ← Char.toNat_inj, ← Char.toNat_inj, ← Char.toNat_inj,
          toNat_toLower]
        simp only [Char.reduceToNat]
        split <;> omega
      simp only [List.map_cons, exponent?, hmark, takeSign_map_toLower, digits?_map_toLower]

theorem unsigned?_map_toLower (negative : Bool) (cs : List Char) :
    unsigned? negative (cs.map Char.toLower) = unsigned? negative cs := by
  unfold unsigned?
  simp only [takeWhile_map_toLower, dropWhile_map_toLower]
  cases cs.dropWhile isDigit with
  | nil => rfl
  | cons c more =>
      by_cases hpoint : c = '.'
      · subst hpoint
        have hlower : Char.toLower '.' = '.' := by decide
        simp only [List.map_cons, hlower, takeWhile_map_toLower, dropWhile_map_toLower,
          exponent?_map_toLower]
      · have hpoint' : c.toLower ≠ '.' := fun h => hpoint ((toLower_eq_iff (by decide)).mp h)
        have hexponent := exponent?_map_toLower (c :: more)
        rw [List.map_cons] at hexponent
        simp [hpoint, hpoint', hexponent]

/-! ## Numbers -/

theorem ofChars?_map_toLower (cs : List Char) :
    Literal.ofChars? (cs.map Char.toLower) = Literal.ofChars? cs := by
  have hname : ∀ rest : List Char,
      (rest.map Char.toLower).map Char.toLower = rest.map Char.toLower := by
    intro rest
    rw [List.map_map]
    exact List.map_congr_left fun c _ => toLower_toLower c
  unfold Literal.ofChars?
  simp only [takeSign_map_toLower, hname, unsigned?_map_toLower]

/-- A written number in lower case is the same number. -/
theorem float?_map_toLower (cs : List Char) :
    float? (String.ofList (cs.map Char.toLower)) = float? (String.ofList cs) := by
  rw [float?, float?, String.toList_ofList, String.toList_ofList, ofChars?_map_toLower]

end Phraseology.Decimal
