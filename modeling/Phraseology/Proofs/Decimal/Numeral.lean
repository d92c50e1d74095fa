import Phraseology.Decimal.Reader
import Phraseology.Text.Blank

/-!
# What a written number is made of

Signs, a point, digits and letters: whatever else a text holds, a text that reads
as a number does not hold it (`isNumeral_of_isNumber`).
-/

namespace Phraseology.Decimal

theorem isDigit_iff {c : Char} : isDigit c = true ↔ 48 ≤ c.toNat ∧ c.toNat ≤ 57 := by
  rw [isDigit, Bool.and_eq_true, decide_eq_true_eq, decide_eq_true_eq]
  exact and_congr UInt32.le_iff_toNat_le UInt32.le_iff_toNat_le

/-- Whether a character can stand in a written number. -/
def isNumeral (c : Char) : Bool :=
  c.isAlphanum || c == '+' || c == '-' || c == '.'

/-- The characters of numbers are signs and the point, digits and letters of ASCII. -/
theorem toNat_of_isNumeral {c : Char} (hnumeral : isNumeral c = true) :
    (43 ≤ c.toNat ∧ c.toNat ≤ 57) ∨ (65 ≤ c.toNat ∧ c.toNat ≤ 90) ∨
      (97 ≤ c.toNat ∧ c.toNat ≤ 122) := by
  have hclasses : (c.isUpper || c.isLower || c.isDigit || c == '+' || c == '-' || c == '.') =
      true := hnumeral
  simp only [Bool.or_eq_true, beq_iff_eq] at hclasses
  rcases hclasses with ((((hupper | hlower) | hdigit) | rfl) | rfl) | rfl
  · have hrange : c.val ≥ 'A'.val ∧ c.val ≤ 'Z'.val := of_decide_eq_true hupper
    exact .inr (.inl (hrange.imp UInt32.le_iff_toNat_le.mp UInt32.le_iff_toNat_le.mp))
  · have hrange : (decide (c.val ≥ 'a'.val) && decide (c.val ≤ 'z'.val)) = true := hlower
    rw [Bool.and_eq_true, decide_eq_true_eq, decide_eq_true_eq] at hrange
    exact .inr (.inr (hrange.imp UInt32.le_iff_toNat_le.mp UInt32.le_iff_toNat_le.mp))
  · have hrange : 48 ≤ c.toNat ∧ c.toNat ≤ 57 := isDigit_iff.mp hdigit
    exact .inl ⟨Nat.le_trans (by decide) hrange.1, hrange.2⟩
  all_goals decide

theorem not_isBlank_of_isNumeral {c : Char} (hnumeral : isNumeral c = true) :
    Text.isBlank c = false := by
  have hrange := toNat_of_isNumeral hnumeral
  simp only [Text.isBlank, Bool.or_eq_false_iff, Bool.and_eq_false_iff, decide_eq_false_iff_not,
    beq_eq_false_iff_ne]
  omega

theorem isNumeral_of_isDigit {c : Char} (hdigit : isDigit c = true) : isNumeral c = true := by
  have hcore : c.isDigit = true := by
    simp only [isDigit, Bool.and_eq_true, decide_eq_true_eq] at hdigit
    simpa [Char.isDigit, Char.le_def] using hdigit
  simp [isNumeral, Char.isAlphanum, hcore]

theorem isNumeral_of_isAlpha {c : Char} (halpha : c.isAlpha = true) : isNumeral c = true := by
  simp [isNumeral, Char.isAlphanum, halpha]

/-- A character whose lower case is a letter is a letter. -/
theorem isAlpha_of_isAlpha_toLower {c : Char} (halpha : c.toLower.isAlpha = true) :
    c.isAlpha = true := by
  unfold Char.toLower at halpha
  split at halpha
  · next h =>
      have hupper : c.isUpper = true := decide_eq_true h
      show (c.isUpper || c.isLower) = true
      rw [hupper, Bool.true_or]
  · exact halpha

theorem isNumeral_of_digits? {cs : List Char} (hsome : (digits? cs).isSome) :
    ∀ c ∈ cs, isNumeral c = true := by
  intro c hc
  unfold digits? at hsome
  split at hsome
  · next h =>
      rw [Bool.and_eq_true] at h
      exact isNumeral_of_isDigit (List.all_eq_true.mp h.2 c hc)
  · simp at hsome

/-- Only a sign is taken off. -/
theorem isNumeral_of_takeSign {cs : List Char} (hrest : ∀ c ∈ (takeSign cs).2, isNumeral c = true) :
    ∀ c ∈ cs, isNumeral c = true := by
  intro c hc
  unfold takeSign at hrest
  split at hrest
  · rcases List.mem_cons.mp hc with rfl | hc
    · rfl
    · exact hrest c hc
  · rcases List.mem_cons.mp hc with rfl | hc
    · rfl
    · exact hrest c hc
  · exact hrest c hc

theorem isNumeral_of_exponent? {cs : List Char} (hsome : (exponent? cs).isSome) :
    ∀ c ∈ cs, isNumeral c = true := by
  cases cs with
  | nil => simp
  | cons e rest =>
      simp only [exponent?] at hsome
      split at hsome
      · next hmark =>
          have hdigits : (digits? (takeSign rest).2).isSome := by
            cases h : digits? (takeSign rest).2 with
            | none => simp [h] at hsome
            | some n => rfl
          intro c hc
          rcases List.mem_cons.mp hc with rfl | hc
          · rw [Bool.or_eq_true, beq_iff_eq, beq_iff_eq] at hmark
            rcases hmark with rfl | rfl <;> rfl
          · exact isNumeral_of_takeSign (isNumeral_of_digits? hdigits) c hc
      · simp at hsome

theorem isNumeral_of_mem_takeWhile {cs : List Char} {c : Char} (hc : c ∈ cs.takeWhile isDigit) :
    isNumeral c = true :=
  isNumeral_of_isDigit (List.all_eq_true.mp List.all_takeWhile c hc)

theorem isNumeral_of_unsigned? {negative : Bool} {cs : List Char}
    (hsome : (unsigned? negative cs).isSome) : ∀ c ∈ cs, isNumeral c = true := by
  intro c hc
  rw [← List.takeWhile_append_dropWhile (p := isDigit) (l := cs), List.mem_append] at hc
  rcases hc with hwhole | hrest
  · exact isNumeral_of_mem_takeWhile hwhole
  · -- behind the whole part stands a point with its digits, or the exponent
    simp only [unsigned?] at hsome
    split at hsome
    · next more hmore =>
        rw [hmore] at hrest
        split at hsome
        · simp at hsome
        · rw [Option.isSome_map] at hsome
          rcases List.mem_cons.mp hrest with rfl | hrest
          · rfl
          · rw [← List.takeWhile_append_dropWhile (p := isDigit) (l := more),
              List.mem_append] at hrest
            rcases hrest with hfraction | hrest
            · exact isNumeral_of_mem_takeWhile hfraction
            · exact isNumeral_of_exponent? hsome c hrest
    · split at hsome
      · simp at hsome
      · rw [Option.isSome_map] at hsome
        exact isNumeral_of_exponent? hsome c hrest

/-- A word for a special value is made of letters. -/
theorem isNumeral_of_map_toLower {cs : List Char} {name : String}
    (hname : (cs.map Char.toLower == name.toList) = true)
    (hletters : name.toList.all Char.isAlpha = true) : ∀ c ∈ cs, isNumeral c = true := by
  intro c hc
  have hmem : c.toLower ∈ name.toList := by
    rw [← eq_of_beq hname]
    exact List.mem_map_of_mem hc
  exact isNumeral_of_isAlpha
    (isAlpha_of_isAlpha_toLower (List.all_eq_true.mp hletters _ hmem))

/-- A written number is made of signs, points, digits and letters. -/
theorem isNumeral_of_isNumber {text : String} (hnumber : isNumber text = true) :
    ∀ c ∈ text.toList, isNumeral c = true := by
  apply isNumeral_of_takeSign
  unfold isNumber Literal.ofChars? at hnumber
  simp only at hnumber
  split at hnumber
  · next hname =>
      rw [Bool.or_eq_true] at hname
      rcases hname with hname | hname
      · exact isNumeral_of_map_toLower hname (by decide)
      · exact isNumeral_of_map_toLower hname (by decide)
  · split at hnumber
    · next hname => exact isNumeral_of_map_toLower hname (by decide)
    · exact isNumeral_of_unsigned? hnumber

end Phraseology.Decimal
