import Phraseology.Confidence
import Phraseology.Proofs.Decimal.Numeral
import Phraseology.Proofs.Text.Words

/-!
# Scores as words

The text of a score is made of the characters of numbers, and there is always one
(`isWord_scoreText`), also for scores that are not finite.  In a record, too, numbers are
written with these characters only (`isNumeral_of_mem_recordText`).
-/

namespace Phraseology

namespace Decimal

variable {c : Char}

theorem isNumeral_of_mem_digitChars {n : Nat} (hc : c ∈ digitChars n) : isNumeral c = true := by
  have hdigit : c.isDigit = true := Nat.isDigit_of_mem_toDigits (by decide) (by decide) hc
  simp [isNumeral, Char.isAlphanum, hdigit]

theorem isNumeral_of_mem_zeros {n : Nat} (hc : c ∈ zeros n) : isNumeral c = true := by
  rw [List.eq_of_mem_replicate hc]
  decide

theorem isNumeral_of_mem_positional {d : Digits} {tail : List Char}
    (htail : ∀ c ∈ tail, isNumeral c = true) (hc : c ∈ d.positional tail) : isNumeral c = true := by
  unfold Digits.positional at hc
  simp only at hc
  split at hc
  · rw [List.mem_append, List.mem_append] at hc
    rcases hc with (hc | hc) | hc
    · exact isNumeral_of_mem_digitChars hc
    · exact isNumeral_of_mem_zeros hc
    · exact htail c hc
  · split at hc
    · rw [List.mem_append, List.mem_cons] at hc
      rcases hc with hc | rfl | hc
      · exact isNumeral_of_mem_digitChars (List.mem_of_mem_take hc)
      · decide
      · exact isNumeral_of_mem_digitChars (List.mem_of_mem_drop hc)
    · rw [List.mem_append, List.mem_cons, List.mem_cons] at hc
      rcases hc with (rfl | rfl | hc) | hc
      · decide
      · decide
      · exact isNumeral_of_mem_zeros hc
      · exact isNumeral_of_mem_digitChars hc

theorem isNumeral_of_mem_scientific {d : Digits} (hc : c ∈ d.scientific) : isNumeral c = true := by
  unfold Digits.scientific at hc
  simp only [List.mem_append, List.mem_cons] at hc
  rcases hc with hmantissa | rfl | rfl | hc
  · -- the digits, with a point behind the first if there are more
    split at hmantissa
    · next first second rest hdigits =>
        have hall : ∀ digit ∈ first :: second :: rest, isNumeral digit = true := fun digit h =>
          isNumeral_of_mem_digitChars (hdigits ▸ h)
        simp only [List.forall_mem_cons] at hall
        simp only [List.mem_cons] at hmantissa
        rcases hmantissa with rfl | rfl | rfl | hc
        · exact hall.1
        · decide
        · exact hall.2.1
        · exact hall.2.2 c hc
    · exact isNumeral_of_mem_digitChars hmantissa
  · decide
  · split <;> decide
  · exact isNumeral_of_mem_digitChars hc

theorem positional_ne_nil (d : Digits) : d.positional [] ≠ [] := by
  have hdigits : digitChars d.digits ≠ [] := Nat.toDigits_ne_nil
  unfold Digits.positional
  simp only
  split
  · simp [hdigits]
  · split <;> simp

theorem isNumeral_of_mem_signed {negative : Bool} {body : List Char}
    (hbody : ∀ c ∈ body, isNumeral c = true) :
    ∀ c ∈ (if negative then '-' :: body else body), isNumeral c = true := by
  split
  · exact List.forall_mem_cons.mpr ⟨by decide, hbody⟩
  · exact hbody

/-- A number for people has characters, all of them those of numbers. -/
theorem plainText_spec (x : Float) :
    (plainText x).toList ≠ [] ∧ ∀ c ∈ (plainText x).toList, isNumeral c = true := by
  have hsigned : ∀ body : List Char, body ≠ [] →
      (if isNegative x then '-' :: body else body) ≠ [] := by
    intro body hbody
    split
    · exact List.cons_ne_nil _ _
    · exact hbody
  unfold plainText
  split
  · exact ⟨by decide, List.all_eq_true.mp (by decide)⟩
  · rw [String.toList_ofList]
    refine ⟨hsigned _ ?_, isNumeral_of_mem_signed ?_⟩
    · split
      · decide
      · split
        · decide
        · exact positional_ne_nil _
    · split
      · exact List.all_eq_true.mp (by decide)
      · split
        · exact List.all_eq_true.mp (by decide)
        · exact fun c => isNumeral_of_mem_positional (List.forall_mem_nil _)

/-- A number in a record is written with the characters of numbers. -/
theorem isNumeral_of_mem_recordText {x : Float} (hc : c ∈ (recordText x).toList) :
    isNumeral c = true := by
  have hnull : ∀ c ∈ "null".toList, isNumeral c = true := List.all_eq_true.mp (by decide)
  have hzero : ∀ c ∈ "0.0".toList, isNumeral c = true := List.all_eq_true.mp (by decide)
  have hfraction : ∀ c ∈ ".0".toList, isNumeral c = true := List.all_eq_true.mp (by decide)
  unfold recordText at hc
  split at hc
  · exact hnull c hc
  · rw [String.toList_ofList] at hc
    refine isNumeral_of_mem_signed (fun c hc => ?_) c hc
    split at hc
    · exact hzero c hc
    · simp only at hc
      split at hc
      · exact isNumeral_of_mem_positional hfraction hc
      · exact isNumeral_of_mem_scientific hc

end Decimal

/-- The text of a score is a word. -/
theorem isWord_scoreText (score : Float) : Text.IsWord (scoreText score) := by
  obtain ⟨hnonempty, hnumeral⟩ := Decimal.plainText_spec (roundScore score)
  have hplain : ∀ c ∈ (Decimal.plainText (roundScore score)).toList, Text.isBlank c = false :=
    fun c hc => Decimal.not_isBlank_of_isNumeral (hnumeral c hc)
  unfold scoreText
  simp only
  split
  · exact ⟨hnonempty, hplain⟩
  · exact Text.IsWord.append ⟨hnonempty, hplain⟩ (by decide)

end Phraseology
