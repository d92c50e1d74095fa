import Phraseology.Proofs.Decimal.LetterCase
import Phraseology.Text.Blank

/-!
# Texts that differ in their capital letters

Two texts that differ in the case of letters of ASCII only (`Respells`) have the same lower case
(`lower_of_respells`).  This holds in spite of capital sigmas, since a letter of ASCII has case in
either form (`facesCased_map_toLower`).  Signs, digits and blanks are the same in both texts
(`Respells.eq_of_signs`, `Respells.forall_mem`).
-/

namespace Phraseology.Text

open Decimal (toLower_eq_iff toLower_toLower)

/-- Whether two texts differ in the case of letters of ASCII only. -/
def Respells (cs ds : List Char) : Prop :=
  cs.map Char.toLower = ds.map Char.toLower

instance (cs ds : List Char) : Decidable (Respells cs ds) :=
  inferInstanceAs (Decidable (cs.map Char.toLower = ds.map Char.toLower))

variable {before cs ds : List Char} {c d : Char}

/-! ## Lower case -/

theorem toLower_eq_self_of_not_capital (hcapital : ¬ (65 ≤ c.toNat ∧ c.toNat ≤ 90)) :
    c.toLower = c := by
  rw [← Char.toNat_inj, toNat_toLower, if_neg hcapital]

theorem lowerChar_toLower (c : Char) : lowerChar c.toLower = lowerChar c := by
  by_cases hcapital : 65 ≤ c.toNat ∧ c.toNat ≤ 90
  · have hsmall : c.toLower.toNat < 0x80 := by
      rw [toNat_toLower, if_pos hcapital]
      omega
    rw [lowerChar_ascii hsmall, lowerChar_ascii (by omega), toLower_toLower]
  · rw [toLower_eq_self_of_not_capital hcapital]

theorem isCased_toLower (c : Char) : isCased c.toLower = isCased c := by
  have htable : ∀ n < 91, 65 ≤ n → inRanges casedRanges (n + 32) = inRanges casedRanges n := by
    decide
  rw [isCased, isCased, toNat_toLower]
  split
  · next hcapital => exact htable c.toNat (by omega) hcapital.1
  · rfl

theorem isCaseIgnorable_toLower (c : Char) : isCaseIgnorable c.toLower = isCaseIgnorable c := by
  -- no letter of ASCII is passed over
  have havoid : ∀ range ∈ caseIgnorableRanges,
      range.2 < 65 ∨ 90 < range.1 ∧ range.2 < 97 ∨ 122 < range.1 := by
    decide +kernel
  rw [Bool.eq_iff_iff, isCaseIgnorable, isCaseIgnorable, inRanges_iff, inRanges_iff, toNat_toLower]
  split
  · refine exists_congr fun range => and_congr_right fun hrange => ?_
    have hrange' := havoid range hrange
    omega
  · rfl

theorem facesCased_map_toLower (cs : List Char) :
    facesCased (cs.map Char.toLower) = facesCased cs := by
  have hsame : isCaseIgnorable ∘ Char.toLower = isCaseIgnorable := funext isCaseIgnorable_toLower
  rw [facesCased, facesCased, List.dropWhile_map, hsame]
  cases cs.dropWhile isCaseIgnorable with
  | nil => rfl
  | cons c more => exact isCased_toLower c

theorem lowerAt_map_toLower (before : List Char) (c : Char) (after : List Char) :
    lowerAt (before.map Char.toLower) c.toLower (after.map Char.toLower) =
      lowerAt before c after := by
  have hsigma : (c.toLower == 'Σ') = (c == 'Σ') := by
    rw [Bool.eq_iff_iff, beq_iff_eq, beq_iff_eq, ← Char.toNat_inj, ← Char.toNat_inj, toNat_toLower]
    simp only [Char.reduceToNat]
    split <;> omega
  rw [lowerAt, lowerAt, hsigma, facesCased_map_toLower, facesCased_map_toLower, lowerChar_toLower]

theorem lowerAfter_map_toLower (before cs : List Char) :
    lowerAfter (before.map Char.toLower) (cs.map Char.toLower) = lowerAfter before cs := by
  induction cs generalizing before with
  | nil => rfl
  | cons c cs ih =>
      rw [List.map_cons, lowerAfter_cons, lowerAfter_cons, lowerAt_map_toLower, ← List.map_cons, ih]

/-- The case of letters of ASCII is lost in lower case. -/
theorem lower_of_respells {first second : String}
    (hrespells : Respells first.toList second.toList) : lower first = lower second := by
  have hlower : ∀ text : String,
      lower text = String.ofList (lowerAfter [] (text.toList.map Char.toLower)) := by
    intro text
    rw [lower, ← lowerAfter_map_toLower, List.map_nil]
  rw [hlower first, hlower second, hrespells]

/-! ## Signs and blanks -/

theorem isBlank_toLower (c : Char) : isBlank c.toLower = isBlank c := by
  rw [Bool.eq_iff_iff]
  simp only [isBlank, Bool.or_eq_true, Bool.and_eq_true, decide_eq_true_eq, beq_iff_eq]
  rw [toNat_toLower]
  split <;> omega

theorem Respells.ne_nil (hrespells : Respells cs ds) (hds : ds ≠ []) : cs ≠ [] := by
  rintro rfl
  exact hds (List.map_eq_nil_iff.mp hrespells.symm)

/-- What is true of all characters in either case is true of both texts. -/
theorem Respells.forall_mem {p : Char → Bool} (hrespells : Respells cs ds)
    (hcase : ∀ c, p c.toLower = p c) (hds : ∀ d ∈ ds, p d = false) : ∀ c ∈ cs, p c = false := by
  intro c hc
  have hmem : c.toLower ∈ ds.map Char.toLower := by
    rw [← hrespells]
    exact List.mem_map_of_mem hc
  obtain ⟨d, hd, hlower⟩ := List.mem_map.mp hmem
  rw [← hcase c, ← hlower, hcase d]
  exact hds d hd

theorem Respells.eq_of_signs (hrespells : Respells cs ds) (hds : ∀ d ∈ ds, d.toNat < 65) :
    cs = ds := by
  have hself : ds.map Char.toLower = ds := by
    refine (List.map_congr_left fun d hd => ?_).trans (List.map_id ds)
    exact (toLower_eq_iff (hds d hd)).mpr rfl
  rw [Respells, hself] at hrespells
  subst hrespells
  refine ((List.map_congr_left fun c hc => ?_).trans (List.map_id cs)).symm
  exact ((toLower_eq_iff (hds _ (List.mem_map_of_mem hc))).mp rfl).symm

/-- A text that is spelled like a part and another part can be cut in two. -/
theorem Respells.exists_append {front rear : List Char} (hrespells : Respells cs (front ++ rear)) :
    ∃ first second, cs = first ++ second ∧ Respells first front ∧ Respells second rear := by
  rw [Respells, List.map_append] at hrespells
  obtain ⟨first, second, hcut, hfirst, hsecond⟩ := List.map_eq_append_iff.mp hrespells
  exact ⟨first, second, hcut, hfirst, hsecond⟩

end Phraseology.Text
