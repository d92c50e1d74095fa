import Phraseology.Proofs.Text.LowerWords
import Phraseology.Token

/-!
# Lower case is its own lower case

A text in lower case stays as it is (`lower_lower`).  This rests on the table of runs: no
character that a run leads to is one from which a run leads on (`lowerRuns_avoid`).  Most runs
lie apart from where the others lead.  Where capitals and small letters take turns, they are
told apart by every second code point.  And since a sigma is led on from, none is left, and no
character of a text in lower case looks at its surroundings.
-/

namespace Phraseology.Text

variable {c x : Char} {before cs : List Char} {n m : Nat}

/-! ## The tables -/

/-- The code points that a run leads to. -/
def CaseRun.led (run : CaseRun) : CaseRun where
  first := (run.first + run.shift).toNat
  last := (run.last + run.shift).toNat
  stride := run.stride
  shift := 0

/-- Whether two runs are seen to have no code point in common: the one ends in front of the other,
or the one has even code points and the other odd ones. -/
def CaseRun.disjoint (run other : CaseRun) : Bool :=
  Nat.blt run.last other.first || Nat.blt other.last run.first ||
    ((run.stride == 2 || run.first == run.last) && other.stride == 2 &&
      (run.first + other.first) % 2 == 1)

/-- The capital I with a dot, which is in no run. -/
def dottedRun : CaseRun where
  first := 0x130
  last := 0x130
  stride := 1
  shift := 0

theorem lowerRuns_avoid :
    lowerRuns.all (fun run => (dottedRun :: lowerRuns).all run.led.disjoint) = true := by
  decide +kernel

theorem CaseRun.find?_led {run : CaseRun} (hletters : run.leadsToLetters = true)
    (hfound : run.find? n = some m) : run.led.find? m = some m := by
  obtain ⟨⟨hfirst, hlast, hstride⟩, hm⟩ := find?_eq_some_iff.mp hfound
  simp only [leadsToLetters, Bool.or_eq_true, Bool.and_eq_true, decide_eq_true_eq] at hletters
  have hplace : m - run.led.first = n - run.first := by
    simp only [led]
    omega
  have hled : run.led.first ≤ m ∧ m ≤ run.led.last := by
    simp only [led]
    omega
  refine find?_eq_some_iff.mpr ⟨⟨hled.1, hled.2, ?_⟩, ?_⟩
  · rw [hplace]
    exact hstride
  · simp [led]

theorem CaseRun.find?_eq_none_of_disjoint {run other : CaseRun}
    (hdisjoint : run.disjoint other = true) (hfound : run.find? n = some m) :
    other.find? n = none := by
  rw [Option.eq_none_iff_forall_ne_some]
  intro k hother
  obtain ⟨⟨hfirst, hlast, hstride⟩, -⟩ := find?_eq_some_iff.mp hfound
  obtain ⟨⟨hafter, hbefore, hplace⟩, -⟩ := find?_eq_some_iff.mp hother
  simp only [disjoint, Bool.or_eq_true, Bool.and_eq_true, Nat.blt_eq, beq_iff_eq] at hdisjoint
  rcases hdisjoint with (hbelow | habove) | ⟨⟨hsteps, htwo⟩, hodd⟩
  · omega
  · omega
  · -- both take every second code point
    rw [htwo] at hplace
    rcases hsteps with hsteps | hsingle
    · rw [hsteps] at hstride
      omega
    · omega

theorem lookup_eq_none_of_lookup (hfound : CaseRun.lookup lowerRuns n = some m) :
    CaseRun.lookup lowerRuns m = none ∧ m ≠ 0x130 := by
  obtain ⟨run, hrun, hfind⟩ := List.exists_of_findSome?_eq_some hfound
  have havoid := List.all_eq_true.mp (List.all_eq_true.mp lowerRuns_avoid run hrun)
  have hletters := List.all_eq_true.mp lowerRuns_leadToLetters run hrun
  have hled := CaseRun.find?_led hletters hfind
  have hnone : ∀ other ∈ dottedRun :: lowerRuns, other.find? m = none :=
    fun other hother => CaseRun.find?_eq_none_of_disjoint (havoid other hother) hled
  refine ⟨?_, ?_⟩
  · exact List.findSome?_eq_none_iff.mpr fun other hother =>
      hnone other (List.mem_cons_of_mem _ hother)
  · rintro rfl
    have hdotted := hnone dottedRun List.mem_cons_self
    exact absurd hdotted (by decide)

/-! ## One character -/

/-- Whether a character stands for itself in a text in lower case. -/
def IsSettled (c : Char) : Prop :=
  lowerChar c = [c] ∧ c ≠ 'Σ'

theorem isSettled_of_lookup (hlookup : CaseRun.lookup lowerRuns c.toNat = none)
    (hascii : 0x80 ≤ c.toNat) (hdotted : c ≠ 'İ') : IsSettled c := by
  constructor
  · rw [lowerChar, if_neg (Nat.not_lt.mpr hascii), if_neg (by simpa using hdotted), hlookup]
  · rintro rfl
    exact absurd hlookup (by decide)

theorem isSettled_of_isLowered (hlowered : IsLowered c) : IsSettled c := by
  refine ⟨lowerChar_eq_self hlowered.1 hlowered.2, ?_⟩
  rintro rfl
  exact absurd hlowered.1 (by decide)

theorem isSettled_of_mem_lowerChar (hmem : x ∈ lowerChar c) : IsSettled x := by
  rcases mem_lowerChar_cases hmem with
    ⟨hascii, rfl⟩ | (rfl | rfl) | hfound | ⟨⟨hascii, hdotted, hnone⟩, rfl⟩
  · apply isSettled_of_isLowered
    refine ⟨toNat_toLower_lt hascii, ?_⟩
    rw [toNat_toLower]
    split <;> omega
  · exact ⟨by decide, by decide⟩
  · exact ⟨by decide, by decide⟩
  · obtain ⟨hnone, hdotted⟩ := lookup_eq_none_of_lookup hfound
    have hletter := (letter_of_lookup_lowerRuns hfound).1
    by_cases hascii : x.toNat < 0x80
    · exact isSettled_of_isLowered ⟨hascii, by omega⟩
    · apply isSettled_of_lookup hnone (Nat.le_of_not_lt hascii)
      rintro rfl
      exact hdotted rfl
  · exact isSettled_of_lookup hnone hascii hdotted

theorem isSettled_of_mem_lowerAt {after : List Char} (hmem : x ∈ lowerAt before c after) :
    IsSettled x := by
  rcases mem_lowerAt_cases hmem with (rfl | rfl) | hmem
  · exact ⟨by decide, by decide⟩
  · exact ⟨by decide, by decide⟩
  · exact isSettled_of_mem_lowerChar hmem

/-! ## Texts -/

theorem isSettled_of_mem_lowerAfter (hmem : x ∈ lowerAfter before cs) : IsSettled x := by
  induction cs generalizing before with
  | nil => cases hmem
  | cons c cs ih =>
      rw [lowerAfter_cons, List.mem_append] at hmem
      rcases hmem with hhere | hlater
      · exact isSettled_of_mem_lowerAt hhere
      · exact ih hlater

theorem lowerAfter_of_isSettled (hcs : ∀ c ∈ cs, IsSettled c) (before : List Char) :
    lowerAfter before cs = cs := by
  induction cs generalizing before with
  | nil => rfl
  | cons c cs ih =>
      obtain ⟨⟨hself, hsigma⟩, hrest⟩ := List.forall_mem_cons.mp hcs
      rw [lowerAfter_cons, lowerAt, if_neg (by simpa using hsigma), hself, ih hrest]
      rfl

/-- A text in lower case stays as it is. -/
theorem lower_lower (text : String) : lower (lower text) = lower text := by
  have hsettled : ∀ c ∈ (lower text).toList, IsSettled c := by
    intro c hc
    rw [lower, String.toList_ofList] at hc
    exact isSettled_of_mem_lowerAfter hc
  rw [lower, lowerAfter_of_isSettled hsettled, String.ofList_toList]

end Phraseology.Text

namespace Phraseology.Token

/-- What a search compares is in lower case. -/
theorem lower_observation (raw : String) : Text.lower (observation raw) = observation raw := by
  unfold observation
  split
  · exact Text.lower_lower _
  · exact Text.lower_lower _

end Phraseology.Token
