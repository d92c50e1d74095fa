import Phraseology.Proofs.Text.LowerWords

/-!
# Upper case of words

Upper case may take several characters for one, but takes at least one, and no blank for
another character.  So a word in upper case is a word (`IsWord.upper`), and so are words that
are joined by a sign (`isWord_intercalate`).
-/

namespace Phraseology.Text

variable {c x : Char}

/-- The code points of the blank characters. -/
def blankCodes : List Nat :=
  List.range' 0x9 5 ++ 0x20 :: lateBlanks

theorem mem_blankCodes_iff : c.toNat ∈ blankCodes ↔ isBlank c = true := by
  simp only [blankCodes, lateBlanks, isBlank, List.mem_append, List.mem_cons, List.not_mem_nil,
    or_false, List.mem_range'_1, Bool.or_eq_true, Bool.and_eq_true, decide_eq_true_eq, beq_iff_eq]
  omega

/-! ## The tables -/

theorem upperRuns_avoidBlanks : upperRuns.all (·.avoids blankCodes) = true := by
  decide

theorem upperExpansions_avoidBlanks : upperExpansions.all (fun entry =>
    !entry.2.isEmpty && entry.2.all fun n => !isBlank (Char.ofNat n)) = true := by
  decide

theorem not_isBlank_ofNat {n : Nat} (hcode : n ∉ blankCodes) : isBlank (Char.ofNat n) = false := by
  by_cases hvalid : n.isValidChar
  · rw [← Bool.not_eq_true, ← mem_blankCodes_iff, toNat_ofNat_of_isValidChar hvalid]
    exact hcode
  · rw [Char.ofNat, dif_neg hvalid]
    decide

/-! ## Characters and words -/

theorem isBlank_toUpper (hascii : c.toNat < 0x80) (hsolid : isBlank c = false) :
    isBlank c.toUpper = false := by
  have htable : ∀ n < 0x80, isBlank (Char.ofNat n) = false →
      isBlank (Char.ofNat n).toUpper = false := by decide
  have hc := htable c.toNat hascii
  rw [Char.ofNat_toNat] at hc
  exact hc hsolid

/-- What a character becomes: at least one character, and no blanks unless it is one. -/
theorem upperChar_spec (hsolid : isBlank c = false) :
    upperChar c ≠ [] ∧ ∀ x ∈ upperChar c, isBlank x = false := by
  unfold upperChar
  split
  · next hascii =>
      exact ⟨List.cons_ne_nil _ _, by simpa using isBlank_toUpper hascii hsolid⟩
  · split
    · next ns hexpansion =>
        obtain ⟨before, after, hentries, -⟩ := List.lookup_eq_some_iff.mp hexpansion
        have hentry : (c.toNat, ns) ∈ upperExpansions := by simp [hentries]
        have havoids := List.all_eq_true.mp upperExpansions_avoidBlanks _ hentry
        simpa [List.map_eq_nil_iff] using havoids
    · split
      · next n hfound =>
          have hcode := CaseRun.notMem_of_lookup upperRuns_avoidBlanks (by decide) hfound
          exact ⟨List.cons_ne_nil _ _, by simpa using not_isBlank_ofNat hcode⟩
      · exact ⟨List.cons_ne_nil _ _, by simpa using hsolid⟩

/-- A word in upper case is a word. -/
theorem IsWord.upper {word : String} (hword : IsWord word) : IsWord (upper word) := by
  obtain ⟨hnonempty, hsolid⟩ := hword
  rw [Text.upper]
  constructor
  · rw [String.toList_ofList]
    intro hnil
    obtain ⟨c, hc⟩ := List.exists_mem_of_ne_nil _ hnonempty
    exact (upperChar_spec (hsolid c hc)).1 (List.flatMap_eq_nil_iff.mp hnil c hc)
  · intro x hx
    rw [String.toList_ofList] at hx
    obtain ⟨c, hc, hmem⟩ := List.mem_flatMap.mp hx
    exact (upperChar_spec (hsolid c hc)).2 x hmem

/-- Words joined by a sign are a word. -/
theorem isWord_intercalate {separator : String} {ws : List String} (hseparator : IsSolid separator)
    (hnonempty : ws ≠ []) (hwords : ∀ word ∈ ws, IsWord word) :
    IsWord (separator.intercalate ws) := by
  induction ws with
  | nil => exact absurd rfl hnonempty
  | cons first ws ih =>
      obtain ⟨hfirst, hws⟩ := List.forall_mem_cons.mp hwords
      cases ws with
      | nil => simpa using hfirst
      | cons second more =>
          have hrest := ih (List.cons_ne_nil _ _) hws
          have hjoined : separator.intercalate (first :: second :: more) =
              first ++ (separator ++ separator.intercalate (second :: more)) := by
            rw [← String.toList_inj]
            simp [String.toList_intercalate]
          rw [hjoined]
          exact hfirst.append (hseparator.append hrest.solid)

end Phraseology.Text
