import Phraseology.Text.Case

/-!
# Lower case keeps signs and digits

Lower case touches letters only.  The tables lead to characters at or behind `a`,
so a character in front of `a` that is found in a text in lower case was in the
text before (`mem_of_mem_lower`).  This covers the angles of a tag, the line feed
and all blanks and digits of ASCII.

* `eq_of_mem_lowerChar`: one character, wherever it stands,
* `lowerAfter_append`: the front part of a text becomes the front part of its lower
  case, with the same small characters at most.
-/

namespace Phraseology.Text

/-! ## The tables -/

/-- Whether a run leads to characters that exist and do not lie in front of `a`. -/
def CaseRun.leadsToLetters (run : CaseRun) : Bool :=
  0x61 ≤ run.first + run.shift &&
    (run.last + run.shift < 0xD800 ||
      (0xE000 ≤ run.first + run.shift && run.last + run.shift < 0x110000))

theorem lowerRuns_leadToLetters : lowerRuns.all CaseRun.leadsToLetters = true := by
  decide

theorem CaseRun.find?_eq_some_iff {run : CaseRun} {n m : Nat} :
    run.find? n = some m ↔
      (run.first ≤ n ∧ n ≤ run.last ∧ (n - run.first) % run.stride = 0) ∧
        (n + run.shift).toNat = m := by
  simp [find?, and_assoc]

theorem letter_of_lookup_lowerRuns {n m : Nat} (found : CaseRun.lookup lowerRuns n = some m) :
    0x61 ≤ m ∧ m.isValidChar := by
  obtain ⟨run, hrun, hfind⟩ := List.exists_of_findSome?_eq_some found
  obtain ⟨⟨hfirst, hlast, -⟩, hm⟩ := CaseRun.find?_eq_some_iff.mp hfind
  have hletters := List.all_eq_true.mp lowerRuns_leadToLetters run hrun
  simp only [CaseRun.leadsToLetters, Bool.and_eq_true, Bool.or_eq_true, decide_eq_true_eq]
    at hletters
  unfold Nat.isValidChar
  omega

/-! ## One character -/

theorem toNat_ofNat_of_isValidChar {n : Nat} (valid : n.isValidChar) :
    (Char.ofNat n).toNat = n := by
  rw [Char.ofNat, dif_pos valid]
  rfl

theorem toNat_toLower (c : Char) :
    c.toLower.toNat = if 65 ≤ c.toNat ∧ c.toNat ≤ 90 then c.toNat + 32 else c.toNat := by
  have hbounds : (c.val ≥ 'A'.val ∧ c.val ≤ 'Z'.val) ↔ (65 ≤ c.toNat ∧ c.toNat ≤ 90) :=
    and_congr UInt32.le_iff_toNat_le UInt32.le_iff_toNat_le
  unfold Char.toLower
  split
  · next h =>
      have hrange := hbounds.mp h
      rw [if_pos hrange]
      have hval : c.val.toNat = c.toNat := rfl
      show (c.val + 32).toNat = c.toNat + 32
      rw [UInt32.toNat_add, hval]
      exact Nat.mod_eq_of_lt (by simp only [UInt32.reduceToNat]; omega)
  · next h => rw [if_neg (mt hbounds.mpr h)]

theorem toLower_eq_self_of_small {c : Char} (hsmall : c.toLower.toNat < 0x61) : c.toLower = c := by
  rw [← Char.toNat_inj]
  rw [toNat_toLower] at hsmall ⊢
  split at hsmall
  · omega
  · next hcapital => rw [if_neg hcapital]

/-- What a character becomes: its small letter in ASCII, one of the two characters of a capital I
with a dot, what the table leads to, or itself. -/
theorem mem_lowerChar_cases {c x : Char} (hmem : x ∈ lowerChar c) :
    c.toNat < 0x80 ∧ x = c.toLower ∨
      (x = 'i' ∨ x = '\u0307') ∨
      CaseRun.lookup lowerRuns c.toNat = some x.toNat ∨
      (0x80 ≤ c.toNat ∧ c ≠ 'İ' ∧ CaseRun.lookup lowerRuns c.toNat = none) ∧ x = c := by
  unfold lowerChar at hmem
  split at hmem
  · next hascii => exact .inl ⟨hascii, List.mem_singleton.mp hmem⟩
  · next hascii =>
      split at hmem
      · refine .inr (.inl ?_)
        simpa using hmem
      · next hdotted =>
          split at hmem
          · next m hfound =>
              refine .inr (.inr (.inl ?_))
              rw [hfound, List.mem_singleton.mp hmem,
                toNat_ofNat_of_isValidChar (letter_of_lookup_lowerRuns hfound).2]
          · next hnone =>
              have hother : c ≠ 'İ' := by simpa using hdotted
              exact .inr (.inr (.inr
                ⟨⟨Nat.le_of_not_lt hascii, hother, hnone⟩, List.mem_singleton.mp hmem⟩))

/-- A character in front of `a` stands for itself only. -/
theorem eq_of_mem_lowerChar {c x : Char} (hmem : x ∈ lowerChar c) (hsmall : x.toNat < 0x61) :
    x = c := by
  rcases mem_lowerChar_cases hmem with ⟨-, rfl⟩ | (rfl | rfl) | hfound | ⟨-, hsame⟩
  · exact toLower_eq_self_of_small hsmall
  · exact absurd hsmall (by decide)
  · exact absurd hsmall (by decide)
  · exact absurd (letter_of_lookup_lowerRuns hfound).1 (Nat.not_le.mpr hsmall)
  · exact hsame

theorem lowerChar_ne_nil (c : Char) : lowerChar c ≠ [] := by
  unfold lowerChar
  split
  · simp
  · split
    · simp
    · split <;> simp

/-- A character of ASCII that is no capital letter is its own lower case. -/
theorem lowerChar_eq_self {c : Char} (hascii : c.toNat < 0x80)
    (hcapital : c.toNat < 0x41 ∨ 0x5A < c.toNat) : lowerChar c = [c] := by
  rw [lowerChar_ascii hascii, List.cons.injEq, ← Char.toNat_inj, toNat_toLower,
    if_neg (by omega)]
  exact ⟨rfl, rfl⟩

/-! ## Texts

Only a capital sigma looks at its surroundings, and it becomes a letter in any
case, so what is in front of a text is carried along and never asked for. -/

/-- The lower case of the character that follows `before` and precedes `after`. -/
def lowerAt (before : List Char) (c : Char) (after : List Char) : List Char :=
  if c == 'Σ' then [if facesCased before && !facesCased after then 'ς' else 'σ'] else lowerChar c

theorem lowerAfter_cons (before : List Char) (c : Char) (after : List Char) :
    lowerAfter before (c :: after) = lowerAt before c after ++ lowerAfter (c :: before) after :=
  rfl

theorem lowerAt_ne_nil (before : List Char) (c : Char) (after : List Char) :
    lowerAt before c after ≠ [] := by
  unfold lowerAt
  split
  · simp
  · exact lowerChar_ne_nil c

/-- A capital sigma becomes one of two letters. -/
theorem mem_lowerAt_cases {before after : List Char} {c x : Char}
    (hmem : x ∈ lowerAt before c after) : (x = 'ς' ∨ x = 'σ') ∨ x ∈ lowerChar c := by
  unfold lowerAt at hmem
  split at hmem
  · rw [List.mem_singleton.mp hmem]
    split <;> simp
  · exact .inr hmem

theorem eq_of_mem_lowerAt {before after : List Char} {c x : Char}
    (hmem : x ∈ lowerAt before c after) (hsmall : x.toNat < 0x61) : x = c := by
  rcases mem_lowerAt_cases hmem with (rfl | rfl) | hmem
  · exact absurd hsmall (by decide)
  · exact absurd hsmall (by decide)
  · exact eq_of_mem_lowerChar hmem hsmall

theorem lowerAt_eq_self {before after : List Char} {c : Char} (hascii : c.toNat < 0x80)
    (hcapital : c.toNat < 0x41 ∨ 0x5A < c.toNat) : lowerAt before c after = [c] := by
  unfold lowerAt
  split
  · next hsigma =>
      rw [eq_of_beq hsigma] at hascii
      exact absurd hascii (by decide)
  · exact lowerChar_eq_self hascii hcapital

theorem mem_of_mem_lowerAfter {before cs : List Char} {x : Char}
    (hmem : x ∈ lowerAfter before cs) (hsmall : x.toNat < 0x61) : x ∈ cs := by
  induction cs generalizing before with
  | nil => simp [lowerAfter] at hmem
  | cons c rest ih =>
      rw [lowerAfter_cons, List.mem_append] at hmem
      rcases hmem with hhere | hlater
      · rw [eq_of_mem_lowerAt hhere hsmall]
        exact List.mem_cons_self ..
      · exact List.mem_cons_of_mem _ (ih hlater)

theorem lowerAfter_append (before cs rest : List Char) :
    ∃ front, lowerAfter before (cs ++ rest) = front ++ lowerAfter (cs.reverse ++ before) rest ∧
      ∀ x ∈ front, x.toNat < 0x61 → x ∈ cs := by
  induction cs generalizing before with
  | nil => exact ⟨[], by simp, by simp⟩
  | cons c cs ih =>
      obtain ⟨front, hfront, hsmall⟩ := ih (c :: before)
      refine ⟨lowerAt before c (cs ++ rest) ++ front, ?_, ?_⟩
      · rw [List.cons_append, lowerAfter_cons, hfront]
        simp
      · intro x hx hlt
        rcases List.mem_append.mp hx with hhere | hlater
        · rw [eq_of_mem_lowerAt hhere hlt]
          exact List.mem_cons_self ..
        · exact List.mem_cons_of_mem _ (hsmall x hlater hlt)

/-- A character in front of `a` that is in the lower case of a text is in the text. -/
theorem mem_of_mem_lower {text : String} {x : Char} (hmem : x ∈ (lower text).toList)
    (hsmall : x.toNat < 0x61) : x ∈ text.toList := by
  rw [lower, String.toList_ofList] at hmem
  exact mem_of_mem_lowerAfter hmem hsmall

end Phraseology.Text
