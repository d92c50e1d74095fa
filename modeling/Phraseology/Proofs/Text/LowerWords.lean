import Phraseology.Proofs.Text.LetterCase
import Phraseology.Proofs.Text.Words

/-!
# Lower case of joined words

Only a capital sigma looks at what surrounds it, and it looks no further than the next
character with case.  Where that cannot be, as at a space, at both ends of a text and in
front of a number behind a colon, a text may be cut, and its parts put into lower case one
by one (`lowerAfter_append_of_facesCased`, `lowerAfter_of_facesCased`).  So the words of
a text in lower case are the words of the text, each in lower case
(`words_lower_unwords`).

Where a character with case is met, a cut makes a difference only to a word that ends in a
capital sigma (`lowerBetween_eq_iff`).
-/

namespace Phraseology.Text

variable {before outer cs rest : List Char} {c x : Char}

/-! ## Cutting -/

theorem facesCased_append (hrest : facesCased rest = false) (cs : List Char) :
    facesCased (cs ++ rest) = facesCased cs := by
  unfold facesCased at hrest ⊢
  rw [List.dropWhile_append]
  cases hdrop : cs.dropWhile isCaseIgnorable with
  | nil => simpa using hrest
  | cons c more => rfl

/-- What lies in front of a place where nothing with case is met does not matter. -/
theorem lowerAfter_of_facesCased (houter : facesCased outer = false) (before cs : List Char) :
    lowerAfter (before ++ outer) cs = lowerAfter before cs := by
  induction cs generalizing before with
  | nil => rfl
  | cons c cs ih =>
      have hlater : lowerAfter (c :: (before ++ outer)) cs = lowerAfter (c :: before) cs :=
        ih (c :: before)
      rw [lowerAfter_cons, lowerAfter_cons, hlater, lowerAt, lowerAt,
        facesCased_append houter before]

/-- What follows such a place does not matter either. -/
theorem lowerAfter_append_of_facesCased (hrest : facesCased rest = false)
    (before cs : List Char) :
    lowerAfter before (cs ++ rest) =
      lowerAfter before cs ++ lowerAfter (cs.reverse ++ before) rest := by
  induction cs generalizing before with
  | nil => rfl
  | cons c cs ih =>
      have hhere : lowerAt before c (cs ++ rest) = lowerAt before c cs := by
        rw [lowerAt, lowerAt, facesCased_append hrest cs]
      rw [List.cons_append, lowerAfter_cons, lowerAfter_cons, hhere, ih]
      simp

theorem facesCased_space (rest : List Char) : facesCased (' ' :: rest) = false := by
  have hignored : isCaseIgnorable ' ' = false := by decide +kernel
  have hcased : isCased ' ' = false := by decide
  rw [facesCased, List.dropWhile_cons, hignored]
  exact hcased

theorem lowerAfter_append_space (cs rest : List Char) :
    lowerAfter [] (cs ++ ' ' :: rest) = lowerAfter [] cs ++ ' ' :: lowerAfter [] rest := by
  have hspace : lowerAt (cs.reverse ++ []) ' ' rest = [' '] :=
    lowerAt_eq_self (by decide) (by decide)
  have hrest : lowerAfter ([] ++ ' ' :: (cs.reverse ++ [])) rest = lowerAfter [] rest :=
    lowerAfter_of_facesCased (facesCased_space _) [] rest
  rw [lowerAfter_append_of_facesCased (facesCased_space rest), lowerAfter_cons, hspace]
  rw [List.nil_append] at hrest
  rw [hrest]
  rfl

/-! ## A capital sigma at the end -/

/-- Lower case of some characters between those `before`, in reverse, and those `after`. -/
def lowerBetween (before : List Char) : List Char → List Char → List Char
  | [], _ => []
  | c :: cs, after => lowerAt before c (cs ++ after) ++ lowerBetween (c :: before) cs after

theorem lowerAfter_append_eq (before cs after : List Char) :
    lowerAfter before (cs ++ after) =
      lowerBetween before cs after ++ lowerAfter (cs.reverse ++ before) after := by
  induction cs generalizing before with
  | nil => rfl
  | cons c cs ih =>
      rw [List.cons_append, lowerAfter_cons, ih, lowerBetween]
      simp

theorem lowerBetween_of_facesCased (hrest : facesCased rest = false) (before cs : List Char) :
    lowerBetween before cs rest = lowerAfter before cs := by
  have hcut := lowerAfter_append_of_facesCased hrest before cs
  rw [lowerAfter_append_eq] at hcut
  exact List.append_cancel_right hcut

/-- Whether some characters behind others end in a capital sigma that is final there: nothing
with case follows it, and something with case precedes it. -/
def EndsInSigma (before cs : List Char) : Prop :=
  ∃ front rear, cs = front ++ 'Σ' :: rear ∧ (∀ c ∈ rear, isCaseIgnorable c = true) ∧
    facesCased (front.reverse ++ before) = true

theorem endsInSigma_cons_iff :
    EndsInSigma before (c :: cs) ↔
      (c = 'Σ' ∧ (∀ d ∈ cs, isCaseIgnorable d = true) ∧ facesCased before = true) ∨
        EndsInSigma (c :: before) cs := by
  constructor
  · rintro ⟨front, rear, hsplit, hrear, hfront⟩
    cases front with
    | nil =>
        obtain ⟨rfl, rfl⟩ := List.cons.inj hsplit
        exact .inl ⟨rfl, hrear, hfront⟩
    | cons d front =>
        obtain ⟨rfl, rfl⟩ := List.cons.inj hsplit
        exact .inr ⟨front, rear, rfl, hrear, by simpa using hfront⟩
  · rintro (⟨rfl, hcs, hbefore⟩ | ⟨front, rear, rfl, hrear, hfront⟩)
    · exact ⟨[], cs, rfl, hcs, hbefore⟩
    · exact ⟨c :: front, rear, rfl, hrear, by simpa using hfront⟩

/-- What follows is looked at only if all in front of it is passed over. -/
theorem facesCased_append_eq (cs rest : List Char) :
    facesCased (cs ++ rest) =
      if cs.all isCaseIgnorable then facesCased rest else facesCased cs := by
  induction cs with
  | nil => rfl
  | cons d cs ih =>
      cases hd : isCaseIgnorable d with
      | false => simp [facesCased, hd]
      | true =>
          have hpass : ∀ more, facesCased (d :: more) = facesCased more := by
            intro more
            rw [facesCased, List.dropWhile_cons, if_pos hd, ← facesCased]
          rw [List.cons_append, hpass, hpass, ih, List.all_cons, hd, Bool.true_and]

theorem facesCased_of_ignorable (hcs : cs.all isCaseIgnorable = true) : facesCased cs = false := by
  have hend := facesCased_append_eq cs []
  rw [List.append_nil, if_pos hcs] at hend
  exact hend

/-- A single character is not changed by what follows unless it is a capital sigma that was
final. -/
theorem lowerAt_append_eq_iff (hrest : facesCased rest = true) :
    lowerAt before c (cs ++ rest) = lowerAt before c cs ↔
      ¬ (c = 'Σ' ∧ (∀ d ∈ cs, isCaseIgnorable d = true) ∧ facesCased before = true) := by
  rw [lowerAt, lowerAt, facesCased_append_eq, ← List.all_eq_true]
  by_cases hsigma : c = 'Σ'
  · cases hcs : cs.all isCaseIgnorable with
    | false => simp
    | true =>
        rw [if_pos rfl, hrest, facesCased_of_ignorable hcs]
        cases facesCased before <;> simp [hsigma]
  · simp [hsigma]

theorem length_lowerAt_append (before : List Char) (c : Char) (cs rest : List Char) :
    (lowerAt before c (cs ++ rest)).length = (lowerAt before c cs).length := by
  unfold lowerAt
  split <;> rfl

/-- In front of a character with case the lower case of a word is its own, unless it ends in a
capital sigma. -/
theorem lowerBetween_eq_iff (hrest : facesCased rest = true) :
    lowerBetween before cs rest = lowerAfter before cs ↔ ¬ EndsInSigma before cs := by
  induction cs generalizing before with
  | nil => simp [lowerBetween, lowerAfter, EndsInSigma]
  | cons c cs ih =>
      rw [lowerBetween, lowerAfter_cons, endsInSigma_cons_iff, not_or,
        ← lowerAt_append_eq_iff hrest, ← ih]
      constructor
      · intro hsame
        exact List.append_inj hsame (length_lowerAt_append before c cs rest)
      · rintro ⟨hhere, hlater⟩
        rw [hhere, hlater]

/-! ## Signs and small letters -/

/-- Whether a character of ASCII is its own lower case. -/
def IsLowered (c : Char) : Prop :=
  c.toNat < 0x80 ∧ (c.toNat < 0x41 ∨ 0x5A < c.toNat)

theorem lowerAfter_eq_self (hcs : ∀ c ∈ cs, IsLowered c) (before : List Char) :
    lowerAfter before cs = cs := by
  induction cs generalizing before with
  | nil => rfl
  | cons c cs ih =>
      obtain ⟨hascii, hcapital⟩ := hcs c List.mem_cons_self
      rw [lowerAfter_cons, lowerAt_eq_self hascii hcapital,
        ih fun d hd => hcs d (List.mem_cons_of_mem c hd)]
      rfl

theorem lower_eq_self {text : String} (htext : ∀ c ∈ text.toList, IsLowered c) :
    lower text = text := by
  rw [lower, lowerAfter_eq_self htext, String.ofList_toList]

/-- What follows a word is kept if it is in lower case and shows no character with case. -/
theorem lower_append {suffix : String} (hsuffix : ∀ c ∈ suffix.toList, IsLowered c)
    (hcased : facesCased suffix.toList = false) (word : String) :
    lower (word ++ suffix) = lower word ++ suffix := by
  rw [lower, String.toList_append, lowerAfter_append_of_facesCased hcased,
    lowerAfter_eq_self hsuffix, ← String.toList_inj]
  simp [lower]

/-! ## Words -/

/-- The code points of blank characters that are not in front of `a`. -/
def lateBlanks : List Nat :=
  [0x85, 0xA0, 0x1680, 0x2028, 0x2029, 0x202F, 0x205F, 0x3000] ++ List.range' 0x2000 11

theorem mem_lateBlanks (hblank : isBlank c = true) (hlate : 0x61 ≤ c.toNat) :
    c.toNat ∈ lateBlanks := by
  simp only [isBlank, Bool.or_eq_true, Bool.and_eq_true, decide_eq_true_eq, beq_iff_eq] at hblank
  simp only [lateBlanks, List.mem_append, List.mem_cons, List.not_mem_nil, or_false,
    List.mem_range'_1]
  omega

/-- Whether a run leads to none of some characters. -/
def CaseRun.avoids (codes : List Nat) (run : CaseRun) : Bool :=
  codes.all fun n => (n : Int) < run.first + run.shift || run.last + run.shift < n

theorem CaseRun.notMem_of_lookup {runs : List CaseRun} {codes : List Nat}
    (havoids : runs.all (·.avoids codes) = true) (hzero : 0 ∉ codes) {n m : Nat}
    (hfound : lookup runs n = some m) : m ∉ codes := by
  intro hmem
  obtain ⟨run, hrun, hfind⟩ := List.exists_of_findSome?_eq_some hfound
  have havoid := List.all_eq_true.mp (List.all_eq_true.mp havoids run hrun) m hmem
  rw [Bool.or_eq_true, decide_eq_true_eq, decide_eq_true_eq] at havoid
  obtain ⟨⟨hfirst, hlast, -⟩, hm⟩ := CaseRun.find?_eq_some_iff.mp hfind
  have hpositive : m ≠ 0 := fun hm => hzero (hm ▸ hmem)
  omega

/-- No run of the table leads to a blank character. -/
theorem lowerRuns_avoidBlanks : lowerRuns.all (·.avoids lateBlanks) = true := by
  decide

theorem toNat_toLower_lt (hascii : c.toNat < 0x80) : c.toLower.toNat < 0x80 := by
  rw [toNat_toLower]
  split <;> omega

/-- Lower case makes no blanks. -/
theorem eq_of_mem_lowerChar_of_isBlank (hmem : x ∈ lowerChar c)
    (hblank : isBlank x = true) : x = c := by
  by_cases hsmall : x.toNat < 0x61
  · exact eq_of_mem_lowerChar hmem hsmall
  · have hlate := mem_lateBlanks hblank (Nat.le_of_not_lt hsmall)
    rcases mem_lowerChar_cases hmem with ⟨hascii, rfl⟩ | (rfl | rfl) | hfound | ⟨-, hsame⟩
    · have hhigh : ∀ n ∈ lateBlanks, 0x80 ≤ n := by decide
      exact absurd (hhigh _ hlate) (Nat.not_le.mpr (toNat_toLower_lt hascii))
    · exact absurd hblank (by decide)
    · exact absurd hblank (by decide)
    · exact absurd hlate (CaseRun.notMem_of_lookup lowerRuns_avoidBlanks (by decide) hfound)
    · exact hsame

theorem mem_of_mem_lowerAfter_of_isBlank (hmem : x ∈ lowerAfter before cs)
    (hblank : isBlank x = true) : x ∈ cs := by
  induction cs generalizing before with
  | nil => simp [lowerAfter] at hmem
  | cons c cs ih =>
      rw [lowerAfter_cons, List.mem_append] at hmem
      rcases hmem with hhere | hlater
      · rcases mem_lowerAt_cases hhere with (rfl | rfl) | hhere
        · exact absurd hblank (by decide)
        · exact absurd hblank (by decide)
        · exact List.mem_cons.mpr (.inl (eq_of_mem_lowerChar_of_isBlank hhere hblank))
      · exact List.mem_cons_of_mem c (ih hlater)

/-- A word in lower case is a word. -/
theorem IsWord.lower {word : String} (hword : IsWord word) : IsWord (lower word) := by
  obtain ⟨hnonempty, hsolid⟩ := hword
  rw [Text.lower]
  constructor
  · rw [String.toList_ofList]
    cases hcs : word.toList with
    | nil => exact absurd hcs hnonempty
    | cons c cs => simp [lowerAfter_cons, lowerAt_ne_nil]
  · intro x hx
    rw [String.toList_ofList] at hx
    cases hblank : isBlank x with
    | false => rfl
    | true =>
        have hmem := mem_of_mem_lowerAfter_of_isBlank hx hblank
        rw [hsolid x hmem] at hblank
        exact absurd hblank (by decide)

/-- Joined words in lower case are the words in lower case, joined. -/
theorem lower_unwords (ws : List String) : lower (unwords ws) = unwords (ws.map lower) := by
  induction ws with
  | nil => rfl
  | cons first ws ih =>
      cases ws with
      | nil => simp [unwords]
      | cons second more =>
          have hrest : lowerAfter [] (unwords (second :: more)).toList =
              (unwords ((second :: more).map lower)).toList := by
            rw [← ih, lower, String.toList_ofList]
          have hfirst : lowerAfter [] first.toList = (lower first).toList := by
            rw [lower, String.toList_ofList]
          rw [← String.toList_inj, lower, String.toList_ofList, toList_unwords,
            lowerAfter_append_space, hrest, hfirst]
          exact (toList_unwords ..).symm

theorem words_lower_unwords {ws : List String} (hwords : ∀ word ∈ ws, IsWord word) :
    words (lower (unwords ws)) = ws.map lower := by
  rw [lower_unwords, words_unwords]
  intro word hword
  obtain ⟨spelled, hspelled, rfl⟩ := List.mem_map.mp hword
  exact (hwords spelled hspelled).lower

end Phraseology.Text
