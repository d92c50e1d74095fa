import Phraseology.Proofs.Text.Words

/-!
# The order of joined words

Texts are ordered by their characters, and lists of words by their words.  The space that joins
words stands in front of all characters of a word, so the end of a word is in front of anything
that a longer word has there.  Joined words are therefore ordered like the lists of the words
(`unwords_lt_unwords_iff`), and the comparison of lists is this order
(`compare_words_eq_lt_iff`).
-/

namespace Phraseology.Text

variable {front other rest others : List Char} {first second : String} {words more : List String}

/-- Whether a text is not empty and the space stands in front of all its characters. -/
structure IsBehindSpace (text : String) : Prop where
  nonempty : text.toList ≠ []
  behind : ∀ c ∈ text.toList, ' ' < c

/-- Whether some characters are none, or start with a space. -/
def EndsWord (rest : List Char) : Prop :=
  rest = [] ∨ ∃ more, rest = ' ' :: more

theorem EndsWord.lt_cons (hrest : EndsWord rest) {c : Char} (hc : ' ' < c) (cs : List Char) :
    rest < c :: cs := by
  rcases hrest with rfl | ⟨more, rfl⟩
  · exact List.nil_lt_cons c cs
  · exact List.cons_lt_cons_iff.mpr (.inl hc)

theorem EndsWord.not_cons_lt (hrest : EndsWord rest) {c : Char} (hc : ' ' < c) (cs : List Char) :
    ¬ c :: cs < rest := by
  intro hlt
  exact absurd (List.lt_trans hlt (hrest.lt_cons hc cs)) (List.lt_irrefl (c :: cs))

/-- Where words end, what stands behind them only counts if they are the same. -/
theorem append_lt_append_iff (hfront : ∀ c ∈ front, ' ' < c) (hother : ∀ c ∈ other, ' ' < c)
    (hrest : EndsWord rest) (hothers : EndsWord others) :
    front ++ rest < other ++ others ↔ front < other ∨ front = other ∧ rest < others := by
  induction front generalizing other with
  | nil =>
      cases other with
      | nil => simp
      | cons d other =>
          have hd := hother d List.mem_cons_self
          exact iff_of_true (hrest.lt_cons hd _) (.inl (List.nil_lt_cons d other))
  | cons c front ih =>
      obtain ⟨hc, hfront⟩ := List.forall_mem_cons.mp hfront
      cases other with
      | nil => exact iff_of_false (hothers.not_cons_lt hc _) (by simp)
      | cons d other =>
          have hrec := ih hfront (List.forall_mem_cons.mp hother).2
          rw [List.cons_append, List.cons_append, List.cons_lt_cons_iff, hrec,
            List.cons_lt_cons_iff, List.cons.injEq, and_or_left, or_assoc, and_assoc]

/-! ## Joined words -/

/-- What stands behind the first of joined words. -/
def joinedBehind (words : List String) : List Char :=
  words.flatMap fun word => ' ' :: word.toList

theorem toList_unwords_cons (first : String) (words : List String) :
    (unwords (first :: words)).toList = first.toList ++ joinedBehind words := by
  induction words generalizing first with
  | nil => simp [unwords, joinedBehind]
  | cons second words ih => simp [toList_unwords, ih, joinedBehind]

theorem endsWord_joinedBehind (words : List String) : EndsWord (joinedBehind words) := by
  cases words with
  | nil => exact .inl rfl
  | cons first words => exact .inr ⟨_, List.flatMap_cons ..⟩

theorem joinedBehind_lt_iff (hwords : ∀ word ∈ words, IsBehindSpace word)
    (hmore : ∀ word ∈ more, IsBehindSpace word) :
    joinedBehind words < joinedBehind more ↔ words < more := by
  induction words generalizing more with
  | nil =>
      cases more with
      | nil => simp [joinedBehind]
      | cons second more => exact iff_of_true (List.nil_lt_cons ..) (List.nil_lt_cons ..)
  | cons first words ih =>
      obtain ⟨hfirst, hwords⟩ := List.forall_mem_cons.mp hwords
      cases more with
      | nil => exact iff_of_false (by simp [joinedBehind]) (by simp)
      | cons second more =>
          obtain ⟨hsecond, hmore⟩ := List.forall_mem_cons.mp hmore
          have hcons : ∀ (word : String) (others : List String),
              joinedBehind (word :: others) = ' ' :: (word.toList ++ joinedBehind others) :=
            fun word others => List.flatMap_cons ..
          rw [hcons, hcons, List.cons_lt_cons_iff,
            append_lt_append_iff hfirst.behind hsecond.behind (endsWord_joinedBehind words)
              (endsWord_joinedBehind more), ih hwords hmore, List.cons_lt_cons_iff,
            String.lt_iff, String.toList_inj]
          simp

/-- Joined words are ordered like the lists of the words. -/
theorem unwords_lt_unwords_iff (hwords : ∀ word ∈ words, IsBehindSpace word)
    (hmore : ∀ word ∈ more, IsBehindSpace word) : unwords words < unwords more ↔ words < more := by
  rw [String.lt_iff]
  cases words with
  | nil =>
      cases more with
      | nil => simp
      | cons second more =>
          have hsecond := (hmore second List.mem_cons_self).nonempty
          rw [toList_unwords_cons]
          refine iff_of_true ?_ (List.nil_lt_cons ..)
          obtain ⟨c, cs, hcs⟩ := List.exists_cons_of_ne_nil hsecond
          rw [hcs]
          exact List.nil_lt_cons ..
  | cons first words =>
      cases more with
      | nil => exact iff_of_false (by simp [unwords]) (by simp)
      | cons second more =>
          obtain ⟨hfirst, hwords⟩ := List.forall_mem_cons.mp hwords
          obtain ⟨hsecond, hmore⟩ := List.forall_mem_cons.mp hmore
          rw [toList_unwords_cons, toList_unwords_cons,
            append_lt_append_iff hfirst.behind hsecond.behind (endsWord_joinedBehind words)
              (endsWord_joinedBehind more), joinedBehind_lt_iff hwords hmore,
            List.cons_lt_cons_iff, String.lt_iff, String.toList_inj]

/-! ## The comparison of lists -/

theorem compare_eq_lt_iff : compare first second = .lt ↔ first < second := by
  change compareOfLessAndEq first second = .lt ↔ first < second
  unfold compareOfLessAndEq
  split
  · simp [*]
  · split <;> simp [*]

theorem compare_words_eq_lt_iff : compare words more = .lt ↔ words < more := by
  induction words generalizing more with
  | nil => cases more <;> simp
  | cons first words ih =>
      cases more with
      | nil => simp
      | cons second more =>
          rw [List.compare_eq_compareLex, List.compareLex_cons_cons, ← List.compare_eq_compareLex,
            Ordering.then_eq_lt, compare_eq_lt_iff, Std.LawfulEqCmp.compare_eq_iff_eq, ih,
            List.cons_lt_cons_iff]

end Phraseology.Text
