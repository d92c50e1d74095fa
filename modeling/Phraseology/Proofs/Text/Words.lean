import Phraseology.Text.Blank

/-!
# Cutting joined words

Words that are joined by spaces are cut into the same words again, provided that
none of them is empty or holds a blank character (`words_unwords`).  So nothing is
lost when words are joined, and two lists of words that give the same text are the
same list (`eq_of_unwords_eq`).
-/

namespace Phraseology.Text

/-- Whether a text is a single word. -/
structure IsWord (text : String) : Prop where
  nonempty : text.toList ≠ []
  solid : ∀ c ∈ text.toList, isBlank c = false

/-- Whether a text has no blank characters. -/
def IsSolid (text : String) : Prop :=
  ∀ c ∈ text.toList, isBlank c = false

instance (text : String) : Decidable (IsSolid text) :=
  decidable_of_iff (text.toList.all (!isBlank ·) = true) (by simp [IsSolid])

theorem isWord_iff {text : String} : IsWord text ↔ text ≠ "" ∧ IsSolid text := by
  have hempty : text.toList = [] ↔ text = "" := String.toList_eq_nil_iff
  constructor
  · exact fun hword => ⟨fun htext => hword.nonempty (hempty.mpr htext), hword.solid⟩
  · exact fun ⟨hnonempty, hsolid⟩ => ⟨fun hchars => hnonempty (hempty.mp hchars), hsolid⟩

instance (text : String) : Decidable (IsWord text) :=
  decidable_of_iff' _ isWord_iff

theorem IsSolid.append {text more : String} (htext : IsSolid text) (hmore : IsSolid more) :
    IsSolid (text ++ more) := by
  rw [IsSolid, String.toList_append, List.forall_mem_append]
  exact ⟨htext, hmore⟩

/-- A word with something behind it that has no blank characters is a word. -/
theorem IsWord.append {text more : String} (hword : IsWord text) (hmore : IsSolid more) :
    IsWord (text ++ more) := by
  refine ⟨?_, IsSolid.append hword.solid hmore⟩
  rw [String.toList_append]
  exact List.append_ne_nil_of_left_ne_nil hword.nonempty _

/-- A word with something in front of it that has no blank characters is a word. -/
theorem IsWord.prepend {text front : String} (hword : IsWord text) (hfront : IsSolid front) :
    IsWord (front ++ text) := by
  refine ⟨?_, hfront.append hword.solid⟩
  rw [String.toList_append]
  exact List.append_ne_nil_of_right_ne_nil _ hword.nonempty

theorem solid_of_all {text : String} (hall : text.toList.all (!isBlank ·) = true) :
    ∀ c ∈ text.toList, isBlank c = false := by
  intro c hc
  simpa using List.all_eq_true.mp hall c hc

/-! ## Cutting behind a separator -/

section

variable {α : Type} {separates : α → Bool} {cs rest : List α} {s : α}

theorem pieces_append_cons (hseparates : separates s = true) (cs rest : List α) :
    pieces separates (cs ++ s :: rest) = pieces separates cs ++ pieces separates rest := by
  induction cs with
  | nil => simp [pieces_cons, hseparates]
  | cons c cs ih =>
      rw [List.cons_append, pieces_cons, pieces_cons, ih]
      split
      · rfl
      · cases hfound : pieces separates cs with
        | nil => exact absurd hfound (pieces_ne_nil separates cs)
        | cons piece more => rfl

theorem pieces_of_none (hnone : ∀ c ∈ cs, separates c = false) : pieces separates cs = [cs] := by
  induction cs with
  | nil => rfl
  | cons c cs ih =>
      rw [pieces_cons, hnone c (List.mem_cons_self ..),
        ih fun d hd => hnone d (List.mem_cons_of_mem _ hd)]
      rfl

end

/-! ## Words -/

variable {cs rest : List Char}

theorem wordsOf_append_blank {c : Char} (hblank : isBlank c = true) (cs rest : List Char) :
    wordsOf (cs ++ c :: rest) = wordsOf cs ++ wordsOf rest := by
  unfold wordsOf
  rw [pieces_append_cons hblank, List.filter_append]

theorem wordsOf_append_space (cs rest : List Char) :
    wordsOf (cs ++ ' ' :: rest) = wordsOf cs ++ wordsOf rest :=
  wordsOf_append_blank (by decide) cs rest

@[simp] theorem wordsOf_nil : wordsOf [] = [] := rfl

theorem wordsOf_blank {c : Char} (hblank : isBlank c = true) (rest : List Char) :
    wordsOf (c :: rest) = wordsOf rest :=
  wordsOf_append_blank hblank [] rest

@[simp] theorem wordsOf_space (rest : List Char) : wordsOf (' ' :: rest) = wordsOf rest :=
  wordsOf_append_space [] rest

theorem wordsOf_of_solid (hnonempty : cs ≠ []) (hsolid : ∀ c ∈ cs, isBlank c = false) :
    wordsOf cs = [cs] := by
  unfold wordsOf
  rw [pieces_of_none hsolid]
  cases cs with
  | nil => exact absurd rfl hnonempty
  | cons c cs => rfl

/-- A text has no words exactly if all of it is blank. -/
theorem wordsOf_eq_nil_iff : wordsOf cs = [] ↔ ∀ c ∈ cs, isBlank c = true := by
  induction cs with
  | nil => simp
  | cons c cs ih =>
      cases hblank : isBlank c with
      | true => rw [wordsOf_blank hblank, ih, List.forall_mem_cons, hblank, eq_self, true_and]
      | false =>
          have hfirst : wordsOf (c :: cs) ≠ [] := by
            rw [wordsOf, pieces_cons, hblank]
            cases pieces isBlank cs <;> simp [consToFirst]
          exact iff_of_false hfirst fun hall => by simp [hblank] at hall

theorem words_eq_nil_iff {text : String} : words text = [] ↔ isBlankText text = true := by
  rw [words, List.map_eq_nil_iff, wordsOf_eq_nil_iff, isBlankText, List.all_eq_true]

/-- What a text is cut into are words. -/
theorem isWord_of_mem_words {text word : String} (hword : word ∈ words text) : IsWord word := by
  obtain ⟨cs, hcs, rfl⟩ := List.mem_map.mp hword
  constructor
  · rw [String.toList_ofList]
    exact ne_nil_of_mem_wordsOf hcs
  · rw [String.toList_ofList]
    exact not_isBlank_of_mem_wordsOf hcs

/-! ## Joined words -/

theorem toList_unwords (first second : String) (more : List String) :
    (unwords (first :: second :: more)).toList =
      first.toList ++ ' ' :: (unwords (second :: more)).toList := by
  simp [unwords, String.toList_intercalate]

/-- What is joined behind words leaves their text as it is. -/
theorem unwords_prefix (words more : List String) :
    (unwords words).toList <+: (unwords (words ++ more)).toList := by
  induction words with
  | nil => exact List.nil_prefix
  | cons first words ih =>
      cases words with
      | nil =>
          cases more with
          | nil => exact List.prefix_rfl
          | cons second more =>
              rw [List.singleton_append, toList_unwords]
              simp [unwords]
      | cons second words =>
          rw [List.cons_append, List.cons_append, toList_unwords, toList_unwords]
          exact (List.prefix_append_right_inj first.toList).mpr
            ((List.prefix_cons_inj ' ').mpr ih)

theorem wordsOf_unwords {words : List String} (hwords : ∀ word ∈ words, IsWord word) :
    wordsOf (unwords words).toList = words.map (·.toList) := by
  induction words with
  | nil => rfl
  | cons first words ih =>
      obtain ⟨hnonempty, hsolid⟩ := hwords first (List.mem_cons_self ..)
      cases words with
      | nil => simpa [unwords] using wordsOf_of_solid hnonempty hsolid
      | cons second more =>
          rw [toList_unwords, wordsOf_append_space, wordsOf_of_solid hnonempty hsolid,
            ih fun word hword => hwords word (List.mem_cons_of_mem _ hword)]
          rfl

/-- Joined words are cut into the same words again. -/
theorem words_unwords {ws : List String} (hwords : ∀ word ∈ ws, IsWord word) :
    words (unwords ws) = ws := by
  have hback : (String.ofList ∘ fun word => word.toList) = id :=
    funext fun _ => String.ofList_toList
  rw [words, wordsOf_unwords hwords, List.map_map, hback, List.map_id]

/-- Words that give the same text are the same. -/
theorem eq_of_unwords_eq {first second : List String} (hfirst : ∀ word ∈ first, IsWord word)
    (hsecond : ∀ word ∈ second, IsWord word) (htext : unwords first = unwords second) :
    first = second := by
  calc first = words (unwords first) := (words_unwords hfirst).symm
    _ = words (unwords second) := by rw [htext]
    _ = second := words_unwords hsecond

/-- Joined words are more than blank characters. -/
theorem isBlankText_unwords {word : String} {ws : List String} (hword : IsWord word) :
    isBlankText (unwords (word :: ws)) = false := by
  obtain ⟨hnonempty, hsolid⟩ := hword
  cases hcs : word.toList with
  | nil => exact absurd hcs hnonempty
  | cons c cs =>
      have hc : isBlank c = false := hsolid c (by simp [hcs])
      cases ws with
      | nil => simp [isBlankText, unwords, hcs, hc]
      | cons second more =>
          rw [isBlankText, toList_unwords, hcs]
          simp [hc]

end Phraseology.Text
