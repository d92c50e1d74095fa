import Phraseology.Proofs.Frame.Cuts
import Phraseology.Proofs.Frame.Reading
import Phraseology.Proofs.Frame.Repair

/-!
# Words of a text

The words that a text is read as have no blank characters in them.  Where a text starts with a
confidence, nothing is left of the first of them when that is cut off.  Of all others something
is left (`Token.isWord_of_read`), since a word that starts with a colon is joined to the one in
front of it (`joinColons_joinWords_eq`).  A repair adds tags only
(`Repair.mem_or_isWord_of_mem_runFrom`).

Hence all tokens of a frame behind the first hold a word (`Filled`).  This is so in each span
that is cut out (`Filled.cutSpan`), and what stands between the ends of a span are words
(`Filled.isWord`).
-/

namespace Phraseology

/-! ## Words that start with a colon -/

namespace Frame

variable {text word raw : String} {ws : List (List Char)} {first : List Char}

/-- A word in front of others, joined to the next one if this starts with a colon. -/
def attachColon (word : List Char) : List (List Char) → List (List Char)
  | (':' :: cs) :: more => (word ++ ':' :: cs) :: more
  | more => word :: more

/-- Words in which each that starts with a colon is joined to the one in front of it. -/
def mergeColons (ws : List (List Char)) : List (List Char) :=
  ws.foldr attachColon []

theorem mergeColons_cons (first : List Char) (ws : List (List Char)) :
    mergeColons (first :: ws) = attachColon first (mergeColons ws) :=
  rfl

theorem attachColon_cases (word : List Char) (more : List (List Char)) :
    (∃ cs rest, more = (':' :: cs) :: rest ∧
        attachColon word more = (word ++ ':' :: cs) :: rest) ∨
      (∀ next ∈ more.head?, next.head? ≠ some ':') ∧ attachColon word more = word :: more := by
  unfold attachColon
  split
  · next cs rest => exact .inl ⟨cs, rest, rfl, rfl⟩
  · next hother =>
      refine .inr ⟨fun next hnext hcolon => ?_, rfl⟩
      obtain ⟨cs, rfl⟩ := List.head?_eq_some_iff.mp hcolon
      obtain ⟨rest, hmore⟩ := List.head?_eq_some_iff.mp hnext
      exact hother cs rest hmore

/-- The first word stays the first. -/
theorem exists_mergeColons_cons (first : List Char) (ws : List (List Char)) :
    ∃ behind more, mergeColons (first :: ws) = (first ++ behind) :: more := by
  rw [mergeColons_cons]
  rcases attachColon_cases first (mergeColons ws) with ⟨cs, rest, -, hmerged⟩ | ⟨-, hmerged⟩
  · exact ⟨':' :: cs, rest, hmerged⟩
  · exact ⟨[], mergeColons ws, by rw [hmerged, List.append_nil]⟩

theorem joinWords_append_cons (front word : List Char) (more : List (List Char)) :
    joinWords ((front ++ word) :: more) = front ++ joinWords (word :: more) := by
  cases more with
  | nil => rw [joinWords_singleton, joinWords_singleton]
  | cons next more => rw [joinWords_cons_cons, joinWords_cons_cons, List.append_assoc]

/-- Joined words without the spaces in front of colons. -/
theorem joinColons_joinWords_eq (hws : ∀ word ∈ ws, word ≠ [] ∧ ' ' ∉ word) :
    joinColons (joinWords ws) = joinWords (mergeColons ws) := by
  induction ws with
  | nil => rfl
  | cons first ws ih =>
      obtain ⟨⟨-, hfirst⟩, hws⟩ := List.forall_mem_cons.mp hws
      have hrest := ih hws
      cases ws with
      | nil =>
          have hsingle := joinColons_append hfirst []
          rw [List.append_nil, joinColons, List.append_nil] at hsingle
          rw [joinWords_singleton, hsingle]
          exact (joinWords_singleton first).symm
      | cons second more =>
          have hsecond := (hws second List.mem_cons_self).1
          obtain ⟨behind, others, hmerged⟩ := exists_mergeColons_cons second more
          rw [joinWords_cons_cons, joinColons_append hfirst, mergeColons_cons]
          obtain ⟨c, cs, rfl⟩ := List.exists_cons_of_ne_nil hsecond
          have hhead : (joinWords ((c :: cs) :: more)).head? = some c :=
            head?_joinWords (List.cons_ne_nil c cs) more
          obtain ⟨tail, htail⟩ := List.head?_eq_some_iff.mp hhead
          -- the space in front of the second word goes exactly if that starts with a colon
          by_cases hcolon : c = ':'
          · subst hcolon
            have hspace : joinColons (' ' :: ':' :: tail) = joinColons (':' :: tail) := by
              rw [joinColons, joinColons_cons (.inl (by decide))]
            rw [htail] at hrest ⊢
            rw [hspace, hrest, hmerged, List.cons_append, attachColon, joinWords_append_cons]
          · have hnone : (joinWords ((c :: cs) :: more)).head? ≠ some ':' := by
              rw [hhead]
              simpa using hcolon
            rw [joinColons_cons (.inr hnone), hrest, hmerged, List.cons_append]
            rcases attachColon_cases first ((c :: (cs ++ behind)) :: others) with
              ⟨cs, rest, hstart, -⟩ | ⟨-, hkept⟩
            · exact absurd (List.cons.inj (List.cons.inj hstart).1).1 hcolon
            · rw [hkept, joinWords_cons_cons]

theorem mergeColons_spec
    (hws : ∀ word ∈ ws, word ≠ [] ∧ ∀ c ∈ word, Text.isBlank c = false) :
    (∀ word ∈ mergeColons ws, word ≠ [] ∧ ∀ c ∈ word, Text.isBlank c = false) ∧
      ∀ word ∈ (mergeColons ws).tail, word.head? ≠ some ':' := by
  induction ws with
  | nil => exact ⟨by simp [mergeColons], by simp [mergeColons]⟩
  | cons first ws ih =>
      obtain ⟨hfirst, hws⟩ := List.forall_mem_cons.mp hws
      obtain ⟨hwords, hcolons⟩ := ih hws
      rw [mergeColons_cons]
      rcases attachColon_cases first (mergeColons ws) with
        ⟨cs, rest, hmerged, hattached⟩ | ⟨hnone, hattached⟩
      · rw [hmerged] at hwords hcolons
        obtain ⟨hjoined, hrest⟩ := List.forall_mem_cons.mp hwords
        rw [hattached]
        refine ⟨List.forall_mem_cons.mpr ⟨⟨by simp, ?_⟩, hrest⟩, hcolons⟩
        exact List.forall_mem_append.mpr ⟨hfirst.2, hjoined.2⟩
      · rw [hattached]
        refine ⟨List.forall_mem_cons.mpr ⟨hfirst, hwords⟩, fun word hword => ?_⟩
        rw [List.tail_cons] at hword
        cases hmerged : mergeColons ws with
        | nil =>
            rw [hmerged] at hword
            cases hword
        | cons next more =>
            rw [hmerged] at hword hnone hcolons
            rcases List.mem_cons.mp hword with rfl | hlater
            · exact hnone word rfl
            · exact hcolons word hlater

/-! ## The words that are read -/

theorem head?_lower_ne_colon (hword : Text.IsWord word) (hcolon : word.toList.head? ≠ some ':') :
    (Text.lower word).toList.head? ≠ some ':' := by
  obtain ⟨c, cs, hcs⟩ := List.exists_cons_of_ne_nil hword.nonempty
  obtain ⟨x, xs, hxs⟩ := List.exists_cons_of_ne_nil (Text.lowerAt_ne_nil [] c cs)
  have hx : x ∈ Text.lowerAt [] c cs := by
    rw [hxs]
    exact List.mem_cons_self
  rw [Text.lower, String.toList_ofList, hcs, Text.lowerAfter_cons, hxs]
  rw [hcs] at hcolon
  rintro ⟨⟩
  exact hcolon (congrArg some (Text.eq_of_mem_lowerAt hx (by decide)).symm)

/-- The words of a text are words in lower case.  None behind the first starts with a colon. -/
theorem isWord_of_mem_normalWords (hword : word ∈ normalWords text) : Text.IsWord word :=
  Text.isWord_of_mem_words hword

theorem head?_ne_colon_of_mem_tail (hword : word ∈ (normalWords text).tail) :
    word.toList.head? ≠ some ':' := by
  unfold normalWords at hword
  simp only at hword
  generalize hparts : Text.wordsOf (joinWords
    ((Text.wordsOf (spaceTags text.toList)).map spaceConfidence)) = ws at hword
  have hws : ∀ word ∈ ws, word ≠ [] ∧ ∀ c ∈ word, Text.isBlank c = false := by
    rw [← hparts]
    exact fun word hword =>
      ⟨Text.ne_nil_of_mem_wordsOf hword, Text.not_isBlank_of_mem_wordsOf hword⟩
  obtain ⟨hmerged, hcolons⟩ := mergeColons_spec hws
  have hspaces : ∀ word ∈ ws, word ≠ [] ∧ ' ' ∉ word := fun word hword =>
    ⟨(hws word hword).1, fun hspace => absurd ((hws word hword).2 ' ' hspace) (by decide)⟩
  have hjoined : String.ofList (joinWords (mergeColons ws)) =
      Text.unwords ((mergeColons ws).map String.ofList) := by
    rw [← String.toList_inj, String.toList_ofList, Text.unwords, String.toList_intercalate]
    simp [joinWords, Function.comp_def]
  have hwords : ∀ word ∈ (mergeColons ws).map String.ofList, Text.IsWord word := by
    intro word hword
    obtain ⟨cs, hcs, rfl⟩ := List.mem_map.mp hword
    obtain ⟨hnonempty, hsolid⟩ := hmerged cs hcs
    exact ⟨by rwa [String.toList_ofList], by rwa [String.toList_ofList]⟩
  rw [joinColons_joinWords_eq hspaces, hjoined, Text.words_lower_unwords hwords, List.map_map,
    ← List.map_tail] at hword
  obtain ⟨cs, hcs, rfl⟩ := List.mem_map.mp hword
  refine head?_lower_ne_colon (hwords _ (List.mem_map_of_mem (List.mem_of_mem_tail hcs))) ?_
  rw [String.toList_ofList]
  exact hcolons cs hcs

end Frame

/-! ## Tokens -/

namespace Token

variable {raw : String} {raws : List String} {token : Token} {tokens : List Token}

/-- A word that does not start with a colon leaves a word when its confidence is cut off. -/
theorem isWord_of_read (hread : Token.read raw = .ok token) (hraw : Text.IsWord raw)
    (hcolon : raw.toList.head? ≠ some ':') : Text.IsWord token.word := by
  unfold Token.read at hread
  split at hread
  · obtain rfl := Except.ok.inj hread
    exact hraw
  · next word value hsplit =>
      split at hread
      · obtain rfl := Except.ok.inj hread
        have hchars := Tag.eq_append_of_splitAtLastColon? hsplit
        constructor
        · intro hempty
          rw [hchars, hempty] at hcolon
          exact hcolon rfl
        · intro c hc
          refine hraw.solid c ?_
          rw [hchars]
          exact List.mem_append_left _ hc
      · cases hread

theorem isWord_of_readAll (hread : Token.readAll raws = .ok tokens)
    (hraws : ∀ raw ∈ raws, Text.IsWord raw ∧ raw.toList.head? ≠ some ':') :
    ∀ token ∈ tokens, Text.IsWord token.word := by
  induction raws generalizing tokens with
  | nil =>
      obtain rfl := Except.ok.inj hread
      simp
  | cons raw raws ih =>
      obtain ⟨⟨hraw, hcolon⟩, hraws⟩ := List.forall_mem_cons.mp hraws
      unfold Token.readAll at hread
      split at hread
      · cases hread
      · next token htoken =>
          split at hread
          · cases hread
          · next more hmore =>
              obtain rfl := Except.ok.inj hread
              exact List.forall_mem_cons.mpr
                ⟨isWord_of_read htoken hraw hcolon, ih hmore hraws⟩

end Token

/-! ## Repairs -/

namespace Repair

variable {stack : List String} {token added : Token} {tokens : List Token}

theorem isSolid_of_openAnyTagName? {opener name : String}
    (hopens : Tag.openAnyTagName? opener = some name) : Text.IsSolid name := by
  obtain ⟨-, -, hletters⟩ := Tag.openAnyTagName?_eq_some hopens
  exact fun c hc => Tag.isBlank_of_isInside (Tag.isInside_of_isAttributedNameChar (hletters c hc))

theorem isWord_of_mem_closersOf (hadded : added ∈ closersOf stack) : Text.IsWord added.word := by
  obtain ⟨opener, -, hcloser⟩ := List.mem_flatMap.mp hadded
  unfold closerOf at hcloser
  split at hcloser
  · next name hname =>
      obtain rfl := List.mem_singleton.mp hcloser
      exact Tag.isWord_closingTag (isSolid_of_openAnyTagName? hname)
  · cases hcloser

/-- A step adds tags, which are words. -/
theorem eq_or_isWord_of_mem_step (hadded : added ∈ (step stack token).1) :
    added = token ∨ Text.IsWord added.word := by
  have hclosers : ∀ inside : List String, added ∈ closersOf inside ++ [token] →
      added = token ∨ Text.IsWord added.word := fun inside hadded =>
    (List.mem_append.mp hadded).symm.imp List.mem_singleton.mp isWord_of_mem_closersOf
  by_cases hopens : (Tag.openAnyTagName? token.word).isSome
  · rw [step_of_opening hopens] at hadded
    exact hclosers _ hadded
  by_cases hcloses : (Tag.closeTagName? token.word).isSome
  · rcases step_closing_cases hcloses stack with
      ⟨inside, _, _, -, -, hstep⟩ | ⟨base, hbase, -, hstep⟩
    · rw [hstep] at hadded
      exact hclosers inside hadded
    · rw [hstep] at hadded
      rcases List.mem_cons.mp hadded with rfl | hsame
      · exact .inr (Tag.Plain.opening hbase).isWord
      · exact .inl (List.mem_singleton.mp hsame)
  · rw [step_of_word (Option.not_isSome_iff_eq_none.mp hopens) hcloses] at hadded
    exact .inl (List.mem_singleton.mp hadded)

theorem mem_or_isWord_of_mem_runFrom (hadded : added ∈ (runFrom stack tokens).1) :
    added ∈ tokens ∨ Text.IsWord added.word := by
  induction tokens generalizing stack with
  | nil => exact .inr (isWord_of_mem_closersOf hadded)
  | cons token tokens ih =>
      rcases List.mem_append.mp hadded with hstep | hrest
      · exact (eq_or_isWord_of_mem_step hstep).imp_left fun hsame => List.mem_cons.mpr (.inl hsame)
      · exact (ih hrest).imp_left (List.mem_cons_of_mem token)

/-- What opens or closes a tag is a word. -/
theorem isWord_of_tag {word : String} (htag : (Tag.openAnyTagName? word).isSome ∨
    (Tag.closeTagName? word).isSome) : Text.IsWord word := by
  rcases htag with hopens | hcloses
  · obtain ⟨name, hname⟩ := Option.isSome_iff_exists.mp hopens
    have hstart : Text.IsWord "<" := by decide
    rw [(Tag.openAnyTagName?_eq_some hname).1, Tag.opener]
    exact (hstart.append (isSolid_of_openAnyTagName? hname)).append (by decide)
  · obtain ⟨name, hname, hword⟩ := Tag.exists_isName_of_closeTagName? hcloses
    rw [hword]
    exact (Tag.Plain.closing hname).isWord

/-- If all tokens behind the first hold a word, it is so after a repair. -/
theorem isWord_of_mem_tail_run (htokens : ∀ token ∈ tokens.tail, Text.IsWord token.word)
    (hadded : added ∈ (run tokens).1.tail) : Text.IsWord added.word := by
  cases tokens with
  | nil => cases hadded
  | cons first tokens =>
      rw [List.tail_cons] at htokens
      -- tags are put in front of a tag only, so any other first token stays the first
      by_cases htag : (Tag.openAnyTagName? first.word).isSome ∨
          (Tag.closeTagName? first.word).isSome
      · have hall : ∀ token ∈ first :: tokens, Text.IsWord token.word := by
          rw [List.forall_mem_cons]
          exact ⟨isWord_of_tag htag, htokens⟩
        exact (mem_or_isWord_of_mem_runFrom (List.mem_of_mem_tail hadded)).elim (hall added) id
      · obtain ⟨hopens, hcloses⟩ := not_or.mp htag
        have hstep := step_of_word (Option.not_isSome_iff_eq_none.mp hopens) hcloses []
        have hrun : (run (first :: tokens)).1 = first :: (runFrom [] tokens).1 := by
          simp only [run, runFrom, hstep]
          rfl
        rw [hrun, List.tail_cons] at hadded
        exact (mem_or_isWord_of_mem_runFrom hadded).elim (htokens added) id

end Repair

/-! ## Frames -/

namespace Frame

variable {frame : Frame} {text : String} {strict : Bool}

/-- Whether all tokens of a frame behind the first hold a word. -/
def Filled (frame : Frame) : Prop :=
  ∀ token ∈ frame.tokens.tail, Text.IsWord token.word

theorem filled_of_read (hread : read text strict = .ok (some frame)) : frame.Filled := by
  obtain ⟨spoken, hspoken, htokens, -⟩ := exists_readAll_of_read hread
  unfold Filled
  rw [htokens]
  refine fun token htoken => Repair.isWord_of_mem_tail_run (fun token htoken => ?_) htoken
  cases hwords : normalWords text with
  | nil =>
      rw [hwords] at hspoken
      obtain rfl := Except.ok.inj hspoken
      cases htoken
  | cons first rest =>
      have hrest : ∀ raw ∈ rest, Text.IsWord raw ∧ raw.toList.head? ≠ some ':' := by
        intro raw hraw
        have hmem : raw ∈ (normalWords text).tail := by rwa [hwords, List.tail_cons]
        exact ⟨isWord_of_mem_normalWords (List.mem_of_mem_tail hmem),
          head?_ne_colon_of_mem_tail hmem⟩
      rw [hwords] at hspoken
      unfold Token.readAll at hspoken
      split at hspoken
      · cases hspoken
      · split at hspoken
        · cases hspoken
        · next others hothers =>
            obtain rfl := Except.ok.inj hspoken
            exact Token.isWord_of_readAll hothers hrest token htoken

theorem Filled.of_sublist {part : Frame} (hfilled : frame.Filled)
    (hpart : part.tokens.Sublist frame.tokens) : part.Filled :=
  fun token htoken => hfilled token (hpart.tail.subset htoken)

theorem Filled.cutSpan (hfilled : frame.Filled) (opens : String → Bool)
    (closes : String → String → Bool) :
    (∀ span ∈ (frame.cutSpan opens closes).1, span.Filled) ∧
      (frame.cutSpan opens closes).2.Filled := by
  obtain ⟨hspan, hrest⟩ := sublist_cutSpan frame opens closes
  exact ⟨fun span hcut => hfilled.of_sublist (hspan span hcut), hfilled.of_sublist hrest⟩

/-- A span that is cut out by its name starts with the tag for it. -/
theorem firstWord?_of_cutTag {name : String} {span rest : Frame}
    (hcut : frame.cutTag name = (some span, rest)) :
    span.firstWord? = some (Tag.opener name) := by
  have hspan : span ∈ (frame.cutTag name).1 := by
    rw [hcut]
    exact Option.mem_some_self span
  obtain ⟨first, hfirst, hopens⟩ := firstWord?_of_cutSpan hspan
  rw [hfirst]
  exact congrArg some (eq_of_beq hopens)

/-- What stands between the ends of a frame are words. -/
theorem Filled.isWord (hfilled : frame.Filled) :
    ∀ word ∈ frame.contentWords, Text.IsWord word := by
  intro word hword
  obtain ⟨token, htoken, rfl⟩ := List.mem_map.mp hword
  refine hfilled token ?_
  rw [← List.drop_one]
  exact List.dropLast_subset _ htoken

theorem contentWords_ne_nil (hspoken : frame.isEmptyTag = false) : frame.contentWords ≠ [] := by
  have hlength : 2 < frame.tokens.length := by simpa [isEmptyTag] using hspoken
  rw [← List.length_pos_iff, contentWords, List.length_map, content, List.length_dropLast,
    List.length_drop]
  omega

end Frame

end Phraseology
