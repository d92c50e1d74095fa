import Phraseology.Frame.Reader
import Phraseology.Proofs.Tag.Plain
import Phraseology.Proofs.Text.LowerWords

/-!
# Spacing out well spaced text

A reader of frames puts spaces around tags and behind confidences, takes some of them out
again and then puts everything into lower case.  Of plain tags and spoken words that are
joined by single spaces nothing is left of this but the lower case.  Each stage only cuts
such a text: spacing out the tags into the tokens it was joined from
(`wordsOf_spaceTags_unwords`), spacing out the confidences into the parts of these
(`parts`), and joining what starts with a colon puts the parts together again
(`joinColons_joinWords`).  So these tokens are what is read (`normalWords_unwords`).

Of other tokens more may be left.  `ReadAs` says which words a token leaves, and a text is
then read as the words that its tokens leave (`normalWords_of_readAs`).
-/

namespace Phraseology

namespace Frame

/-! ## Spoken words -/

/-- Whether a character has a meaning in tagged text. -/
def isMark (c : Char) : Bool :=
  c == '<' || c == '>' || c == ':'

/-- A confidence as it stands behind a word: a digit, a point and more digits. -/
def rating (digit : Char) (digits : List Char) : String :=
  String.ofList (':' :: digit :: '.' :: digits)

/-- A text without marks, apart from a confidence behind it. -/
inductive Spoken : String → Prop
  | plain {word : String} (unmarked : ∀ c ∈ word.toList, isMark c = false) : Spoken word
  | rated {word : String} {digit : Char} {digits : List Char}
      (unmarked : ∀ c ∈ word.toList, isMark c = false) (nonempty : word ≠ "")
      (first : Decimal.isDigit digit = true) (others : ∀ c ∈ digits, Decimal.isDigit c = true) :
      Spoken (word ++ rating digit digits)

/-- A plain tag or a spoken word. -/
inductive Legible : String → Prop
  | tag {token : String} (plain : Tag.Plain token) : Legible token
  | word {token : String} (single : Text.IsWord token) (spoken : Spoken token) : Legible token

variable {token word : String} {tokens : List String} {cs part rest : List Char} {c digit : Char}
  {digits : List Char}

theorem legible_of_all (hnonempty : word.toList ≠ [])
    (hall : word.toList.all (fun c => !Text.isBlank c && !isMark c) = true) : Legible word := by
  have hplain : ∀ c ∈ word.toList, Text.isBlank c = false ∧ isMark c = false := by
    simpa using hall
  exact .word ⟨hnonempty, fun c hc => (hplain c hc).1⟩ (.plain fun c hc => (hplain c hc).2)

theorem ne_of_isDigit {other : Char} (hdigit : Decimal.isDigit c = true)
    (hother : Decimal.isDigit other = false) : c ≠ other := by
  rintro rfl
  rw [hdigit] at hother
  exact absurd hother (by decide)

/-- A spoken word has no angles. -/
theorem Spoken.angle_notMem (hspoken : Spoken token) : ∀ c ∈ token.toList, c ≠ '<' ∧ c ≠ '>' := by
  intro c hc
  cases hspoken with
  | plain hunmarked =>
      constructor
      · rintro rfl
        exact absurd (hunmarked '<' hc) (by decide)
      · rintro rfl
        exact absurd (hunmarked '>' hc) (by decide)
  | @rated word digit digits hunmarked _ hfirst hothers =>
      rw [String.toList_append, List.mem_append, rating, String.toList_ofList, List.mem_cons,
        List.mem_cons, List.mem_cons] at hc
      rcases hc with hc | rfl | rfl | rfl | hc
      · constructor
        · rintro rfl
          exact absurd (hunmarked '<' hc) (by decide)
        · rintro rfl
          exact absurd (hunmarked '>' hc) (by decide)
      · decide
      · exact ⟨ne_of_isDigit hfirst (by decide), ne_of_isDigit hfirst (by decide)⟩
      · decide
      · exact ⟨ne_of_isDigit (hothers c hc) (by decide), ne_of_isDigit (hothers c hc) (by decide)⟩

theorem Spoken.tagName?_eq_none (hspoken : Spoken token) : Tag.tagName? token = none :=
  Tag.tagName?_eq_none_of_notMem fun hangle => (hspoken.angle_notMem '<' hangle).1 rfl

theorem Legible.isWord (hlegible : Legible token) : Text.IsWord token := by
  cases hlegible with
  | tag hplain => exact hplain.isWord
  | word hsingle _ => exact hsingle

/-! ## Spaces around tags -/

theorem spaceTags_append (cs rest : List Char) :
    spaceTags (cs ++ rest) = spaceTags cs ++ spaceTags rest :=
  List.flatMap_append ..

theorem spaceTags_eq_self (hcs : ∀ c ∈ cs, c ≠ '<' ∧ c ≠ '>') : spaceTags cs = cs := by
  induction cs with
  | nil => rfl
  | cons c cs ih =>
      obtain ⟨hopening, hclosing⟩ := hcs c List.mem_cons_self
      have hrest := ih fun d hd => hcs d (List.mem_cons_of_mem c hd)
      rw [spaceTags, List.flatMap_cons, ← spaceTags, hrest]
      simp [hopening, hclosing]

/-- What stands between angles is cut off what follows. -/
theorem wordsOf_spaceTags_angled {inside : List Char}
    (hinside : ∀ c ∈ inside, c ≠ '<' ∧ c ≠ '>')
    (hsolid : ∀ c ∈ '<' :: (inside ++ ['>']), Text.isBlank c = false) (rest : List Char) :
    Text.wordsOf (spaceTags ('<' :: (inside ++ ['>']) ++ rest)) =
      ('<' :: (inside ++ ['>'])) :: Text.wordsOf (spaceTags rest) := by
  have hspaced : spaceTags ('<' :: (inside ++ ['>']) ++ rest) =
      ' ' :: ('<' :: (inside ++ ['>']) ++ ' ' :: spaceTags rest) := by
    rw [← List.singleton_append, spaceTags_append, spaceTags_append, spaceTags_append,
      spaceTags_eq_self hinside]
    simp [spaceTags]
  rw [hspaced, Text.wordsOf_space, Text.wordsOf_append_space,
    Text.wordsOf_of_solid (by simp) hsolid]
  rfl

/-- Spacing out a single token adds spaces around it at most. -/
theorem Legible.wordsOf_spaceTags (hlegible : Legible token) :
    Text.wordsOf (spaceTags token.toList) = [token.toList] := by
  obtain ⟨hnonempty, hsolid⟩ := hlegible.isWord
  cases hlegible with
  | tag hplain =>
      obtain ⟨inside, htoken, hinside⟩ := hplain.exists_inside
      have hangle : ∀ c ∈ inside, c ≠ '<' ∧ c ≠ '>' := fun c hc =>
        ⟨Tag.ne_of_isInside (hinside c hc) (by decide),
          Tag.ne_of_isInside (hinside c hc) (by decide)⟩
      rw [htoken] at hsolid
      rw [htoken, ← List.append_nil ('<' :: (inside ++ ['>'])),
        wordsOf_spaceTags_angled hangle hsolid, List.append_nil]
      rfl
  | word _ hspoken =>
      rw [spaceTags_eq_self hspoken.angle_notMem, Text.wordsOf_of_solid hnonempty hsolid]

theorem wordsOf_spaceTags_unwords
    (hwhole : ∀ token ∈ tokens, Text.wordsOf (spaceTags token.toList) = [token.toList]) :
    Text.wordsOf (spaceTags (Text.unwords tokens).toList) = tokens.map (·.toList) := by
  induction tokens with
  | nil => rfl
  | cons first tokens ih =>
      have hfirst := hwhole first List.mem_cons_self
      cases tokens with
      | nil => simpa [Text.unwords] using hfirst
      | cons second more =>
          have hspace : spaceTags (' ' :: (Text.unwords (second :: more)).toList) =
              ' ' :: spaceTags (Text.unwords (second :: more)).toList := rfl
          rw [Text.toList_unwords, spaceTags_append, hspace, Text.wordsOf_append_space, hfirst,
            ih fun token htoken => hwhole token (List.mem_cons_of_mem first htoken)]
          rfl

/-! ## Spaces around confidences -/

theorem takeWhile_eq_self {p : Char → Bool} (hcs : ∀ c ∈ cs, p c = true) : cs.takeWhile p = cs := by
  calc cs.takeWhile p = (cs ++ []).takeWhile p := by rw [List.append_nil]
    _ = cs ++ [].takeWhile p := List.takeWhile_append_of_pos hcs
    _ = cs := List.append_nil cs

theorem dropWhile_eq_nil {p : Char → Bool} (hcs : ∀ c ∈ cs, p c = true) : cs.dropWhile p = [] := by
  calc cs.dropWhile p = (cs ++ []).dropWhile p := by rw [List.append_nil]
    _ = [].dropWhile p := List.dropWhile_append_of_pos hcs

theorem confidence?_append (hcolon : ':' ∉ cs) (rest : List Char) :
    confidence? (cs ++ rest) = confidence? rest := by
  induction cs with
  | nil => rfl
  | cons c cs ih =>
      rw [List.mem_cons, not_or] at hcolon
      have hstart : confidenceAtStart? (c :: (cs ++ rest)) = none := by
        unfold confidenceAtStart?
        split
        · next heq => exact absurd (List.cons.inj heq).1.symm hcolon.1
        · rfl
      rw [List.cons_append, confidence?, hstart, Option.none_or, ih hcolon.2]

theorem spaceConfidence_eq_self (hcolon : ':' ∉ cs) : spaceConfidence cs = cs := by
  have hnone : confidence? cs = none := by
    rw [← List.append_nil cs, confidence?_append hcolon]
    rfl
  rw [spaceConfidence, hnone]

theorem spaceAround_append (hcolon : ':' ∉ cs) (part rest : List Char) :
    spaceAround (':' :: part) (cs ++ rest) = cs ++ spaceAround (':' :: part) rest := by
  induction cs with
  | nil => rfl
  | cons c cs ih =>
      rw [List.mem_cons, not_or] at hcolon
      have hstart : (':' :: part).isPrefixOf (c :: (cs ++ rest)) = false := by
        simp [List.isPrefixOf, hcolon.1]
      rw [List.cons_append, spaceAround, hstart, ih hcolon.2]
      rfl

theorem spaceAround_prefix (part rest : List Char) :
    spaceAround (':' :: part) (':' :: (part ++ rest)) =
      ' ' :: ':' :: (part ++ ' ' :: spaceAround (':' :: part) rest) := by
  have hprefix : (':' :: part).isPrefixOf (':' :: (part ++ rest)) = true :=
    List.isPrefixOf_iff_prefix.mpr (List.prefix_append (':' :: part) rest)
  rw [spaceAround, if_pos hprefix]
  simp

/-- The words that a token is cut into for a while. -/
def parts (token : String) : List (List Char) :=
  Text.wordsOf (spaceConfidence token.toList)

theorem parts_eq_of_notMem (hword : Text.IsWord token) (hcolon : ':' ∉ token.toList) :
    parts token = [token.toList] := by
  rw [parts, spaceConfidence_eq_self hcolon, Text.wordsOf_of_solid hword.nonempty hword.solid]

/-- A confidence is cut off its word, and off what stands behind it. -/
theorem parts_of_confidence {front : List Char} (hword : Text.IsWord token)
    (htoken : token.toList = cs ++ ':' :: (front ++ rest)) (hnonempty : cs ≠ [])
    (hcs : ':' ∉ cs) (hrest : ':' ∉ rest)
    (hfound : confidenceAtStart? (':' :: (front ++ rest)) = some (':' :: front)) :
    parts token = cs :: (':' :: front) :: Text.wordsOf rest := by
  have hsolid := hword.solid
  rw [htoken] at hsolid
  have hspaced : spaceConfidence token.toList =
      cs ++ ' ' :: (':' :: front ++ ' ' :: rest) := by
    rw [spaceConfidence, htoken, confidence?_append hcs, confidence?, hfound, Option.some_or]
    simp only
    rw [spaceAround_append hcs, spaceAround_prefix, ← List.append_nil rest,
      spaceAround_append hrest]
    simp [spaceAround]
  have hfront : ∀ c ∈ ':' :: front, Text.isBlank c = false := fun c hc =>
    hsolid c (List.mem_append_right _ (List.mem_append_left rest hc))
  rw [parts, hspaced, Text.wordsOf_append_space, Text.wordsOf_append_space,
    Text.wordsOf_of_solid hnonempty fun c hc => hsolid c (List.mem_append_left _ hc),
    Text.wordsOf_of_solid (by simp) hfront]
  rfl

theorem confidenceAtStart?_rating (hdigit : Decimal.isDigit digit = true)
    (hdigits : ∀ c ∈ digits, Decimal.isDigit c = true) :
    confidenceAtStart? (':' :: digit :: '.' :: digits) = some (':' :: digit :: '.' :: digits) := by
  simp [confidenceAtStart?, hdigit, takeWhile_eq_self hdigits]

theorem colon_notMem_of_unmarked (hunmarked : ∀ c ∈ word.toList, isMark c = false) :
    ':' ∉ word.toList := by
  intro hcolon
  exact absurd (hunmarked ':' hcolon) (by decide)

theorem colon_notMem_angled {inside : List Char} (hinside : ':' ∉ inside) :
    ':' ∉ '<' :: (inside ++ ['>']) := by
  simpa using hinside

theorem colon_notMem_of_plain (hplain : Tag.Plain token) : ':' ∉ token.toList := by
  obtain ⟨inside, htoken, hinside⟩ := hplain.exists_inside
  rw [htoken]
  exact colon_notMem_angled fun hcolon => absurd (hinside ':' hcolon) (by decide)

/-- A token has no colon, or it is a word with its confidence. -/
theorem Legible.colon_notMem_or_rated (hlegible : Legible token) :
    ':' ∉ token.toList ∨ ∃ word digit digits, token = word ++ rating digit digits ∧ word ≠ "" ∧
      (∀ c ∈ word.toList, isMark c = false) ∧ Decimal.isDigit digit = true ∧
      ∀ c ∈ digits, Decimal.isDigit c = true := by
  cases hlegible with
  | tag hplain => exact .inl (colon_notMem_of_plain hplain)
  | word _ hspoken =>
      cases hspoken with
      | plain hunmarked => exact .inl (colon_notMem_of_unmarked hunmarked)
      | rated hunmarked hnonempty hfirst hothers =>
          exact .inr ⟨_, _, _, rfl, hnonempty, hunmarked, hfirst, hothers⟩

/-! ## Spaces in front of colons -/

theorem joinColons_cons (hrest : c ≠ ' ' ∨ rest.head? ≠ some ':') :
    joinColons (c :: rest) = c :: joinColons rest := by
  rw [joinColons]
  rintro more rfl rfl
  rcases hrest with h | h
  · exact h rfl
  · exact h rfl

theorem joinColons_append (hsolid : ' ' ∉ cs) (rest : List Char) :
    joinColons (cs ++ rest) = cs ++ joinColons rest := by
  induction cs with
  | nil => rfl
  | cons c cs ih =>
      rw [List.mem_cons, not_or] at hsolid
      rw [List.cons_append, joinColons_cons (.inl (Ne.symm hsolid.1)), ih hsolid.2]
      rfl

theorem joinWords_cons_cons (first second : List Char) (more : List (List Char)) :
    joinWords (first :: second :: more) = first ++ ' ' :: joinWords (second :: more) := by
  simp [joinWords, List.intercalate, List.intersperse]

theorem joinWords_append {first second : List (List Char)} (hfirst : first ≠ [])
    (hsecond : second ≠ []) :
    joinWords (first ++ second) = joinWords first ++ ' ' :: joinWords second := by
  induction first with
  | nil => exact absurd rfl hfirst
  | cons word first ih =>
      cases first with
      | nil =>
          obtain ⟨head, tail, rfl⟩ := List.exists_cons_of_ne_nil hsecond
          rw [List.singleton_append, joinWords_cons_cons]
          simp [joinWords, List.intercalate]
      | cons next first =>
          rw [List.cons_append, List.cons_append, joinWords_cons_cons, joinWords_cons_cons,
            ← List.cons_append, ih (by simp)]
          simp

theorem wordsOf_joinWords (ws : List (List Char)) :
    Text.wordsOf (joinWords ws) = ws.flatMap Text.wordsOf := by
  induction ws with
  | nil => rfl
  | cons first ws ih =>
      cases ws with
      | nil => simp [joinWords, List.intercalate]
      | cons second more =>
          rw [joinWords_cons_cons, Text.wordsOf_append_space, ih]
          rfl

theorem space_notMem (hword : Text.IsWord token) : ' ' ∉ token.toList := by
  intro hspace
  exact absurd (hword.solid ' ' hspace) (by decide)

/-! ## Tokens that are read as words -/

/-- A token is read as some words, wherever it stands: no tag is found in it, and the parts
that it is cut into for a while are joined to these words. -/
structure ReadAs (token : String) (words : List String) : Prop where
  whole : Text.wordsOf (spaceTags token.toList) = [token.toList]
  nonempty : words ≠ []
  isWord : ∀ word ∈ words, Text.IsWord word
  parts_ne_nil : parts token ≠ []
  head?_parts : ∀ others, (joinWords (parts token ++ others)).head? ≠ some ':'
  joinColons_parts : ∀ rest, joinColons (joinWords (parts token) ++ rest) =
    joinWords (words.map (·.toList)) ++ joinColons rest

section

variable {α : Type} {items : List α} {raw : α → String} {read : α → List String}

theorem joinColons_joinWords (hread : ∀ item ∈ items, ReadAs (raw item) (read item)) :
    joinColons (joinWords (items.flatMap fun item => parts (raw item))) =
      joinWords ((items.flatMap read).map (·.toList)) := by
  induction items with
  | nil => rfl
  | cons first items ih =>
      have hfirst := hread first List.mem_cons_self
      have hrest := ih fun item hitem => hread item (List.mem_cons_of_mem first hitem)
      cases items with
      | nil => simpa [joinColons] using hfirst.joinColons_parts []
      | cons second more =>
          have hsecond := hread second (by simp)
          have hhead : (joinWords ((second :: more).flatMap fun item => parts (raw item))).head? ≠
              some ':' := hsecond.head?_parts _
          have hparts : (second :: more).flatMap (fun item => parts (raw item)) ≠ [] := by
            simp [hsecond.parts_ne_nil]
          have hwords : ((second :: more).flatMap read).map (·.toList) ≠ [] := by
            simp [hsecond.nonempty]
          have hsplit : ((first :: second :: more).flatMap read).map (·.toList) =
              (read first).map (·.toList) ++ ((second :: more).flatMap read).map (·.toList) := by
            rw [List.flatMap_cons, List.map_append]
          rw [List.flatMap_cons, joinWords_append hfirst.parts_ne_nil hparts,
            hfirst.joinColons_parts, joinColons_cons (.inr hhead), hrest, hsplit,
            joinWords_append (by simpa using hfirst.nonempty) hwords]

/-- Of joined tokens the words are read that each of them is read as, in lower case. -/
theorem normalWords_of_readAs (hread : ∀ item ∈ items, ReadAs (raw item) (read item)) :
    normalWords (Text.unwords (items.map raw)) = (items.flatMap read).map Text.lower := by
  have hwhole : ∀ token ∈ items.map raw,
      Text.wordsOf (spaceTags token.toList) = [token.toList] := by
    intro token htoken
    obtain ⟨item, hitem, rfl⟩ := List.mem_map.mp htoken
    exact (hread item hitem).whole
  have hparts : Text.wordsOf (joinWords (((items.map raw).map (·.toList)).map spaceConfidence)) =
      items.flatMap fun item => parts (raw item) := by
    rw [wordsOf_joinWords, List.map_map, List.map_map, List.flatMap_map]
    rfl
  have hjoined : String.ofList (joinWords ((items.flatMap read).map (·.toList))) =
      Text.unwords (items.flatMap read) := by
    rw [← String.toList_inj, String.toList_ofList, Text.unwords, String.toList_intercalate]
    rfl
  have hwords : ∀ word ∈ items.flatMap read, Text.IsWord word := by
    intro word hword
    obtain ⟨item, hitem, hword⟩ := List.mem_flatMap.mp hword
    exact (hread item hitem).isWord word hword
  unfold normalWords
  simp only
  rw [wordsOf_spaceTags_unwords hwhole, hparts, joinColons_joinWords hread, hjoined]
  exact Text.words_lower_unwords hwords

end

theorem head?_joinWords {first : List Char} (hnonempty : first ≠ []) (more : List (List Char)) :
    (joinWords (first :: more)).head? = first.head? := by
  obtain ⟨c, front, rfl⟩ := List.exists_cons_of_ne_nil hnonempty
  cases more with
  | nil => simp [joinWords, List.intercalate]
  | cons second more => rw [joinWords_cons_cons]; rfl

/-- What holds no colon does not start with one. -/
theorem head?_ne_of_notMem (hcolon : ':' ∉ cs) : cs.head? ≠ some ':' :=
  fun hhead => hcolon (List.mem_of_head? hhead)

theorem joinWords_singleton (word : List Char) : joinWords [word] = word := by
  simp [joinWords, List.intercalate]

/-- A word with something behind a colon is put together again. -/
theorem joinColons_rated {cs value : List Char} (hcs : ' ' ∉ cs) (hvalue : ' ' ∉ value)
    (rest : List Char) :
    joinColons (cs ++ ' ' :: ':' :: (value ++ rest)) = cs ++ ':' :: value ++ joinColons rest := by
  rw [joinColons_append hcs, joinColons, joinColons_append hvalue]
  simp

/-- A token without a colon is not cut into parts. -/
theorem readAs_of_notMem (hword : Text.IsWord token)
    (hwhole : Text.wordsOf (spaceTags token.toList) = [token.toList])
    (hcolon : ':' ∉ token.toList) : ReadAs token [token] := by
  have hparts := parts_eq_of_notMem hword hcolon
  refine ⟨hwhole, by simp, by simpa using hword, by simp [hparts], fun others => ?_,
    fun rest => ?_⟩
  · rw [hparts, List.singleton_append, head?_joinWords hword.nonempty]
    exact head?_ne_of_notMem hcolon
  · rw [hparts, List.map_singleton, joinWords_singleton, joinColons_append (space_notMem hword)]

/-- The parts of a token are joined to the token again. -/
theorem Legible.readAs (hlegible : Legible token) : ReadAs token [token] := by
  have hword := hlegible.isWord
  have hsolid := space_notMem hword
  have hsingle : ∀ word ∈ [token], Text.IsWord word := by simpa using hword
  rcases hlegible.colon_notMem_or_rated with
    hcolon | ⟨word, digit, digits, rfl, hnonempty, hunmarked, hdigit, hdigits⟩
  · exact readAs_of_notMem hword hlegible.wordsOf_spaceTags hcolon
  · have hcolon := colon_notMem_of_unmarked hunmarked
    have hnonempty' : word.toList ≠ [] := by simpa using hnonempty
    have htoken : (word ++ rating digit digits).toList =
        word.toList ++ ':' :: ((digit :: '.' :: digits) ++ []) := by simp [rating]
    have hparts : parts (word ++ rating digit digits) =
        [word.toList, ':' :: digit :: '.' :: digits] := by
      refine parts_of_confidence hword htoken hnonempty' hcolon (by simp) ?_
      rw [List.append_nil, confidenceAtStart?_rating hdigit hdigits]
    rw [htoken, List.append_nil, List.mem_append, List.mem_cons, not_or, not_or] at hsolid
    refine ⟨hlegible.wordsOf_spaceTags, by simp, hsingle, by simp [hparts], fun others => ?_,
      fun rest => ?_⟩
    · rw [hparts, List.cons_append, head?_joinWords hnonempty']
      exact head?_ne_of_notMem hcolon
    · have hcut : joinWords (parts (word ++ rating digit digits)) ++ rest =
          word.toList ++ ' ' :: ':' :: ((digit :: '.' :: digits) ++ rest) := by
        rw [hparts, joinWords_cons_cons, joinWords_singleton]
        simp
      rw [hcut, joinColons_rated hsolid.1 hsolid.2.2, List.map_singleton, joinWords_singleton,
        htoken, List.append_nil]

/-! ## The words of a text -/

/-- Of joined words and tags these are read again, in lower case. -/
theorem normalWords_unwords (hlegible : ∀ token ∈ tokens, Legible token) :
    normalWords (Text.unwords tokens) = tokens.map Text.lower := by
  have hread : normalWords (Text.unwords (tokens.map id)) =
      (tokens.flatMap fun token => [token]).map Text.lower :=
    normalWords_of_readAs fun token htoken => (hlegible token htoken).readAs
  simpa using hread

end Frame

end Phraseology
