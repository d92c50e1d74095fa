import Phraseology.Proofs.Frame.Spacing

/-!
# Reading the tokens of a text

A confidence behind a word is the same in either letter case, and a tag is its own lower
case.  So a spoken word or plain tag in lower case is read as the token itself, with its
word in lower case (`Legible.exists_read`), and a whole text likewise
(`exists_readAll`).  The words that are read are those that a search compares, so they are
tags where tags stand in the text (`filter_map_observation`).
-/

namespace Phraseology

/-- A token whose word is in lower case. -/
def Token.lowered (token : Token) : Token :=
  { token with word := Text.lower token.word }

namespace Frame

variable {token word : String} {tokens : List String} {c digit : Char} {digits : List Char}

/-! ## The confidences of a text -/

theorem splitAtLastColon?_eq_none (hcolon : ':' ∉ token.toList) :
    Token.splitAtLastColon? token = none := by
  have hnone : token.toList.reverse.dropWhile (· != ':') = [] := by
    refine dropWhile_eq_nil fun c hc => ?_
    simp only [bne_iff_ne, ne_eq]
    rintro rfl
    exact hcolon (List.mem_reverse.mp hc)
  simp only [Token.splitAtLastColon?, hnone]

/-- A word is cut off what stands behind its last colon. -/
theorem splitAtLastColon?_append {value : List Char} (hvalue : ':' ∉ value) (word : String) :
    Token.splitAtLastColon? (word ++ String.ofList (':' :: value)) =
      some (word, String.ofList value) := by
  have hbehind : ∀ c ∈ value.reverse, (c != ':') = true := by
    intro c hc
    rw [bne_iff_ne]
    rintro rfl
    exact hvalue (List.mem_reverse.mp hc)
  have hreverse : (word ++ String.ofList (':' :: value)).toList.reverse =
      value.reverse ++ ':' :: word.toList.reverse := by
    simp
  unfold Token.splitAtLastColon?
  simp only
  rw [hreverse, List.dropWhile_append_of_pos hbehind, List.takeWhile_append_of_pos hbehind]
  simp

/-- What stands behind the colon is a number. -/
theorem float?_rating (hdigit : Decimal.isDigit digit = true)
    (hdigits : ∀ c ∈ digits, Decimal.isDigit c = true) :
    (Decimal.float? (String.ofList (digit :: '.' :: digits))).isSome := by
  have hsign : Decimal.takeSign (digit :: '.' :: digits) = (false, digit :: '.' :: digits) := by
    unfold Decimal.takeSign
    split
    · next heq => exact absurd (List.cons.inj heq).1 (ne_of_isDigit hdigit (by decide))
    · next heq => exact absurd (List.cons.inj heq).1 (ne_of_isDigit hdigit (by decide))
    · rfl
  have hlower : digit.toLower = digit := by
    have hrange := Decimal.isDigit_iff.mp hdigit
    have hself : Text.lowerChar digit = [digit] := Text.lowerChar_eq_self (by omega) (by omega)
    rw [Text.lowerChar_ascii (by omega)] at hself
    exact (List.cons.inj hself).1
  have hname : ∀ (name : String) (c : Char) (cs : List Char), name.toList = c :: cs →
      Decimal.isDigit c = false →
      ((digit :: '.' :: digits).map Char.toLower == name.toList) = false := by
    intro name c cs hname hc
    rw [hname, List.map_cons, hlower, beq_eq_false_iff_ne]
    intro heq
    exact ne_of_isDigit hdigit hc (List.cons.inj heq).1
  have hunsigned : (Decimal.unsigned? false (digit :: '.' :: digits)).isSome := by
    have hpoint : Decimal.isDigit '.' = false := by decide
    simp [Decimal.unsigned?, hdigit, hpoint, takeWhile_eq_self hdigits, dropWhile_eq_nil hdigits,
      Decimal.exponent?]
  rw [Decimal.float?_isSome, Decimal.isNumber, String.toList_ofList, Decimal.Literal.ofChars?,
    hsign]
  simp only [hname "inf" 'i' _ rfl (by decide), hname "infinity" 'i' _ rfl (by decide),
    hname "nan" 'n' _ rfl (by decide), Bool.or_false, Bool.false_eq_true, if_false]
  exact hunsigned

theorem read_of_notMem (hcolon : ':' ∉ token.toList) :
    Token.read token = .ok (Token.plain token) := by
  rw [Token.read, splitAtLastColon?_eq_none hcolon]

/-- The number in a confidence. -/
def ratingValue (hdigit : Decimal.isDigit digit = true)
    (hdigits : ∀ c ∈ digits, Decimal.isDigit c = true) : Float :=
  (Decimal.float? (String.ofList (digit :: '.' :: digits))).get (float?_rating hdigit hdigits)

/-- A word with a confidence is read as both. -/
theorem read_rated (hdigit : Decimal.isDigit digit = true)
    (hdigits : ∀ c ∈ digits, Decimal.isDigit c = true) (word : String) :
    Token.read (word ++ rating digit digits) =
      .ok { word, confidence := ratingValue hdigit hdigits } := by
  have hcolon : ':' ∉ digit :: '.' :: digits := by
    rw [List.mem_cons, List.mem_cons, not_or, not_or]
    exact ⟨(ne_of_isDigit hdigit (by decide)).symm, by decide,
      fun hmem => ne_of_isDigit (hdigits ':' hmem) (by decide) rfl⟩
  have hvalue : Decimal.float? (String.ofList (digit :: '.' :: digits)) =
      some (ratingValue hdigit hdigits) := (Option.some_get _).symm
  rw [Token.read, rating, splitAtLastColon?_append hcolon]
  simp only [hvalue]

theorem isLowered_of_isInside (hinside : Tag.isInside c = true) : Text.IsLowered c := by
  simp only [Tag.isInside, Tag.isAttributedNameChar, Bool.or_eq_true, beq_iff_eq] at hinside
  rcases hinside with ((hname | rfl) | rfl) | rfl
  · have hrange := Tag.toNat_of_isNameChar hname
    unfold Text.IsLowered
    omega
  · exact ⟨by decide, .inl (by decide)⟩
  · exact ⟨by decide, .inl (by decide)⟩
  · exact ⟨by decide, .inl (by decide)⟩

theorem lower_tag (hplain : Tag.Plain token) : Text.lower token = token := by
  obtain ⟨inside, htoken, hinside⟩ := hplain.exists_inside
  refine Text.lower_eq_self fun c hc => ?_
  rw [htoken, List.mem_cons, List.mem_append, List.mem_singleton] at hc
  rcases hc with rfl | hc | rfl
  · exact ⟨by decide, .inl (by decide)⟩
  · exact isLowered_of_isInside (hinside c hc)
  · exact ⟨by decide, .inl (by decide)⟩

theorem isLowered_of_isDigit (hdigit : Decimal.isDigit c = true) : Text.IsLowered c := by
  have hrange := Decimal.isDigit_iff.mp hdigit
  unfold Text.IsLowered
  omega

/-- Behind the colon of a confidence comes a digit, which has no case. -/
theorem facesCased_rating (hdigit : Decimal.isDigit digit = true) :
    Text.facesCased (rating digit digits).toList = false := by
  have hdigits : ∀ n < 0x3A, 0x30 ≤ n → Text.inRanges Text.casedRanges n = false ∧
      Text.inRanges Text.caseIgnorableRanges n = false := by decide +kernel
  obtain ⟨hlow, hhigh⟩ := Decimal.isDigit_iff.mp hdigit
  obtain ⟨hcased, hignored⟩ := hdigits digit.toNat (by omega) hlow
  have hcolon : Text.isCaseIgnorable ':' = true := by decide
  have hdigit' : Text.isCaseIgnorable digit = false := hignored
  rw [rating, String.toList_ofList, Text.facesCased, List.dropWhile_cons, hcolon, if_pos rfl,
    List.dropWhile_cons, hdigit']
  exact hcased

theorem lower_rated (hdigit : Decimal.isDigit digit = true)
    (hdigits : ∀ c ∈ digits, Decimal.isDigit c = true) (word : String) :
    Text.lower (word ++ rating digit digits) = Text.lower word ++ rating digit digits := by
  refine Text.lower_append (fun c hc => ?_) (facesCased_rating hdigit) word
  rw [rating, String.toList_ofList, List.mem_cons, List.mem_cons, List.mem_cons] at hc
  rcases hc with rfl | rfl | rfl | hc
  · exact ⟨by decide, .inl (by decide)⟩
  · exact isLowered_of_isDigit hdigit
  · exact ⟨by decide, .inl (by decide)⟩
  · exact isLowered_of_isDigit (hdigits c hc)

theorem tagName?_observation_eq_none (hangle : '<' ∉ token.toList) :
    Tag.tagName? (Token.observation token) = none := by
  refine Tag.tagName?_eq_none_of_notMem fun hmem => hangle ?_
  unfold Token.observation at hmem
  split at hmem
  · next word value hsplit =>
      split at hmem
      · rw [Tag.eq_append_of_splitAtLastColon? hsplit]
        exact List.mem_append_left _ (Text.mem_of_mem_lower hmem (by decide))
      · exact Text.mem_of_mem_lower hmem (by decide)
  · exact Text.mem_of_mem_lower hmem (by decide)

/-- The word that is read is the one that a search compares. -/
theorem word_lowered_of_read {spoken : Token} (hread : Token.read token = .ok spoken) :
    spoken.lowered.word = Token.observation token := by
  unfold Token.read at hread
  unfold Token.observation
  split at hread
  · next hsplit =>
      obtain rfl := Except.ok.inj hread
      rw [hsplit]
      rfl
  · next word value hsplit =>
      split at hread
      · next confidence hvalue =>
          have hnumber : Decimal.isNumber value = true := by
            rw [← Decimal.float?_isSome, hvalue]
            rfl
          obtain rfl := Except.ok.inj hread
          simp only [hsplit, hnumber, if_true]
          rfl
      · cases hread

/-- A token is read as its word and its confidence, and in lower case as its word in lower
case with the same confidence. -/
theorem Legible.exists_read (hlegible : Legible token) :
    ∃ spoken, Token.read token = .ok spoken ∧
      Token.read (Text.lower token) = .ok spoken.lowered := by
  rcases hlegible.colon_notMem_or_rated with
    hcolon | ⟨word, digit, digits, rfl, -, -, hdigit, hdigits⟩
  · have hcolon' : ':' ∉ (Text.lower token).toList :=
      fun h => hcolon (Text.mem_of_mem_lower h (by decide))
    exact ⟨Token.plain token, read_of_notMem hcolon, read_of_notMem hcolon'⟩
  · refine ⟨_, read_rated hdigit hdigits word, ?_⟩
    rw [lower_rated hdigit hdigits, read_rated hdigit hdigits]
    rfl

/-- A text of legible tokens can be read, and in lower case gives the same tokens in lower
case. -/
theorem exists_readAll (hlegible : ∀ token ∈ tokens, Legible token) :
    ∃ spoken, Token.readAll tokens = .ok spoken ∧
      Token.readAll (tokens.map Text.lower) = .ok (spoken.map Token.lowered) ∧
      (spoken.map Token.lowered).map (·.word) = tokens.map Token.observation := by
  induction tokens with
  | nil => exact ⟨[], rfl, rfl, rfl⟩
  | cons token tokens ih =>
      obtain ⟨others, hothers, hlowers, hwords⟩ :=
        ih fun other hother => hlegible other (List.mem_cons_of_mem token hother)
      obtain ⟨spoken, hread, hlower⟩ := (hlegible token List.mem_cons_self).exists_read
      refine ⟨spoken :: others, ?_, ?_, ?_⟩
      · simp only [Token.readAll, hread, hothers]
      · simp only [List.map_cons, Token.readAll, hlower, hlowers]
      · rw [List.map_cons, List.map_cons, List.map_cons, hwords, word_lowered_of_read hread]

section

variable {α : Type} {items : List α} {raw : α → String} {read : α → Token}

theorem readAll_map (hread : ∀ item ∈ items, Token.read (raw item) = .ok (read item)) :
    Token.readAll (items.map raw) = .ok (items.map read) := by
  induction items with
  | nil => rfl
  | cons first items ih =>
      have hfirst := hread first List.mem_cons_self
      have hrest := ih fun item hitem => hread item (List.mem_cons_of_mem first hitem)
      simp only [List.map_cons, Token.readAll, hfirst, hrest]

end

/-- Each word of a text is read as one token. -/
theorem length_readAll {spoken : List Token} (hread : Token.readAll tokens = .ok spoken) :
    spoken.length = tokens.length := by
  induction tokens generalizing spoken with
  | nil => rw [← Except.ok.inj hread]; rfl
  | cons token tokens ih =>
      unfold Token.readAll at hread
      split at hread
      · cases hread
      · split at hread
        · cases hread
        · next hothers =>
            obtain rfl := Except.ok.inj hread
            rw [List.length_cons, List.length_cons, ih hothers]

/-- A text can be read if each word can. -/
theorem exists_readAll_iff : (∃ spoken, Token.readAll tokens = .ok spoken) ↔
    ∀ token ∈ tokens, ∃ spoken, Token.read token = .ok spoken := by
  induction tokens with
  | nil => exact iff_of_true ⟨[], rfl⟩ (by simp)
  | cons token tokens ih =>
      rw [List.forall_mem_cons, ← ih]
      cases hfirst : Token.read token with
      | error failure => simp [Token.readAll, hfirst]
      | ok first =>
          cases hrest : Token.readAll tokens with
          | error failure => simp [Token.readAll, hfirst, hrest]
          | ok rest => simp [Token.readAll, hfirst, hrest]

/-- A text is read by way of its words and of their repair. -/
theorem read_of_words {text : String} {words : List String} {spoken : List Token} {strict : Bool}
    (hwords : normalWords text = words) (hnonempty : words ≠ [])
    (hread : Token.readAll words = .ok spoken) :
    read text strict = (ofRepaired spoken strict).map some := by
  unfold read
  rw [hwords]
  split
  · exact absurd rfl hnonempty
  · simp only [hread]

theorem read_eq_ok {text : String} {words : List String} {spoken : List Token} {strict : Bool}
    {frame : Frame} (hwords : normalWords text = words) (hnonempty : words ≠ [])
    (hread : Token.readAll words = .ok spoken) (hframe : ofRepaired spoken strict = .ok frame) :
    read text strict = .ok (some frame) := by
  rw [read_of_words hwords hnonempty hread, hframe]
  rfl

/-- Legible tokens in lower case are read as they are. -/
theorem read_unwords_of_lower {spoken : List Token} {strict : Bool} {frame : Frame}
    (hlegible : ∀ token ∈ tokens, Legible token) (hlower : tokens.map Text.lower = tokens)
    (hnonempty : tokens ≠ []) (hread : Token.readAll tokens = .ok spoken)
    (hframe : ofRepaired spoken strict = .ok frame) :
    read (Text.unwords tokens) strict = .ok (some frame) := by
  have hwords : normalWords (Text.unwords tokens) = tokens := by
    rw [normalWords_unwords hlegible, hlower]
  exact read_eq_ok hwords hnonempty hread hframe

/-- Unless it is read strictly, a text is refused for its words only. -/
theorem exists_read_iff {text : String} : (∃ frame, read text false = .ok frame) ↔
    ∃ spoken, Token.readAll (normalWords text) = .ok spoken := by
  unfold read
  cases normalWords text with
  | nil => exact iff_of_true ⟨none, rfl⟩ ⟨[], rfl⟩
  | cons word words =>
      cases hread : Token.readAll (word :: words) with
      | error failure => simp [hread]
      | ok spoken => simp [hread, ofRepaired, ofTokens, Except.map]

/-- What is read from a text is the repair of its words. -/
theorem exists_readAll_of_read {text : String} {strict : Bool} {frame : Frame}
    (hread : read text strict = .ok (some frame)) :
    ∃ spoken, Token.readAll (normalWords text) = .ok spoken ∧
      frame.tokens = (Repair.run spoken).1 ∧ frame.strict = strict := by
  unfold read at hread
  split at hread
  · cases hread
  · split at hread
    · cases hread
    · next spoken hspoken =>
        refine ⟨spoken, hspoken, ?_⟩
        unfold ofRepaired ofTokens at hread
        simp only at hread
        split at hread
        · cases hread
        · obtain rfl := Option.some.inj (Except.ok.inj hread)
          exact ⟨rfl, rfl⟩

/-! ## The tags of a text -/

theorem observation_tag (hplain : Tag.Plain token) : Token.observation token = token := by
  rw [Token.observation, splitAtLastColon?_eq_none (colon_notMem_of_plain hplain)]
  exact lower_tag hplain

/-- No other tags are read than stand in the text. -/
theorem filter_map_observation (hlegible : ∀ token ∈ tokens, Legible token) :
    (tokens.map Token.observation).filter (fun word => (Tag.tagName? word).isSome) =
      tokens.filter fun word => (Tag.tagName? word).isSome := by
  induction tokens with
  | nil => rfl
  | cons token tokens ih =>
      have hrest := ih fun other hother => hlegible other (List.mem_cons_of_mem token hother)
      rw [List.map_cons, List.filter_cons, List.filter_cons, hrest]
      cases hlegible token List.mem_cons_self with
      | tag hplain => rw [observation_tag hplain]
      | word _ hspoken =>
          have hangle : '<' ∉ token.toList := fun h => (hspoken.angle_notMem '<' h).1 rfl
          rw [tagName?_observation_eq_none hangle, hspoken.tagName?_eq_none]
          rfl

end Frame

end Phraseology
