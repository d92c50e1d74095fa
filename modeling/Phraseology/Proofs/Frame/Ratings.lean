import Phraseology.Proofs.Decimal.LetterCase
import Phraseology.Proofs.Frame.Idempotence
import Phraseology.Proofs.Frame.Reading

/-!
# Confidences of all spellings

A search takes any number behind the last colon of a word for its confidence.  A reader of
frames looks for confidences that lack a space behind them, and takes a digit, any character
and the digits behind it for the whole of one.  So of a longer number it cuts off the rest
(`cutOff`): of `climb:10.5` it reads `climb:10` and a word `.5`, and of `climb:1e-5` the word
`climb:1e`, whose confidence is no number, so that the text cannot be read at all
(`exists_read_rated_iff`).  Where nothing is cut off the word and its confidence are put
together again (`RatedWord.readAs`).

Then the text is put into lower case as a whole.  A word may end in a capital sigma, which
is final in front of the colon and a number, but not in front of `inf` or `nan`, whose letters
are found behind the colon (`RatedWord.read_lower`).

Both counted in, a text of words with confidences is read word by word as the search reads it
exactly if each word has its confidence kept and its letters left alone (`read_rated_iff`).
-/

namespace Phraseology

namespace Frame

variable {value : List Char}

/-! ## What is cut off -/

/-- What a reader keeps of a number behind a colon: a digit, any character and more digits, if
it starts with a digit. -/
def keptFront : List Char → List Char
  | d :: c :: rest =>
    if Decimal.isDigit d then d :: c :: rest.takeWhile Decimal.isDigit else d :: c :: rest
  | value => value

/-- What it cuts off. -/
def cutOff : List Char → List Char
  | d :: _ :: rest => if Decimal.isDigit d then rest.dropWhile Decimal.isDigit else []
  | _ => []

theorem keptFront_append_cutOff (value : List Char) : keptFront value ++ cutOff value = value := by
  unfold keptFront cutOff
  split
  · split
    · simp [List.takeWhile_append_dropWhile]
    · simp
  · exact List.append_nil _

theorem keptFront_eq_self (huncut : cutOff value = []) : keptFront value = value := by
  simpa [huncut] using keptFront_append_cutOff value

/-- What is kept of a number is a confidence for the reader, or nothing is cut off. -/
theorem confidenceAtStart?_cases (hline : '\n' ∉ value) :
    confidenceAtStart? (':' :: value) = some (':' :: keptFront value) ∨
      confidenceAtStart? (':' :: value) = none ∧ cutOff value = [] := by
  cases value with
  | nil => exact .inr ⟨rfl, rfl⟩
  | cons d value =>
      cases value with
      | nil => exact .inr ⟨rfl, rfl⟩
      | cons c rest =>
          have hc : (c != '\n') = true := by
            rw [bne_iff_ne]
            rintro rfl
            exact hline (by simp)
          cases hd : Decimal.isDigit d with
          | false => exact .inr (by simp [confidenceAtStart?, cutOff, hd])
          | true => exact .inl (by simp [confidenceAtStart?, keptFront, hd, hc])

end Frame

/-! ## Words with a confidence -/

/-- A word and, behind a colon, a number. -/
structure RatedWord where
  word : String
  value : String
  isWord : Text.IsWord word
  unmarked : ∀ c ∈ word.toList, Frame.isMark c = false
  number : Decimal.isNumber value = true

namespace RatedWord

variable (item : RatedWord) {c : Char}

/-- The word with its confidence, as it is written. -/
def text : String :=
  item.word ++ String.ofList (':' :: item.value.toList)

/-- The number that is written behind the colon. -/
def confidence : Float :=
  (Decimal.float? item.value).get (by rw [Decimal.float?_isSome]; exact item.number)

/-- What a search reads. -/
def token : Token where
  word := item.word
  confidence := item.confidence

theorem toList_text : item.text.toList = item.word.toList ++ ':' :: item.value.toList := by
  simp [text]

theorem float?_value : Decimal.float? item.value = some item.confidence :=
  Option.some_get _ |>.symm

theorem notMem_value (hnumeral : Decimal.isNumeral c = false) : c ∉ item.value.toList := by
  intro hc
  rw [Decimal.isNumeral_of_isNumber item.number c hc] at hnumeral
  exact absurd hnumeral (by decide)

theorem colon_notMem_word : ':' ∉ item.word.toList :=
  Frame.colon_notMem_of_unmarked item.unmarked

theorem colon_notMem_value : ':' ∉ item.value.toList :=
  item.notMem_value (by decide)

theorem isBlank_of_mem_value (hc : c ∈ item.value.toList) : Text.isBlank c = false :=
  Decimal.not_isBlank_of_isNumeral (Decimal.isNumeral_of_isNumber item.number c hc)

theorem isWord_text : Text.IsWord item.text := by
  constructor
  · rw [toList_text]
    simp
  · intro c hc
    rw [toList_text, List.mem_append, List.mem_cons] at hc
    rcases hc with hc | rfl | hc
    · exact item.isWord.solid c hc
    · decide
    · exact item.isBlank_of_mem_value hc

theorem angle_notMem_text : ∀ c ∈ item.text.toList, c ≠ '<' ∧ c ≠ '>' := by
  intro c hc
  rw [toList_text, List.mem_append, List.mem_cons] at hc
  rcases hc with hc | rfl | hc
  · have hunmarked := item.unmarked c hc
    simp only [Frame.isMark, Bool.or_eq_false_iff, beq_eq_false_iff_ne] at hunmarked
    exact hunmarked.1
  · decide
  · constructor
    · rintro rfl
      exact item.notMem_value (by decide) hc
    · rintro rfl
      exact item.notMem_value (by decide) hc

/-- A search reads a word with its confidence. -/
theorem read_text : Token.read item.text = .ok item.token := by
  rw [Token.read, text, Frame.splitAtLastColon?_append item.colon_notMem_value]
  simp only [String.ofList_toList, float?_value]
  rfl

/-! ## The words that are read -/

/-- What a reader keeps of the confidence. -/
def kept : List Char :=
  Frame.keptFront item.value.toList

/-- What it cuts off. -/
def off : List Char :=
  Frame.cutOff item.value.toList

theorem kept_append_off : item.kept ++ item.off = item.value.toList :=
  Frame.keptFront_append_cutOff item.value.toList

/-- The words that a frame is read of: the word with what is kept of its confidence, and what
is cut off. -/
def cut : List String :=
  (item.word ++ String.ofList (':' :: item.kept)) :: Text.words (String.ofList item.off)

theorem cut_eq_singleton (huncut : item.off = []) :
    item.cut = [item.text] := by
  rw [cut, huncut, kept, Frame.keptFront_eq_self huncut]
  rfl

theorem mem_value_of_mem_kept (hc : c ∈ item.kept) :
    c ∈ item.value.toList := by
  rw [← item.kept_append_off]
  exact List.mem_append_left _ hc

theorem mem_value_of_mem_off (hc : c ∈ item.off) :
    c ∈ item.value.toList := by
  rw [← item.kept_append_off]
  exact List.mem_append_right _ hc

theorem colon_notMem_off : ':' ∉ item.off :=
  fun hmem => item.colon_notMem_value (item.mem_value_of_mem_off hmem)

theorem wordsOf_off (hcut : item.off ≠ []) : Text.wordsOf item.off = [item.off] :=
  Text.wordsOf_of_solid hcut fun _ hc =>
    item.isBlank_of_mem_value (item.mem_value_of_mem_off hc)

theorem length_cut_eq_one_iff : item.cut.length = 1 ↔ item.off = [] := by
  constructor
  · intro hlength
    refine Decidable.byContradiction fun hcut => ?_
    rw [cut, Text.words, String.toList_ofList, item.wordsOf_off hcut] at hlength
    exact absurd hlength (by simp)
  · intro huncut
    rw [item.cut_eq_singleton huncut]
    rfl

theorem toList_cut : item.cut.map (·.toList) =
    (item.word.toList ++ ':' :: item.kept) :: Text.wordsOf item.off := by
  simp [cut, Text.words, Function.comp_def]

theorem isWord_cut : ∀ word ∈ item.cut, Text.IsWord word := by
  intro word hword
  rcases List.mem_cons.mp hword with rfl | hword
  · constructor
    · simp
    · intro c hc
      rw [String.toList_append, String.toList_ofList, List.mem_append, List.mem_cons] at hc
      rcases hc with hc | rfl | hc
      · exact item.isWord.solid c hc
      · decide
      · exact item.isBlank_of_mem_value (item.mem_value_of_mem_kept hc)
  · exact Text.isWord_of_mem_words hword

theorem head?_text : item.text.toList.head? ≠ some ':' := by
  have hword : item.word.toList.head?.isSome := by simpa using item.isWord.nonempty
  rw [toList_text, List.head?_append, Option.or_of_isSome hword]
  exact Frame.head?_ne_of_notMem item.colon_notMem_word

/-- Where a reader finds no confidence it leaves the word alone. -/
theorem parts_of_none (hnone : Frame.confidenceAtStart? (':' :: item.value.toList) = none) :
    Frame.parts item.text = [item.text.toList] := by
  have hvalue : Frame.confidence? item.value.toList = none := by
    have h := Frame.confidence?_append item.colon_notMem_value []
    rwa [List.append_nil] at h
  have hfound : Frame.confidence? item.text.toList = none := by
    rw [toList_text, Frame.confidence?_append item.colon_notMem_word, Frame.confidence?, hnone,
      hvalue]
    rfl
  rw [Frame.parts, Frame.spaceConfidence, hfound,
    Text.wordsOf_of_solid item.isWord_text.nonempty item.isWord_text.solid]

/-- Where it finds one, this is what it keeps. -/
theorem parts_of_found
    (hfound : Frame.confidenceAtStart? (':' :: item.value.toList) = some (':' :: item.kept)) :
    Frame.parts item.text = item.word.toList :: (':' :: item.kept) :: Text.wordsOf item.off := by
  have hsplit := item.kept_append_off
  have htoken : item.text.toList = item.word.toList ++ ':' :: (item.kept ++ item.off) := by
    rw [hsplit, toList_text]
  refine Frame.parts_of_confidence item.isWord_text htoken item.isWord.nonempty
    item.colon_notMem_word item.colon_notMem_off ?_
  rw [hsplit, hfound]

/-- What is kept is joined to the word again, what is cut off is not. -/
theorem joinColons_cut (rest : List Char) :
    Frame.joinColons
        (Frame.joinWords (item.word.toList :: (':' :: item.kept) :: Text.wordsOf item.off) ++ rest) =
      Frame.joinWords (item.cut.map (·.toList)) ++ Frame.joinColons rest := by
  have hword : ' ' ∉ item.word.toList := Frame.space_notMem item.isWord
  have hvalue : ' ' ∉ item.value.toList := item.notMem_value (by decide)
  have hkept : ' ' ∉ item.kept := fun hmem => hvalue (item.mem_value_of_mem_kept hmem)
  have hoff : ' ' ∉ item.off := fun hmem => hvalue (item.mem_value_of_mem_off hmem)
  rw [toList_cut]
  by_cases hcut : item.off = []
  · have hjoined := Frame.joinColons_rated hword hkept rest
    rw [hcut, Text.wordsOf_nil, Frame.joinWords_cons_cons, Frame.joinWords_singleton,
      Frame.joinWords_singleton]
    simpa using hjoined
  · have hhead : (item.off ++ rest).head? ≠ some ':' := by
      rw [List.head?_append, Option.or_of_isSome (by simpa using hcut)]
      exact Frame.head?_ne_of_notMem item.colon_notMem_off
    have hjoined := Frame.joinColons_rated hword hkept (' ' :: (item.off ++ rest))
    rw [Frame.joinColons_cons (.inr hhead), Frame.joinColons_append hoff] at hjoined
    rw [item.wordsOf_off hcut, Frame.joinWords_cons_cons, Frame.joinWords_cons_cons,
      Frame.joinWords_cons_cons, Frame.joinWords_singleton]
    simpa using hjoined

/-- A word with a confidence is read as the word with what is kept of the confidence, and what
is cut off as a word of its own. -/
theorem readAs : Frame.ReadAs item.text item.cut := by
  have hwhole : Text.wordsOf (Frame.spaceTags item.text.toList) = [item.text.toList] := by
    rw [Frame.spaceTags_eq_self item.angle_notMem_text,
      Text.wordsOf_of_solid item.isWord_text.nonempty item.isWord_text.solid]
  have hline : '\n' ∉ item.value.toList := item.notMem_value (by decide)
  rcases Frame.confidenceAtStart?_cases hline with hfound | ⟨hnone, huncut⟩
  · have hparts := item.parts_of_found hfound
    refine ⟨hwhole, by simp [cut], item.isWord_cut, by simp [hparts], fun others => ?_,
      fun rest => ?_⟩
    · rw [hparts, List.cons_append, Frame.head?_joinWords item.isWord.nonempty]
      exact Frame.head?_ne_of_notMem item.colon_notMem_word
    · rw [hparts, joinColons_cut]
  · have hparts := item.parts_of_none hnone
    refine ⟨hwhole, by simp [cut], item.isWord_cut, by simp [hparts], fun others => ?_,
      fun rest => ?_⟩
    · rw [hparts, List.singleton_append, Frame.head?_joinWords item.isWord_text.nonempty]
      exact item.head?_text
    · rw [hparts, item.cut_eq_singleton huncut, List.map_singleton, Frame.joinWords_singleton,
        Frame.joinColons_append (Frame.space_notMem item.isWord_text)]

/-! ## Lower case -/

theorem facesCased_colon (cs : List Char) : Text.facesCased (':' :: cs) = Text.facesCased cs := by
  have hignored : Text.isCaseIgnorable ':' = true := by decide
  rw [Text.facesCased, List.dropWhile_cons, if_pos hignored, ← Text.facesCased]

/-- Numbers are put into lower case character by character. -/
theorem lowerAfter_numerals {cs : List Char} (hcs : ∀ c ∈ cs, Decimal.isNumeral c = true)
    (before : List Char) :
    Text.lowerAfter before (':' :: cs) = ':' :: cs.map Char.toLower := by
  have hascii : ∀ c ∈ ':' :: cs, c.toNat < 0x80 := by
    intro c hc
    rcases List.mem_cons.mp hc with rfl | hc
    · decide
    · have hrange := Decimal.toNat_of_isNumeral (hcs c hc)
      omega
  have hsigma : 'Σ' ∉ ':' :: cs := fun hmem => absurd (hascii 'Σ' hmem) (by decide)
  have hcolon : Char.toLower ':' = ':' := by decide
  calc Text.lowerAfter before (':' :: cs)
      = (':' :: cs).flatMap Text.lowerChar := Text.lowerAfter_eq_flatMap hsigma
    _ = (':' :: cs).flatMap fun c => [c.toLower] := by
        rw [List.flatMap_def, List.map_congr_left fun c hc => Text.lowerChar_ascii (hascii c hc),
          ← List.flatMap_def]
    _ = ':' :: cs.map Char.toLower := by rw [← List.map_eq_flatMap, List.map_cons, hcolon]

/-- In lower case, what stands behind the colon is the same number as before, or none. -/
theorem read_lower_of_numerals {cs : List Char} (hcs : ∀ c ∈ cs, Decimal.isNumeral c = true)
    (word : String) :
    Token.read (Text.lower (word ++ String.ofList (':' :: cs))) =
      match Decimal.float? (String.ofList cs) with
      | some confidence =>
        .ok { word := String.ofList (Text.lowerBetween [] word.toList (':' :: cs)), confidence }
      | none => .error (.invalidConfidence (Text.lower (word ++ String.ofList (':' :: cs)))
          (String.ofList (cs.map Char.toLower))) := by
  have hcolon : ':' ∉ cs.map Char.toLower := by
    intro hmem
    obtain ⟨c, hc, hlower⟩ := List.mem_map.mp hmem
    rw [Decimal.toLower_eq_iff (by decide)] at hlower
    exact absurd (hcs c hc) (hlower ▸ by decide)
  have hlower : Text.lower (word ++ String.ofList (':' :: cs)) =
      String.ofList (Text.lowerBetween [] word.toList (':' :: cs)) ++
        String.ofList (':' :: cs.map Char.toLower) := by
    rw [Text.lower, String.toList_append, String.toList_ofList, Text.lowerAfter_append_eq,
      lowerAfter_numerals hcs, String.ofList_append]
  have hsplit := Frame.splitAtLastColon?_append hcolon
    (String.ofList (Text.lowerBetween [] word.toList (':' :: cs)))
  cases hvalue : Decimal.float? (String.ofList cs) with
  | none => simp only [Token.read, hlower, hsplit, Decimal.float?_map_toLower, hvalue]
  | some confidence => simp only [Token.read, hlower, hsplit, Decimal.float?_map_toLower, hvalue]

/-- What a reader of frames reads: the lower case of the word is taken in front of its
confidence. -/
def heard : Token where
  word := String.ofList (Text.lowerBetween [] item.word.toList (':' :: item.value.toList))
  confidence := item.confidence

theorem read_lower : Token.read (Text.lower item.text) = .ok item.heard := by
  rw [text, read_lower_of_numerals (Decimal.isNumeral_of_isNumber item.number),
    String.ofList_toList, float?_value]
  rfl

/-- In front of a letter a capital sigma at the end of the word is put into the wrong lower
case. -/
theorem heard_eq_lowered_iff : item.heard = item.token.lowered ↔
    ¬ (Text.facesCased item.value.toList = true ∧ Text.EndsInSigma [] item.word.toList) := by
  have hword : item.heard = item.token.lowered ↔
      Text.lowerBetween [] item.word.toList (':' :: item.value.toList) =
        Text.lowerAfter [] item.word.toList := by
    rw [heard, Token.lowered, Token.mk.injEq, token, Text.lower, String.ofList_inj,
      and_iff_left rfl]
  rw [hword, ← facesCased_colon]
  cases hcased : Text.facesCased (':' :: item.value.toList) with
  | false => simpa using Text.lowerBetween_of_facesCased hcased [] item.word.toList
  | true => simpa using Text.lowerBetween_eq_iff hcased

/-- The word is read by frames as it is by a search: its confidence is kept whole, and its last
letter is no capital sigma in front of a letter. -/
structure ReadsWhole : Prop where
  uncut : item.off = []
  lowered : ¬ (Text.facesCased item.value.toList = true ∧
    Text.EndsInSigma [] item.word.toList)

/-- What is cut off can be read, what is kept only if it is a number. -/
theorem exists_read_cut_iff :
    (∀ word ∈ item.cut, ∃ spoken, Token.read (Text.lower word) = .ok spoken) ↔
      Decimal.isNumber (String.ofList item.kept) = true := by
  have hnumerals : ∀ c ∈ item.kept, Decimal.isNumeral c = true :=
    fun c hc => Decimal.isNumeral_of_isNumber item.number c (item.mem_value_of_mem_kept hc)
  have hrest : ∀ word ∈ Text.words (String.ofList item.off),
      ∃ spoken, Token.read (Text.lower word) = .ok spoken := by
    intro word hword
    have hcolon : ':' ∉ word.toList := by
      by_cases hcut : item.off = []
      · rw [hcut] at hword
        exact absurd hword List.not_mem_nil
      · rw [Text.words, String.toList_ofList, item.wordsOf_off hcut] at hword
        rw [List.mem_singleton.mp hword, String.toList_ofList]
        exact item.colon_notMem_off
    exact ⟨_, Frame.read_of_notMem fun h => hcolon (Text.mem_of_mem_lower h (by decide))⟩
  rw [cut, List.forall_mem_cons, and_iff_left hrest, read_lower_of_numerals hnumerals,
    ← Decimal.float?_isSome]
  cases Decimal.float? (String.ofList item.kept) <;> simp

theorem tagName?_heard : Tag.tagName? item.heard.word = none := by
  refine Tag.tagName?_eq_none_of_notMem fun hangle => ?_
  have hlower : '<' ∈ (Text.lower item.text).toList := by
    rw [heard, String.toList_ofList] at hangle
    rw [Text.lower, String.toList_ofList, toList_text, Text.lowerAfter_append_eq]
    exact List.mem_append_left _ hangle
  exact (item.angle_notMem_text '<' (Text.mem_of_mem_lower hlower (by decide))).1 rfl

theorem tagName?_lowered : Tag.tagName? item.token.lowered.word = none := by
  rw [Frame.word_lowered_of_read item.read_text]
  exact Frame.tagName?_observation_eq_none fun hangle => (item.angle_notMem_text '<' hangle).1 rfl

end RatedWord

/-! ## Texts of words with a confidence -/

namespace Frame

variable {items : List RatedWord}

/-- The words that a text is read of, whatever its confidences look like. -/
theorem normalWords_rated (items : List RatedWord) :
    normalWords (Text.unwords (items.map (·.text))) =
      (items.flatMap (·.cut)).map Text.lower :=
  normalWords_of_readAs fun item _ => item.readAs

theorem normalWords_of_uncut (huncut : ∀ item ∈ items, item.off = []) :
    normalWords (Text.unwords (items.map (·.text))) = items.map fun item => Text.lower item.text := by
  rw [normalWords_rated]
  induction items with
  | nil => rfl
  | cons item items ih =>
      obtain ⟨hitem, hrest⟩ := List.forall_mem_cons.mp huncut
      rw [List.flatMap_cons, item.cut_eq_singleton hitem, List.singleton_append, List.map_cons,
        ih hrest, List.map_cons]

/-- A word is read of each item, and more where something is cut off. -/
theorem length_flatMap_cut_le (items : List RatedWord) :
    items.length ≤ (items.flatMap (·.cut)).length := by
  induction items with
  | nil => exact Nat.le_refl _
  | cons item items ih =>
      rw [List.flatMap_cons, List.length_append, List.length_cons, RatedWord.cut, List.length_cons]
      omega

theorem uncut_of_length (hlength : (items.flatMap (·.cut)).length ≤ items.length) :
    ∀ item ∈ items, item.off = [] := by
  induction items with
  | nil => simp
  | cons item items ih =>
      have hrest := length_flatMap_cut_le items
      have hpositive : 0 < item.cut.length := by simp [RatedWord.cut]
      rw [List.flatMap_cons, List.length_append, List.length_cons] at hlength
      refine List.forall_mem_cons.mpr ⟨item.length_cut_eq_one_iff.mp (by omega), ih (by omega)⟩

/-- The frame of some words with the confidences that a search reads.  Without words there is
none. -/
def rated? (items : List RatedWord) : Option Frame :=
  if items.isEmpty then none
  else some
    { tokens := items.map fun item => item.token.lowered, strict := false, unmatchedClosings := [] }

/-- A repair leaves words alone. -/
theorem run_lowered (items : List RatedWord) :
    Repair.run (items.map fun item => item.token.lowered) =
      (items.map fun item => item.token.lowered, []) :=
  Repair.run_of_untagged (by simpa using fun item _ => RatedWord.tagName?_lowered item)

theorem read_of_readsWhole (hitems : ∀ item ∈ items, item.ReadsWhole) :
    read (Text.unwords (items.map (·.text))) false = .ok (rated? items) := by
  have hwords := normalWords_of_uncut fun item hitem => (hitems item hitem).uncut
  have hread : Token.readAll (items.map fun item => Text.lower item.text) =
      .ok (items.map fun item => item.token.lowered) := by
    refine readAll_map fun item hitem => ?_
    rw [item.read_lower, item.heard_eq_lowered_iff.mpr (hitems item hitem).lowered]
  have hrun : Repair.run (items.map fun item => item.token.lowered) =
      (items.map fun item => item.token.lowered, []) := run_lowered items
  cases items with
  | nil =>
      unfold read
      rw [hwords]
      rfl
  | cons first others =>
      refine read_eq_ok hwords (by simp) hread ?_
      simp only [ofRepaired, hrun, ofTokens]
      rfl

theorem readsWhole_of_read
    (hread : read (Text.unwords (items.map (·.text))) false = .ok (rated? items)) :
    ∀ item ∈ items, item.ReadsWhole := by
  cases hitems : items.isEmpty with
  | true => simp [List.isEmpty_iff.mp hitems]
  | false =>
      rw [rated?, hitems] at hread
      obtain ⟨spoken, hspoken, htokens, -⟩ := exists_readAll_of_read hread
      -- a repair drops no tokens, so no word is too many
      have huncut : ∀ item ∈ items, item.off = [] := by
        have hlength := length_readAll hspoken
        have hrun := Repair.length_add_countP_le [] spoken
        rw [normalWords_rated, List.length_map] at hlength
        rw [← Repair.run, ← htokens, List.length_map] at hrun
        exact uncut_of_length (by omega)
      have hheard : spoken = items.map (·.heard) := by
        rw [normalWords_of_uncut huncut, readAll_map fun item _ => item.read_lower] at hspoken
        exact (Except.ok.inj hspoken).symm
      have huntagged : ∀ token ∈ spoken, Tag.tagName? token.word = none := by
        rw [hheard]
        simpa using fun item _ => RatedWord.tagName?_heard item
      rw [Repair.run_of_untagged huntagged, hheard] at htokens
      intro item hitem
      have hsame : item.token.lowered = item.heard := List.map_inj_left.mp htokens item hitem
      exact ⟨huncut item hitem, item.heard_eq_lowered_iff.mp hsame.symm⟩

/-- A text can be read if what is kept of each confidence is a number. -/
theorem exists_read_rated_iff (items : List RatedWord) :
    (∃ frame, read (Text.unwords (items.map (·.text))) false = .ok frame) ↔
      ∀ item ∈ items, Decimal.isNumber (String.ofList item.kept) = true := by
  simp only [exists_read_iff, exists_readAll_iff, normalWords_rated, List.forall_mem_map,
    List.forall_mem_flatMap]
  exact forall₂_congr fun item _ => item.exists_read_cut_iff

/-- A search reads each word with its confidence, and compares the word in lower case.  A reader
of frames reads the same words, of which a repair leaves each alone, exactly if none of them is
written such that something of it is cut off or put into another lower case. -/
theorem read_rated_iff (items : List RatedWord) :
    Token.readAll (items.map (·.text)) = .ok (items.map (·.token)) ∧
      (items.map fun item => item.token.lowered.word) =
        items.map (fun item => Token.observation item.text) ∧
      Repair.run (items.map fun item => item.token.lowered) =
        (items.map fun item => item.token.lowered, []) ∧
      (read (Text.unwords (items.map (·.text))) false = .ok (rated? items) ↔
        ∀ item ∈ items, item.ReadsWhole) := by
  refine ⟨readAll_map fun item _ => item.read_text, List.map_congr_left fun item _ => ?_,
    run_lowered items, readsWhole_of_read, read_of_readsWhole⟩
  exact word_lowered_of_read item.read_text

/-- A word with a number that has an exponent behind one digit. -/
def tinyRated : RatedWord where
  word := "climb"
  value := "1e-5"
  isWord := ⟨by decide, Text.solid_of_all (by decide)⟩
  unmarked := by simp [Frame.isMark]
  number := by decide

/-- A number with a signed exponent makes a text unreadable. -/
theorem not_forall_read_rated :
    ¬ ∀ items : List RatedWord,
      read (Text.unwords (items.map (·.text))) false = .ok (rated? items) := by
  intro hall
  have hread := (exists_read_rated_iff [tinyRated]).mp ⟨_, hall [tinyRated]⟩
  exact absurd (hread tinyRated List.mem_cons_self) (by decide)

end Frame

end Phraseology
