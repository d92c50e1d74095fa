import Phraseology.Proofs.Frame.Reading
import Phraseology.Proofs.Text.Respelling

/-!
# How tagged text may be laid out

A tagged text is made of tags and spoken words, some of them with a confidence (`Item`).  They may
be set apart by any number of blanks, and none is needed next to a tag; letters of ASCII may stand
in either case (`Layout`).  Whatever the layout, spacing out the tags cuts the text into its items
as they are spelled in it (`exists_spelled`).  A spelled item is not changed any further, as its
letter case makes it neither longer nor shorter and moves no sign (`Item.readAs`).  So a text is
read as one token for each item, and as if single spaces stood between the items
(`read_of_layout`).
-/

namespace Phraseology.Frame

/-! ## Items -/

/-- What a tagged text is made of: a plain tag, or a word that may have a confidence behind it. -/
inductive Item where
  | tag (text : String) (plain : Tag.Plain text)
  | word (text : String) (single : Text.IsWord text)
      (unmarked : ∀ c ∈ text.toList, isMark c = false)
  | rated (text : String) (single : Text.IsWord text)
      (unmarked : ∀ c ∈ text.toList, isMark c = false) (digit : Char) (digits : List Char)
      (first : Decimal.isDigit digit = true) (others : ∀ c ∈ digits, Decimal.isDigit c = true)

namespace Item

/-- An item as it is written plainly. -/
def text : Item → String
  | tag text _ => text
  | word text _ _ => text
  | rated text _ _ digit digits _ _ => text ++ rating digit digits

/-- What an item is read as. -/
def token : Item → Token
  | tag text _ => Token.plain text
  | word text _ _ => Token.plain (Text.lower text)
  | rated text _ _ _ _ first others =>
    { word := Text.lower text, confidence := ratingValue first others }

/-- Whether an item is a tag. -/
def isTag : Item → Bool
  | tag .. => true
  | _ => false

end Item

/-- Whether a word may end in front of some characters. -/
def boundsWord : List Char → Bool
  | [] => true
  | c :: _ => Text.isBlank c || c == '<'

/-- The texts that are made of some items.  A tag may be followed by anything, a word only by what
can end it. -/
inductive Layout : List Item → List Char → Prop
  | nil : Layout [] []
  | blank {items : List Item} {c : Char} {cs : List Char} (hblank : Text.isBlank c = true)
      (hlayout : Layout items cs) : Layout items (c :: cs)
  | item {item : Item} {items : List Item} {cs rest : List Char}
      (hspelled : Text.Respells cs item.text.toList)
      (hbehind : item.isTag = true ∨ boundsWord rest = true) (hlayout : Layout items rest) :
      Layout (item :: items) (cs ++ rest)

variable {item : Item} {items : List Item} {cs rest : List Char} {c digit : Char}
  {digits : List Char}

/-! ## Items in either letter case -/

theorem isMark_toLower (c : Char) : isMark c.toLower = isMark c := by
  rw [Bool.eq_iff_iff]
  simp only [isMark, Bool.or_eq_true, beq_iff_eq]
  rw [Decimal.toLower_eq_iff (by decide), Decimal.toLower_eq_iff (by decide),
    Decimal.toLower_eq_iff (by decide)]

theorem ne_of_isMark {other : Char} (hc : isMark c = false) (hother : isMark other = true) :
    c ≠ other := by
  rintro rfl
  rw [hc] at hother
  exact absurd hother (by decide)

theorem isMark_of_isInside (hinside : Tag.isInside c = true) : isMark c = false := by
  simp only [isMark, Bool.or_eq_false_iff, beq_eq_false_iff_ne]
  exact ⟨⟨Tag.ne_of_isInside hinside (by decide), Tag.ne_of_isInside hinside (by decide)⟩,
    Tag.ne_of_isInside hinside (by decide)⟩

/-- What a confidence is written with: signs and digits, which have no letter case. -/
theorem mem_rating_cases (hdigit : Decimal.isDigit digit = true)
    (hdigits : ∀ c ∈ digits, Decimal.isDigit c = true) (hc : c ∈ (rating digit digits).toList) :
    c = ':' ∨ c = '.' ∨ Decimal.isDigit c = true := by
  rw [rating, String.toList_ofList, List.mem_cons, List.mem_cons, List.mem_cons] at hc
  rcases hc with rfl | rfl | rfl | hc
  · exact .inl rfl
  · exact .inr (.inr hdigit)
  · exact .inr (.inl rfl)
  · exact .inr (.inr (hdigits c hc))

theorem isSolid_rating (hdigit : Decimal.isDigit digit = true)
    (hdigits : ∀ c ∈ digits, Decimal.isDigit c = true) : Text.IsSolid (rating digit digits) := by
  intro c hc
  rcases mem_rating_cases hdigit hdigits hc with rfl | rfl | hc
  · decide
  · decide
  · exact Decimal.not_isBlank_of_isNumeral (Decimal.isNumeral_of_isDigit hc)

/-- A confidence is spelled in one way only. -/
theorem eq_rating_of_respells (hspelled : Text.Respells cs (rating digit digits).toList)
    (hdigit : Decimal.isDigit digit = true) (hdigits : ∀ c ∈ digits, Decimal.isDigit c = true) :
    cs = (rating digit digits).toList := by
  refine hspelled.eq_of_signs fun c hc => ?_
  rcases mem_rating_cases hdigit hdigits hc with rfl | rfl | hc
  · decide
  · decide
  · have hrange := Decimal.isDigit_iff.mp hc
    omega

/-- The angles of a tag stand in any spelling, and no other mark does. -/
theorem exists_inside_of_isTag (hkind : item.isTag = true)
    (hspelled : Text.Respells cs item.text.toList) :
    ∃ inside, cs = '<' :: (inside ++ ['>']) ∧ ∀ c ∈ inside, isMark c = false := by
  have hplain : Tag.Plain item.text := by
    cases item with
    | tag text plain => exact plain
    | word => cases hkind
    | rated => cases hkind
  obtain ⟨inside, htag, hinside⟩ := hplain.exists_inside
  rw [htag, ← List.singleton_append] at hspelled
  obtain ⟨first, more, rfl, hfirst, hmore⟩ := hspelled.exists_append
  obtain ⟨middle, last, rfl, hmiddle, hlast⟩ := hmore.exists_append
  obtain rfl := hfirst.eq_of_signs (by simp)
  obtain rfl := hlast.eq_of_signs (by simp)
  exact ⟨middle, rfl, hmiddle.forall_mem isMark_toLower fun d hd =>
    isMark_of_isInside (hinside d hd)⟩

theorem isWord_of_respells {first second : String} (hword : Text.IsWord second)
    (hspelled : Text.Respells first.toList second.toList) : Text.IsWord first :=
  ⟨hspelled.ne_nil hword.nonempty, hspelled.forall_mem Text.isBlank_toLower hword.solid⟩

/-! ## Items in a text -/

theorem spaceTags_blank (hblank : Text.isBlank c = true) (rest : List Char) :
    spaceTags (c :: rest) = c :: spaceTags rest := by
  have hangle : ∀ other ∈ [c], other ≠ '<' ∧ other ≠ '>' := by
    rw [List.forall_mem_singleton]
    constructor <;>
    · rintro rfl
      exact absurd hblank (by decide)
  rw [← List.singleton_append, spaceTags_append, spaceTags_eq_self hangle, List.singleton_append]

/-- Where a word may end, it is followed by a blank once the tags are spaced out. -/
theorem wordsOf_append_spaceTags (hbounds : boundsWord rest = true) (cs : List Char) :
    Text.wordsOf (cs ++ spaceTags rest) = Text.wordsOf cs ++ Text.wordsOf (spaceTags rest) := by
  cases rest with
  | nil => simp [spaceTags]
  | cons c rest =>
      rw [boundsWord, Bool.or_eq_true, beq_iff_eq] at hbounds
      rcases hbounds with hblank | rfl
      · rw [spaceTags_blank hblank, Text.wordsOf_append_blank hblank, Text.wordsOf_blank hblank]
      · have hspace : spaceTags ('<' :: rest) = ' ' :: '<' :: spaceTags rest := rfl
        rw [hspace, Text.wordsOf_append_space, Text.wordsOf_space]

namespace Item

theorem isWord_text (item : Item) : Text.IsWord item.text := by
  cases item with
  | tag text plain => exact plain.isWord
  | word text single _ => exact single
  | rated text single _ digit digits first others =>
      exact single.append (isSolid_rating first others)

/-- A word is one in any spelling, and keeps its confidence. -/
theorem spoken_of_respells {token : String} (hkind : item.isTag = false)
    (hspelled : Text.Respells token.toList item.text.toList) : Spoken token := by
  cases item with
  | tag text plain => cases hkind
  | word text single unmarked => exact .plain (hspelled.forall_mem isMark_toLower unmarked)
  | rated text single unmarked digit digits first others =>
      rw [Item.text, String.toList_append] at hspelled
      obtain ⟨front, rear, htoken, hfront, hrear⟩ := hspelled.exists_append
      obtain rfl := eq_rating_of_respells hrear first others
      have hcut : token = String.ofList front ++ rating digit digits := by
        rw [← String.toList_inj, htoken, String.toList_append, String.toList_ofList]
      have hunmarked : ∀ c ∈ (String.ofList front).toList, isMark c = false := by
        rw [String.toList_ofList]
        exact hfront.forall_mem isMark_toLower unmarked
      have hnonempty : String.ofList front ≠ "" := by
        intro hempty
        exact hfront.ne_nil single.nonempty (String.ofList_eq_empty_iff.mp hempty)
      rw [hcut]
      exact .rated hunmarked hnonempty first others

/-- A tag is cut off whatever follows it, and a word where it may end. -/
theorem wordsOf_spaceTags_append (hspelled : Text.Respells cs item.text.toList)
    (hbehind : item.isTag = true ∨ boundsWord rest = true) :
    Text.wordsOf (spaceTags (cs ++ rest)) = cs :: Text.wordsOf (spaceTags rest) := by
  have hsolid := hspelled.forall_mem Text.isBlank_toLower item.isWord_text.solid
  cases hkind : item.isTag with
  | true =>
      obtain ⟨inside, rfl, hinside⟩ := exists_inside_of_isTag hkind hspelled
      refine wordsOf_spaceTags_angled (fun c hc => ?_) hsolid rest
      exact ⟨ne_of_isMark (hinside c hc) (by decide), ne_of_isMark (hinside c hc) (by decide)⟩
  | false =>
      rw [hkind, Bool.false_eq_true, false_or] at hbehind
      have htoken : Text.Respells (String.ofList cs).toList item.text.toList := by
        rwa [String.toList_ofList]
      have hangle := (spoken_of_respells hkind htoken).angle_notMem
      rw [String.toList_ofList] at hangle
      rw [spaceTags_append, spaceTags_eq_self hangle, wordsOf_append_spaceTags hbehind,
        Text.wordsOf_of_solid (hspelled.ne_nil item.isWord_text.nonempty) hsolid]
      rfl

/-- An item that stands alone is left as it is spelled. -/
theorem readAs {token : String} (hspelled : Text.Respells token.toList item.text.toList) :
    ReadAs token [token] := by
  have hword := isWord_of_respells item.isWord_text hspelled
  cases hkind : item.isTag with
  | true =>
      have hwhole : Text.wordsOf (spaceTags (token.toList ++ [])) = [token.toList] :=
        wordsOf_spaceTags_append hspelled (.inl hkind)
      rw [List.append_nil] at hwhole
      obtain ⟨inside, htoken, hinside⟩ := exists_inside_of_isTag hkind hspelled
      -- a tag has no confidence, so nothing is cut off it
      refine readAs_of_notMem hword hwhole ?_
      rw [htoken]
      exact colon_notMem_angled fun hcolon => ne_of_isMark (hinside ':' hcolon) (by decide) rfl
  | false => exact (Legible.word hword (spoken_of_respells hkind hspelled)).readAs

/-- An item in lower case is read as its token. -/
theorem read_lower (item : Item) : Token.read (Text.lower item.text) = .ok item.token := by
  cases item with
  | tag text plain =>
      rw [Item.text, lower_tag plain]
      exact read_of_notMem (colon_notMem_of_plain plain)
  | word text single unmarked =>
      refine read_of_notMem fun hcolon => ?_
      exact colon_notMem_of_unmarked unmarked (Text.mem_of_mem_lower hcolon (by decide))
  | rated text single unmarked digit digits first others =>
      rw [Item.text, lower_rated first others]
      exact read_rated first others _

end Item

/-! ## Reading a layout -/

/-- Spacing out the tags cuts a text into its items, as they are spelled. -/
theorem exists_spelled (hlayout : Layout items cs) :
    ∃ spelled : List String, Text.wordsOf (spaceTags cs) = spelled.map (·.toList) ∧
      (∀ token ∈ spelled, ReadAs token [token]) ∧
      spelled.map Text.lower = items.map fun item => Text.lower item.text := by
  induction hlayout with
  | nil => exact ⟨[], rfl, by simp, rfl⟩
  | blank hblank _ ih =>
      rw [spaceTags_blank hblank, Text.wordsOf_blank hblank]
      exact ih
  | @item item items cs rest hspelled hbehind _ ih =>
      obtain ⟨spelled, hwords, hread, hlower⟩ := ih
      have htoken : Text.Respells (String.ofList cs).toList item.text.toList := by
        rwa [String.toList_ofList]
      refine ⟨String.ofList cs :: spelled, ?_, ?_, ?_⟩
      · rw [Item.wordsOf_spaceTags_append hspelled hbehind, hwords, List.map_cons,
          String.toList_ofList]
      · exact List.forall_mem_cons.mpr ⟨Item.readAs htoken, hread⟩
      · rw [List.map_cons, List.map_cons, hlower, Text.lower_of_respells htoken]

theorem normalWords_congr {first second : String}
    (hwords : Text.wordsOf (spaceTags first.toList) = Text.wordsOf (spaceTags second.toList)) :
    normalWords first = normalWords second := by
  rw [normalWords, normalWords, hwords]

/-- The words of a text are its items in lower case. -/
theorem normalWords_of_layout {text : String} (hlayout : Layout items text.toList) :
    normalWords text = items.map fun item => Text.lower item.text := by
  obtain ⟨spelled, hwords, hread, hlower⟩ := exists_spelled hlayout
  have hspaced : Text.wordsOf (spaceTags text.toList) =
      Text.wordsOf (spaceTags (Text.unwords spelled).toList) := by
    rw [hwords, wordsOf_spaceTags_unwords fun token htoken => (hread token htoken).whole]
  have hunwords : normalWords (Text.unwords (spelled.map id)) =
      (spelled.flatMap fun token => [token]).map Text.lower := normalWords_of_readAs hread
  rw [normalWords_congr hspaced, ← hlower]
  simpa using hunwords

/-- Items that are joined by single spaces are one of the layouts. -/
theorem layout_unwords (items : List Item) :
    Layout items (Text.unwords (items.map Item.text)).toList := by
  induction items with
  | nil => exact .nil
  | cons item items ih =>
      cases items with
      | nil =>
          have hlast : Layout [item] (item.text.toList ++ []) := .item rfl (.inr rfl) .nil
          simpa [Text.unwords] using hlast
      | cons second more =>
          rw [List.map_cons, List.map_cons, Text.toList_unwords, ← List.map_cons]
          exact .item rfl (.inr rfl) (.blank (by decide) ih)

/-- Whatever the spacing next to tags and the letter case, a text is read as one token for each of
its items, and so as if single spaces stood between them. -/
theorem read_of_layout {text : String} (hlayout : Layout items text.toList) (hitems : items ≠ [])
    (strict : Bool) :
    read text strict = (ofRepaired (items.map Item.token) strict).map some ∧
      read text strict = read (Text.unwords (items.map Item.text)) strict := by
  have hread : ∀ {other : String}, Layout items other.toList →
      read other strict = (ofRepaired (items.map Item.token) strict).map some := by
    intro other hother
    refine read_of_words (normalWords_of_layout hother) (by simpa using hitems) ?_
    exact readAll_map fun item _ => item.read_lower
  exact ⟨hread hlayout, (hread hlayout).trans (hread (layout_unwords items)).symm⟩

/-- The items of a sentence of one word. -/
def ratedSentence : List Item :=
  [.tag Tag.sentenceOpen Tag.plain_sentenceOpen,
    .rated "lufthansa" (by decide) (by simp [isMark]) '0' ['9', '3'] (by decide)
      (List.all_eq_true.mp (by decide)),
    .tag Tag.sentenceClose Tag.plain_sentenceClose]

theorem layout_ratedSentence : Layout ratedSentence "<S>Lufthansa:0.93</s> ".toList := by
  have hcut : "<S>Lufthansa:0.93</s> ".toList =
      "<S>".toList ++ ("Lufthansa:0.93".toList ++ ("</s>".toList ++ " ".toList)) := by decide
  rw [hcut]
  refine .item (by decide) (.inl rfl) (.item (by decide) (.inr (by decide)) ?_)
  exact .item (by decide) (.inl rfl) (.blank (by decide) .nil)

theorem read_ratedSentence :
    (Layout ratedSentence "<S>Lufthansa:0.93</s> ".toList ∧ ratedSentence ≠ []) ∧
      read "<S>Lufthansa:0.93</s> " true =
        (ofRepaired (ratedSentence.map Item.token) true).map some ∧
      read "<S>Lufthansa:0.93</s> " true =
        read (Text.unwords (ratedSentence.map Item.text)) true :=
  ⟨⟨layout_ratedSentence, by simp [ratedSentence]⟩,
    read_of_layout layout_ratedSentence (by simp [ratedSentence]) true⟩

end Phraseology.Frame
