import Phraseology.Proofs.Tag.Shape
import Phraseology.Proofs.Text.Words

/-!
# Plain tags

Grammars write their tags in three forms: `<name>`, `</name>` and
`<command="type">`, with names and types of small letters and underscores.  Such a
tag is a single word (`Plain.isWord`), with no angle between its two
(`Plain.exists_inside`), so it can be taken out of a text and leaves the words as they
were (`wordsOf_eraseTags_unwords`).  A closing tag of this form is the closing tag for
the name in it (`Plain.closingTag_eq_of_isClosing`).
-/

namespace Phraseology.Tag

/-- Whether a text is a name of small letters and underscores. -/
structure IsName (name : String) : Prop where
  nonempty : name.toList ≠ []
  letters : ∀ c ∈ name.toList, isNameChar c = true

/-- A tag in one of the forms that grammars use. -/
inductive Plain : String → Prop
  | opening {name : String} (named : IsName name) : Plain ("<" ++ name ++ ">")
  | closing {name : String} (named : IsName name) : Plain ("</" ++ name ++ ">")
  | command {type : String} (named : IsName type) : Plain ("<command=\"" ++ type ++ "\">")

theorem isName_s : IsName "s" :=
  ⟨by decide, List.all_eq_true.mp (by decide)⟩

theorem plain_sentenceOpen : Plain sentenceOpen :=
  .opening isName_s

theorem plain_sentenceClose : Plain sentenceClose :=
  .closing isName_s

/-! ## Between the angles -/

/-- Whether a character can stand between the angles of a plain tag. -/
def isInside (c : Char) : Bool :=
  isAttributedNameChar c || c == '/'

variable {c : Char} {tag name : String}

theorem toNat_of_isNameChar (hname : isNameChar c = true) :
    c.toNat = 0x5F ∨ (0x61 ≤ c.toNat ∧ c.toNat ≤ 0x7A) := by
  simp only [isNameChar, Bool.or_eq_true, Bool.and_eq_true, decide_eq_true_eq, beq_iff_eq] at hname
  rcases hname with ⟨hlow, hhigh⟩ | rfl
  · exact Or.inr ⟨UInt32.le_iff_toNat_le.mp hlow, UInt32.le_iff_toNat_le.mp hhigh⟩
  · exact Or.inl rfl

theorem isInside_of_isNameChar (hname : isNameChar c = true) : isInside c = true := by
  simp [isInside, isAttributedNameChar, hname]

theorem isBlank_of_isInside (hinside : isInside c = true) : Text.isBlank c = false := by
  simp only [isInside, isAttributedNameChar, Bool.or_eq_true, beq_iff_eq] at hinside
  rcases hinside with ((hname | rfl) | rfl) | rfl
  · have hrange := toNat_of_isNameChar hname
    simp only [Text.isBlank, Bool.or_eq_false_iff, Bool.and_eq_false_iff, decide_eq_false_iff_not,
      beq_eq_false_iff_ne]
    omega
  · decide
  · decide
  · decide

theorem ne_of_isInside {other : Char} (hinside : isInside c = true)
    (hother : isInside other = false) : c ≠ other := by
  rintro rfl
  rw [hinside] at hother
  exact absurd hother (by decide)

/-- What stands between the angles of a plain tag. -/
theorem Plain.exists_inside (hplain : Plain tag) :
    ∃ inside, tag.toList = '<' :: (inside ++ ['>']) ∧ ∀ c ∈ inside, isInside c = true := by
  cases hplain with
  | @opening name hname =>
      refine ⟨name.toList, by simp, fun c hc => ?_⟩
      exact isInside_of_isNameChar (hname.letters c hc)
  | @closing name hname =>
      refine ⟨'/' :: name.toList, by simp, fun c hc => ?_⟩
      rcases List.mem_cons.mp hc with rfl | hc
      · decide
      · exact isInside_of_isNameChar (hname.letters c hc)
  | @command type hname =>
      refine ⟨"command=\"".toList ++ type.toList ++ ['"'], by simp, fun c hc => ?_⟩
      rw [List.mem_append, List.mem_append, List.mem_singleton] at hc
      rcases hc with (hc | hc) | rfl
      · have hkeyword : "command=\"".toList.all isInside = true := by decide
        exact List.all_eq_true.mp hkeyword c hc
      · exact isInside_of_isNameChar (hname.letters c hc)
      · decide

/-- A plain tag is a single word. -/
theorem Plain.isWord (hplain : Plain tag) : Text.IsWord tag := by
  obtain ⟨inside, htag, hinside⟩ := hplain.exists_inside
  refine ⟨by simp [htag], fun c hc => ?_⟩
  rw [htag, List.mem_cons, List.mem_append, List.mem_singleton] at hc
  rcases hc with rfl | hc | rfl
  · decide
  · exact isBlank_of_isInside (hinside c hc)
  · decide

/-! ## Taking tags out -/

/-- The closing tag for a name without blanks is a single word. -/
theorem isWord_closingTag (hname : Text.IsSolid name) : Text.IsWord (closingTag name) := by
  have hcommand : Text.IsWord commandClose := by decide
  have hstart : Text.IsWord "</" := by decide
  unfold closingTag
  split
  · exact hcommand
  · exact (hstart.append hname).append (by decide)

theorem eraseTags_append {cs rest : List Char} (hnone : '<' ∉ cs) :
    eraseTags (cs ++ rest) = cs ++ eraseTags rest := by
  induction cs with
  | nil => rfl
  | cons c cs ih =>
      rw [List.mem_cons, not_or] at hnone
      rw [List.cons_append, eraseTags.eq_3 _ _ (Ne.symm hnone.1), ih hnone.2]
      rfl

/-- A plain tag is taken out as a whole. -/
theorem Plain.eraseTags_append (hplain : Plain tag) (rest : List Char) :
    eraseTags (tag.toList ++ rest) = ' ' :: eraseTags rest := by
  obtain ⟨inside, htag, hinside⟩ := hplain.exists_inside
  have hangle : (inside ++ '>' :: rest).dropWhile (· != '>') = '>' :: rest := by
    rw [List.dropWhile_append_of_pos]
    · rfl
    · intro c hc
      simpa using ne_of_isInside (hinside c hc) (by decide)
  have hwhole : tag.toList ++ rest = '<' :: (inside ++ '>' :: rest) := by simp [htag]
  rw [hwhole, eraseTags]
  split
  · next hnil =>
      rw [hangle] at hnil
      exact absurd hnil (by simp)
  · next c after hafter =>
      have hsame : '>' :: rest = c :: after := hangle.symm.trans hafter
      obtain rfl := (List.cons.inj hsame).2
      rfl

theorem eraseTags_space (rest : List Char) : eraseTags (' ' :: rest) = ' ' :: eraseTags rest :=
  eraseTags.eq_3 _ _ (by decide)

theorem wordsOf_eraseTags_space (rest : List Char) :
    Text.wordsOf (eraseTags (' ' :: rest)) = Text.wordsOf (eraseTags rest) := by
  rw [eraseTags_space, Text.wordsOf_space]

/-- A token that ends the text or is followed by a space is kept if it is a word. -/
theorem wordsOf_eraseTags_append {token : String} {behind : List Char}
    (htag : (tagName? token).isSome → Plain token)
    (hword : tagName? token = none → Text.IsWord token ∧ '<' ∉ token.toList)
    (hbehind : behind = [] ∨ ∃ more, behind = ' ' :: more) :
    Text.wordsOf (eraseTags (token.toList ++ behind)) =
      (untagged [token]).map (·.toList) ++ Text.wordsOf (eraseTags behind) := by
  cases hname : tagName? token with
  | some name =>
      have hplain := htag (Option.isSome_of_eq_some hname)
      rw [hplain.eraseTags_append, Text.wordsOf_space]
      simp [untagged, hname]
  | none =>
      obtain ⟨⟨hnonempty, hsolid⟩, hangle⟩ := hword hname
      have hkept : untagged [token] = [token] := by simp [untagged, hname]
      rw [eraseTags_append hangle, hkept]
      rcases hbehind with rfl | ⟨more, rfl⟩
      · simpa [eraseTags] using Text.wordsOf_of_solid hnonempty hsolid
      · rw [eraseTags_space, Text.wordsOf_append_space, Text.wordsOf_of_solid hnonempty hsolid,
          Text.wordsOf_space]
        rfl

/-- Of joined words and plain tags the words are left. -/
theorem wordsOf_eraseTags_unwords {tokens : List String}
    (htags : ∀ token ∈ tokens, (tagName? token).isSome → Plain token)
    (hwords : ∀ token ∈ tokens, tagName? token = none →
      Text.IsWord token ∧ '<' ∉ token.toList) :
    Text.wordsOf (eraseTags (Text.unwords tokens).toList) =
      (untagged tokens).map (·.toList) := by
  induction tokens with
  | nil => simp [Text.unwords, eraseTags, untagged]
  | cons first tokens ih =>
      have hfirst : first ∈ first :: tokens := List.mem_cons_self ..
      have hrest := ih (fun token htoken => htags token (List.mem_cons_of_mem _ htoken))
        fun token htoken => hwords token (List.mem_cons_of_mem _ htoken)
      have hsplit : untagged (first :: tokens) = untagged [first] ++ untagged tokens :=
        untagged_append [first] tokens
      rw [hsplit, List.map_append, ← hrest]
      cases tokens with
      | nil =>
          have hone := wordsOf_eraseTags_append (htags first hfirst) (hwords first hfirst)
            (Or.inl rfl)
          simpa [Text.unwords] using hone
      | cons second more =>
          rw [Text.toList_unwords, wordsOf_eraseTags_append (htags first hfirst)
            (hwords first hfirst) (Or.inr ⟨_, rfl⟩), wordsOf_eraseTags_space]

/-- Taking the tags out of joined words and plain tags leaves the joined words. -/
theorem stripTags_unwords {tokens : List String}
    (htags : ∀ token ∈ tokens, (tagName? token).isSome → Plain token)
    (hwords : ∀ token ∈ tokens, tagName? token = none →
      Text.IsWord token ∧ '<' ∉ token.toList) :
    stripTags (Text.unwords tokens) = Text.unwords (untagged tokens) := by
  have hback : (String.ofList ∘ fun token => token.toList) = id :=
    funext fun _ => String.ofList_toList
  rw [stripTags, wordsOf_eraseTags_unwords htags hwords, List.map_map, hback, List.map_id]

/-! ## Closing tags -/

theorem untilAngle?_append {cs rest : List Char} (hcs : ∀ c ∈ cs, isInside c = true) :
    untilAngle? (cs ++ '>' :: rest) = some cs := by
  induction cs with
  | nil => rfl
  | cons c cs ih =>
      have hc := hcs c (List.mem_cons_self ..)
      have hangle : (c == '>') = false := beq_eq_false_iff_ne.mpr (ne_of_isInside hc (by decide))
      have hfeed : (c == '\n') = false := beq_eq_false_iff_ne.mpr (ne_of_isInside hc (by decide))
      rw [List.cons_append, untilAngle?, hangle, hfeed,
        ih fun d hd => hcs d (List.mem_cons_of_mem _ hd)]
      rfl

theorem nameUntilAngle?_append {cs rest : List Char} (hnonempty : cs ≠ [])
    (hcs : ∀ c ∈ cs, isInside c = true) : nameUntilAngle? (cs ++ '>' :: rest) = some cs := by
  cases cs with
  | nil => exact absurd rfl hnonempty
  | cons c cs =>
      have hc := hcs c (List.mem_cons_self ..)
      have hfeed : (c == '\n') = false := beq_eq_false_iff_ne.mpr (ne_of_isInside hc (by decide))
      rw [List.cons_append, nameUntilAngle?, hfeed,
        untilAngle?_append fun d hd => hcs d (List.mem_cons_of_mem _ hd)]
      rfl

theorem IsName.tagName?_closing (hname : IsName name) :
    tagName? ("</" ++ name ++ ">") = some name := by
  have hinside : ∀ c ∈ name.toList, isInside c = true :=
    fun c hc => isInside_of_isNameChar (hname.letters c hc)
  have hchars : ("</" ++ name ++ ">").toList = '<' :: '/' :: (name.toList ++ '>' :: []) := by simp
  rw [tagName?, hchars, tagNameChars?, nameUntilAngle?_append hname.nonempty hinside]
  simp

/-- A name of letters is no command with its type. -/
theorem IsName.baseName_eq (hname : IsName name) : baseName name = name := by
  unfold baseName
  split
  · next hcommand =>
      exfalso
      obtain ⟨rest, hrest⟩ := List.isPrefixOf_iff_prefix.mp hcommand
      have hmem : '=' ∈ name.toList := by
        rw [← hrest]
        simp
      exact absurd (hname.letters '=' hmem) (by decide)
  · rfl

/-- Behind the first angle of a plain tag that does not close comes no slash. -/
theorem IsName.isClosing_opening (hname : IsName name) : isClosing ("<" ++ name ++ ">") = false := by
  cases hcs : name.toList with
  | nil => exact absurd hcs hname.nonempty
  | cons c cs =>
      have hslash : c ≠ '/' := by
        rintro rfl
        exact absurd (hname.letters '/' (by simp [hcs])) (by decide)
      simp [isClosing, hcs, List.isPrefixOf, hslash.symm]

/-- A plain tag that closes is the closing tag for its name. -/
theorem Plain.closingTag_eq_of_isClosing (hplain : Plain tag) (hcloses : isClosing tag = true)
    (hname : tagName? tag = some name) : closingTag name = tag ∧ baseName name = name := by
  cases hplain with
  | @opening name' hnamed =>
      rw [hnamed.isClosing_opening] at hcloses
      exact absurd hcloses (by decide)
  | @closing name' hnamed =>
      rw [hnamed.tagName?_closing] at hname
      obtain rfl := Option.some.inj hname
      exact ⟨by rw [closingTag_eq, hnamed.baseName_eq], hnamed.baseName_eq⟩
  | @command type hnamed =>
      simp [isClosing, List.isPrefixOf] at hcloses

end Phraseology.Tag
