import Phraseology.Proofs.Decimal.Numeral
import Phraseology.Proofs.Text.LetterCase
import Phraseology.Tag
import Phraseology.Token

/-!
# The shape of a tag

A word is taken for a tag if a tag stands at its start: a `<`, some character, and
behind that a `>` on the same line (`isSome_tagName?_iff`).  What goes into and out
of a search follows from this shape.

* `isSome_tagName?_closingTag`: the closing tag for the name of a tag is a tag,
* `tagName?_eq_none_of_observation`: a word whose observation is no tag is no tag
  itself, since neither its letter case nor its confidence can hide one.
-/

namespace Phraseology.Tag

/-- Characters that start with a tag. -/
def StartsTag (cs : List Char) : Prop :=
  ∃ first name rest, cs = '<' :: first :: (name ++ '>' :: rest) ∧ first ≠ '\n' ∧ '\n' ∉ name

/-! ## Reading the name -/

theorem isSome_untilAngle?_iff {cs : List Char} :
    (untilAngle? cs).isSome ↔ ∃ name rest, cs = name ++ '>' :: rest ∧ '\n' ∉ name := by
  induction cs with
  | nil => simp [untilAngle?]
  | cons c cs ih =>
      unfold untilAngle?
      split
      · next hangle =>
          rw [eq_of_beq hangle]
          exact iff_of_true rfl ⟨[], cs, rfl, by simp⟩
      · next hangle =>
          split
          · next hfeed =>
              rw [eq_of_beq hfeed]
              refine iff_of_false (by simp) ?_
              rintro ⟨name, rest, heq, hname⟩
              cases name with
              | nil => simp at heq
              | cons d name =>
                  rw [List.cons_append, List.cons.injEq] at heq
                  exact hname (heq.1 ▸ List.mem_cons_self ..)
          · next hfeed =>
              rw [Option.isSome_map, ih]
              constructor
              · rintro ⟨name, rest, rfl, hname⟩
                refine ⟨c :: name, rest, rfl, ?_⟩
                rw [List.mem_cons, not_or]
                exact ⟨fun h => hfeed (beq_iff_eq.mpr h.symm), hname⟩
              · rintro ⟨name, rest, heq, hname⟩
                cases name with
                | nil => simp_all
                | cons d name =>
                    rw [List.cons_append, List.cons.injEq] at heq
                    exact ⟨name, rest, heq.2, fun h => hname (List.mem_cons_of_mem _ h)⟩

theorem isSome_nameUntilAngle?_iff {cs : List Char} :
    (nameUntilAngle? cs).isSome ↔ StartsTag ('<' :: cs) := by
  cases cs with
  | nil => simp [nameUntilAngle?, StartsTag]
  | cons c rest =>
      simp only [nameUntilAngle?, StartsTag]
      split
      · next hfeed =>
          refine iff_of_false (by simp) ?_
          rintro ⟨first, name, rest, heq, hfirst, -⟩
          simp only [List.cons.injEq, true_and] at heq
          exact hfirst (heq.1 ▸ eq_of_beq hfeed)
      · next hfeed =>
          rw [Option.isSome_map, isSome_untilAngle?_iff]
          constructor
          · rintro ⟨name, rest, rfl, hname⟩
            exact ⟨c, name, rest, rfl, by simpa using hfeed, hname⟩
          · rintro ⟨first, name, rest', heq, -, hname⟩
            simp only [List.cons.injEq, true_and] at heq
            exact ⟨name, rest', heq.2, hname⟩

/-- A slash that could belong to the name does not decide whether there is a tag. -/
theorem isSome_nameUntilAngle?_slash {cs : List Char} (hname : (nameUntilAngle? cs).isSome) :
    (nameUntilAngle? ('/' :: cs)).isSome := by
  rw [isSome_nameUntilAngle?_iff] at hname ⊢
  obtain ⟨first, name, rest, heq, hfirst, hname⟩ := hname
  refine ⟨'/', first :: name, rest, by simp_all, by decide, ?_⟩
  rw [List.mem_cons, not_or]
  exact ⟨hfirst.symm, hname⟩

/-- A word is taken for a tag exactly if it starts with one. -/
theorem isSome_tagName?_iff {word : String} :
    (tagName? word).isSome ↔ StartsTag word.toList := by
  unfold tagName?
  rw [Option.isSome_map]
  unfold tagNameChars?
  split
  · next rest hword =>
      have hslash : (nameUntilAngle? ('/' :: rest)).isSome ↔ StartsTag ('<' :: '/' :: rest) :=
        isSome_nameUntilAngle?_iff
      rw [hword, Option.isSome_or, Bool.or_eq_true, hslash]
      exact or_iff_right_of_imp fun h =>
        isSome_nameUntilAngle?_iff.mp (isSome_nameUntilAngle?_slash h)
  · next rest hslash hword =>
      rw [hword, isSome_nameUntilAngle?_iff]
  · next hslash hangle =>
      refine iff_of_false (by simp) ?_
      rintro ⟨first, name, rest, heq, -⟩
      exact hangle _ heq

/-- A word without an angle is no tag. -/
theorem tagName?_eq_none_of_notMem {word : String} (hangle : '<' ∉ word.toList) :
    tagName? word = none := by
  rw [← Option.not_isSome_iff_eq_none, isSome_tagName?_iff]
  rintro ⟨first, name, rest, hword, -⟩
  apply hangle
  rw [hword]
  exact List.mem_cons_self ..

/-- The name in a tag stands on one line. -/
theorem newline_notMem_of_tagName? {word name : String} (hname : tagName? word = some name) :
    '\n' ∉ name.toList := by
  have huntil : ∀ {cs found : List Char}, untilAngle? cs = some found → '\n' ∉ found := by
    intro cs
    induction cs with
    | nil => simp [untilAngle?]
    | cons c cs ih =>
        intro found hfound
        unfold untilAngle? at hfound
        split at hfound
        · simp_all
        · split at hfound
          · simp at hfound
          · next hfeed =>
              obtain ⟨found, hrest, rfl⟩ := Option.map_eq_some_iff.mp hfound
              rw [List.mem_cons, not_or]
              exact ⟨fun h => hfeed (beq_iff_eq.mpr h.symm), ih hrest⟩
  have hsingle : ∀ {cs found : List Char}, nameUntilAngle? cs = some found → '\n' ∉ found := by
    intro cs found hfound
    cases cs with
    | nil => simp [nameUntilAngle?] at hfound
    | cons c cs =>
        simp only [nameUntilAngle?] at hfound
        split at hfound
        · simp at hfound
        · next hfeed =>
            obtain ⟨found, hrest, rfl⟩ := Option.map_eq_some_iff.mp hfound
            rw [List.mem_cons, not_or]
            exact ⟨fun h => hfeed (beq_iff_eq.mpr h.symm), huntil hrest⟩
  obtain ⟨found, hfound, rfl⟩ := Option.map_eq_some_iff.mp hname
  rw [String.toList_ofList]
  unfold tagNameChars? at hfound
  split at hfound
  · rcases Option.or_eq_some_iff.mp hfound with h | ⟨-, h⟩
    · exact hsingle h
    · exact hsingle h
  · exact hsingle hfound
  · simp at hfound

theorem subset_of_untilAngle? {cs found : List Char} (hfound : untilAngle? cs = some found) :
    found ⊆ cs := by
  induction cs generalizing found with
  | nil => simp [untilAngle?] at hfound
  | cons c cs ih =>
      unfold untilAngle? at hfound
      split at hfound
      · obtain rfl := Option.some.inj hfound
        exact List.nil_subset _
      · split at hfound
        · simp at hfound
        · obtain ⟨found, hrest, rfl⟩ := Option.map_eq_some_iff.mp hfound
          exact List.cons_subset_cons c (ih hrest)

theorem subset_of_nameUntilAngle? {cs found : List Char}
    (hfound : nameUntilAngle? cs = some found) : found ⊆ cs := by
  cases cs with
  | nil => simp [nameUntilAngle?] at hfound
  | cons c cs =>
      simp only [nameUntilAngle?] at hfound
      split at hfound
      · simp at hfound
      · obtain ⟨found, hrest, rfl⟩ := Option.map_eq_some_iff.mp hfound
        exact List.cons_subset_cons c (subset_of_untilAngle? hrest)

/-- The name in a tag is made of its characters. -/
theorem subset_of_tagName? {word name : String} (hname : tagName? word = some name) :
    name.toList ⊆ word.toList := by
  obtain ⟨found, hfound, rfl⟩ := Option.map_eq_some_iff.mp hname
  rw [String.toList_ofList]
  unfold tagNameChars? at hfound
  split at hfound
  · next rest hword =>
      rw [hword]
      rcases Option.or_eq_some_iff.mp hfound with hslash | ⟨-, hname⟩
      · have hmore : rest ⊆ '<' :: '/' :: rest := by simp
        exact List.Subset.trans (subset_of_nameUntilAngle? hslash) hmore
      · exact List.subset_cons_of_subset _ (subset_of_nameUntilAngle? hname)
  · next rest _ hword =>
      rw [hword]
      exact List.subset_cons_of_subset _ (subset_of_nameUntilAngle? hfound)
  · simp at hfound

/-! ## Closing tags -/

/-- A closing tag is made of the part of the name that counts for matching. -/
theorem closingTag_eq (name : String) : closingTag name = "</" ++ baseName name ++ ">" := by
  unfold closingTag baseName
  split <;> rfl

theorem isClosing_closingTag (name : String) : isClosing (closingTag name) = true := by
  rw [closingTag_eq, isClosing, String.toList_append, String.toList_append, List.append_assoc]
  simp

theorem newline_notMem_baseName {name : String} (hname : '\n' ∉ name.toList) :
    '\n' ∉ (baseName name).toList := by
  unfold baseName
  split
  · decide
  · exact hname

/-- The closing tag for a name on one line is a tag. -/
theorem isSome_tagName?_closingTag {name : String} (hname : '\n' ∉ name.toList) :
    (tagName? (closingTag name)).isSome := by
  rw [isSome_tagName?_iff, closingTag_eq]
  exact ⟨'/', (baseName name).toList, [], by simp, by decide, newline_notMem_baseName hname⟩

/-! ## What a search compares -/

/-- Lower case keeps a tag. -/
theorem StartsTag.lowerAfter {cs : List Char} (htag : StartsTag cs) :
    StartsTag (Text.lowerAfter [] cs) := by
  obtain ⟨first, name, rest, rfl, hfirst, hname⟩ := htag
  obtain ⟨front, hfront, hsmall⟩ :=
    Text.lowerAfter_append [first, '<'] name ('>' :: rest)
  have hself : ∀ {before after : List Char} {c : Char}, c = '<' ∨ c = '>' →
      Text.lowerAt before c after = [c] := by
    rintro before after c (rfl | rfl)
    · exact Text.lowerAt_eq_self (by decide) (by decide)
    · exact Text.lowerAt_eq_self (by decide) (by decide)
  rw [Text.lowerAfter_cons, hself (Or.inl rfl), Text.lowerAfter_cons, hfront,
    Text.lowerAfter_cons _ '>', hself (Or.inr rfl)]
  cases hlower : Text.lowerAt ['<'] first (name ++ '>' :: rest) with
  | nil => exact absurd hlower (Text.lowerAt_ne_nil _ _ _)
  | cons c more =>
      have hold : ∀ x ∈ c :: more, x.toNat < 0x61 → x = first := by
        intro x hx
        exact Text.eq_of_mem_lowerAt (hlower ▸ hx)
      refine ⟨c, more ++ front, Text.lowerAfter ('>' :: (name.reverse ++ [first, '<'])) rest,
        by simp, ?_, ?_⟩
      · rintro rfl
        exact hfirst (hold _ (List.mem_cons_self ..) (by decide)).symm
      · rw [List.mem_append, not_or]
        constructor
        · intro hmore
          exact hfirst (hold _ (List.mem_cons_of_mem _ hmore) (by decide)).symm
        · exact fun h => hname (hsmall _ h (by decide))

/-- A confidence does not take part in a tag. -/
theorem StartsTag.of_append {word value : List Char} (htag : StartsTag (word ++ ':' :: value))
    (hvalue : '>' ∉ value) : StartsTag word := by
  obtain ⟨first, name, rest, heq, hfirst, hname⟩ := htag
  have hcut : word ++ ':' :: value = ('<' :: first :: name) ++ '>' :: rest := by simp [heq]
  rcases List.append_eq_append_iff.mp hcut with ⟨more, htag, hrest⟩ | ⟨more, htag, hrest⟩
  · -- the colon stands in front of the angle, which then stands in the confidence
    exfalso
    have hmem : '>' ∈ ':' :: value := by
      rw [hrest]
      simp
    rcases List.mem_cons.mp hmem with h | h
    · exact absurd h (by decide)
    · exact hvalue h
  · cases more with
    | nil => simp at hrest
    | cons c more =>
        rw [List.cons_append, List.cons.injEq] at hrest
        obtain ⟨rfl, -⟩ := hrest
        exact ⟨first, name, more, by simp [htag], hfirst, hname⟩

theorem eq_append_of_splitAtLastColon? {raw word value : String}
    (hsplit : Token.splitAtLastColon? raw = some (word, value)) :
    raw.toList = word.toList ++ ':' :: value.toList := by
  unfold Token.splitAtLastColon? at hsplit
  simp only at hsplit
  split at hsplit
  · simp at hsplit
  · next c before hbefore =>
      simp only [Option.some.injEq, Prod.mk.injEq] at hsplit
      obtain ⟨rfl, rfl⟩ := hsplit
      have hcolon : c = ':' := by
        have h := List.head?_dropWhile_not (p := (· != ':')) raw.toList.reverse
        rw [hbefore] at h
        simpa using h
      have hwhole := List.takeWhile_append_dropWhile (p := (· != ':')) (l := raw.toList.reverse)
      rw [hbefore, hcolon] at hwhole
      rw [String.toList_ofList, String.toList_ofList, ← List.reverse_inj]
      simpa using hwhole.symm

/-- A word whose observation is no tag is no tag. -/
theorem tagName?_eq_none_of_observation {raw : String}
    (hobserved : tagName? (Token.observation raw) = none) : tagName? raw = none := by
  rw [← Option.not_isSome_iff_eq_none, isSome_tagName?_iff] at hobserved ⊢
  intro htag
  apply hobserved
  unfold Token.observation
  split
  · next word value hsplit =>
      rw [Text.lower, String.toList_ofList]
      split
      · next hnumber =>
          rw [eq_append_of_splitAtLastColon? hsplit] at htag
          refine (htag.of_append fun hangle => ?_).lowerAfter
          exact absurd (Decimal.isNumeral_of_isNumber hnumber _ hangle) (by decide)
      · exact htag.lowerAfter
  · rw [Text.lower, String.toList_ofList]
    exact htag.lowerAfter

/-! ## Tags and words -/

/-- The tokens that are no tags. -/
def untagged (tokens : List String) : List String :=
  tokens.filter fun token => (tagName? token).isNone

theorem untagged_append (first second : List String) :
    untagged (first ++ second) = untagged first ++ untagged second :=
  List.filter_append ..

theorem untagged_cons_tag {token : String} {tokens : List String}
    (htag : (tagName? token).isSome) : untagged (token :: tokens) = untagged tokens := by
  obtain ⟨name, hname⟩ := Option.isSome_iff_exists.mp htag
  simp [untagged, hname]

theorem untagged_cons_word {token : String} {tokens : List String}
    (hword : tagName? token = none) : untagged (token :: tokens) = token :: untagged tokens := by
  simp [untagged, hword]

theorem untagged_eq_self {tokens : List String}
    (hwords : ∀ token ∈ tokens, tagName? token = none) : untagged tokens = tokens := by
  refine List.filter_eq_self.mpr fun token htoken => ?_
  rw [hwords token htoken]
  rfl

theorem untagged_eq_nil {tokens : List String}
    (htags : ∀ token ∈ tokens, (tagName? token).isSome) : untagged tokens = [] := by
  refine List.filter_eq_nil_iff.mpr fun token htoken hnone => ?_
  have htag := htags token htoken
  rw [Option.isNone_iff_eq_none.mp hnone] at htag
  exact absurd htag (by decide)

/-- Closing tags are no words. -/
theorem untagged_map_closingTag {names : List String}
    (hnames : ∀ name ∈ names, '\n' ∉ name.toList) : untagged (names.map closingTag) = [] := by
  apply untagged_eq_nil
  intro token htoken
  obtain ⟨name, hname, rfl⟩ := List.mem_map.mp htoken
  exact isSome_tagName?_closingTag (hnames name hname)

end Phraseology.Tag
