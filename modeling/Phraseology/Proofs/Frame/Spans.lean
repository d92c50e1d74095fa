import Phraseology.Proofs.Frame.Closing
import Phraseology.Proofs.Frame.Cuts

/-!
# Spans by their names

A span with a name runs from the first tag that opens it to the next tag that closes it
(`FirstSpan`).  It is the one that `Frame.cutTag` takes out (`FirstSpan.exists_cutTag`).

Where a name is opened there is such a span, provided that it is closed behind
(`exists_firstSpan`).  A repair sees to that (`tagClosed_of_closes`), and it is still so for
any other name when a span is taken out (`FirstSpan.tagClosed_rest`).
-/

namespace Phraseology

/-- The words in front of the first span with a name, between its tags and behind it. -/
structure FirstSpan (name : String) (words before body after : List String) : Prop where
  words_eq : words = before ++ Tag.opener name :: body ++ Tag.closingTag name :: after
  before : Tag.opener name ∉ before
  body : Tag.closingTag name ∉ body

/-- Whether words stand in the first span with a name. -/
def HasContent (name : String) (words : List String) : Prop :=
  ∃ before body after, FirstSpan name words before body after ∧ body ≠ []

/-- Whether behind each tag that opens a name some tag closes it. -/
def TagClosed (name : String) (words : List String) : Prop :=
  ∀ before after, words = before ++ Tag.opener name :: after → Tag.closingTag name ∈ after

variable {frame : Frame} {name other : String} {words before body after stack : List String}

theorem exists_firstSpan (hclosed : TagClosed name words) (hopens : Tag.opener name ∈ words) :
    ∃ before body after, FirstSpan name words before body after := by
  obtain ⟨before, behind, hwords, hbefore⟩ := List.eq_append_cons_of_mem hopens
  obtain ⟨body, after, rfl, hbody⟩ := List.eq_append_cons_of_mem (hclosed before behind hwords)
  exact ⟨before, body, after, by simpa using hwords, hbefore, hbody⟩

/-! ## Cuts -/

/-- The first span with a name is taken out of the tokens around it. -/
theorem Frame.cutTag_eq_some {earlier inner later : List Token} {first last : Token}
    (htokens : frame.tokens = earlier ++ first :: inner ++ last :: later)
    (hearlier : ∀ token ∈ earlier, token.word ≠ Tag.opener name)
    (hfirst : first.word = Tag.opener name)
    (hinner : ∀ token ∈ inner, token.word ≠ Tag.closingTag name)
    (hlast : last.word = Tag.closingTag name) :
    frame.cutTag name =
      (some (part (first :: inner ++ [last]) frame.strict),
        part (earlier ++ later) frame.strict) := by
  have hcut : Cut.find? (· == Tag.opener name) (fun _ word => word == Tag.closingTag name)
      frame.tokens =
        some { inner := first :: inner ++ [last], before := earlier, after := later } := by
    rw [htokens]
    exact Cut.find?_eq_some (fun token htoken => beq_false_of_ne (hearlier token htoken))
      (beq_iff_eq.mpr hfirst) (fun token htoken => beq_false_of_ne (hinner token htoken))
      (beq_iff_eq.mpr hlast)
  have hcutTag : frame.cutTag name =
      frame.cutSpan (· == Tag.opener name) fun _ word => word == Tag.closingTag name := rfl
  rw [hcutTag, Frame.cutSpan, hcut]

/-- The first span with a name is the one that is cut out. -/
theorem FirstSpan.exists_cutTag (hspan : FirstSpan name frame.words before body after) :
    ∃ span rest, frame.cutTag name = (some span, rest) ∧
      span.words = Tag.opener name :: body ++ [Tag.closingTag name] ∧
      rest.words = before ++ after := by
  obtain ⟨front, tail, htokens, hfront, htail⟩ := List.map_eq_append_iff.mp hspan.words_eq
  obtain ⟨earlier, inside, rfl, rfl, hinside⟩ := List.map_eq_append_iff.mp hfront
  obtain ⟨first, inner, rfl, hfirst, rfl⟩ := List.map_eq_cons_iff.mp hinside
  obtain ⟨last, later, rfl, hlast, rfl⟩ := List.map_eq_cons_iff.mp htail
  have hearlier : ∀ token ∈ earlier, token.word ≠ Tag.opener name := by
    rintro token htoken heq
    exact hspan.before (heq ▸ List.mem_map_of_mem htoken)
  have hinner : ∀ token ∈ inner, token.word ≠ Tag.closingTag name := by
    rintro token htoken heq
    exact hspan.body (heq ▸ List.mem_map_of_mem htoken)
  refine ⟨_, _, Frame.cutTag_eq_some htokens hearlier hfirst hinner hlast, ?_, ?_⟩
  · simp [Frame.words, Frame.part, hfirst, hlast]
  · simp [Frame.words, Frame.part]

theorem Frame.cutTag_eq_none (hopens : Tag.opener name ∉ frame.words) :
    frame.cutTag name = (none, frame) := by
  have hnone : ∀ token ∈ frame.tokens, (token.word == Tag.opener name) = false := by
    intro token htoken
    refine beq_false_of_ne fun heq => hopens ?_
    rw [← heq]
    exact List.mem_map_of_mem htoken
  have hcutTag : frame.cutTag name =
      frame.cutSpan (· == Tag.opener name) fun _ word => word == Tag.closingTag name := rfl
  rw [hcutTag, Frame.cutSpan, Cut.find?_eq_none hnone]

/-- A span that is cut out holds words between its tags, or is an empty tag. -/
theorem Frame.isEmptyTag_of_words {span : Frame} {first last : String}
    (hwords : span.words = first :: body ++ [last]) : span.isEmptyTag = body.isEmpty := by
  have hlength : span.tokens.length = body.length + 2 := by
    have hsame : span.words.length = span.tokens.length := List.length_map _
    simp [← hsame, hwords]
  cases body <;> simp [isEmptyTag, hlength]

/-! ## Closed tags -/

/-- Where all tags are closed, each name is. -/
theorem tagClosed_of_closes (hcloses : Repair.Closes stack words) (hname : Tag.IsName name) :
    TagClosed name words := by
  rintro before after rfl
  have hopens := (Tag.OpenName.plain hname).openAnyTagName?_opener
  obtain ⟨opened, hopened⟩ := hcloses.from_append
  exact (hopened.of_opener hopens).closingTag_mem hopens List.suffix_rfl

/-- What a span leaves closes any other name. -/
theorem FirstSpan.tagClosed_rest (hspan : FirstSpan name words before body after)
    (hcloses : Repair.Closes stack words) (hname : Tag.IsName name) (hother : Tag.IsName other)
    (hne : other ≠ name) : TagClosed other (before ++ after) := by
  intro first second hsplit
  have hopens := (Tag.OpenName.plain hname).openAnyTagName?_opener
  have hopensOther := (Tag.OpenName.plain hother).openAnyTagName?_opener
  have hclosing : Tag.closingTag other ≠ Tag.closingTag name := by
    rw [Tag.closingTag_eq, Tag.closingTag_eq, hother.baseName_eq, hname.baseName_eq]
    simpa [← String.toList_inj] using hne
  rw [hspan.words_eq] at hcloses
  exact hcloses.closingTag_mem_of_cut hopens hspan.body hopensOther hclosing hsplit

end Phraseology
