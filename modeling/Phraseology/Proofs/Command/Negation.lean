import Phraseology.Proofs.Command.Rules
import Phraseology.Proofs.Frame.Spans

/-!
# Negated limits

A negation swaps the two sets of limit words of a rule.  A limit is looked for in four
places, one after the other, and the swap changes their order:

```text
              a span     a span     a word     a word
plain         direction  boundary   direction  boundary
negated       boundary   direction  boundary   direction
```

Where only one of the two sets occurs in a command, two of the four places are empty and
the other two stay in their order (`suffixAmong?_of_not_mentions_second`,
`suffixAmong?_of_not_mentions_first`).  The negation itself may stand anywhere, since it is taken
out before anything else is looked for.  So it changes which suffix a limit gives, and not
whether there is one (`suffix?_negated`).
-/

namespace Phraseology

namespace Frame

variable {frame : Frame} {terms : List String}

/-- Whether one of some words is in a frame, as a word or as the name of an opening tag. -/
def Mentions (terms : List String) (frame : Frame) : Prop :=
  ∃ term ∈ terms, term ∈ frame.words ∨ Tag.opener term ∈ frame.words

instance (terms : List String) (frame : Frame) : Decidable (frame.Mentions terms) :=
  inferInstanceAs (Decidable (∃ term ∈ terms, _ ∨ _))

theorem containsAny_eq_false (habsent : ¬frame.Mentions terms) :
    frame.containsAny terms = false := by
  refine Bool.eq_false_iff.mpr fun hcontains => habsent ?_
  obtain ⟨word, hword, hterm⟩ := List.any_eq_true.mp hcontains
  exact ⟨word, by simpa using hterm, .inl hword⟩

theorem cutAnyTag_eq_none (habsent : ¬frame.Mentions terms) :
    frame.cutAnyTag terms = (none, frame) := by
  have hnone : ∀ token ∈ frame.tokens,
      ((Tag.openTagName? token.word).any terms.contains) = false := by
    intro token htoken
    cases hname : Tag.openTagName? token.word with
    | none => rfl
    | some name =>
        have hword : token.word ∈ frame.words := List.mem_map_of_mem htoken
        rw [Tag.eq_of_openTagName? hname] at hword
        exact Bool.eq_false_iff.mpr fun hterm => habsent ⟨name, by simpa using hterm, .inr hword⟩
  rw [cutAnyTag, cutSpan, Cut.find?_eq_none hnone]

/-- What is left by a cut mentions nothing new. -/
theorem Mentions.of_cutAnyTag {names : List String}
    (hmentions : (frame.cutAnyTag names).2.Mentions terms) : frame.Mentions terms := by
  obtain ⟨term, hterm, hword⟩ := hmentions
  exact ⟨term, hterm, hword.imp (mem_words_of_cutSpan.2 term)
    (mem_words_of_cutSpan.2 (Tag.opener term))⟩

end Frame

namespace LimitRule

variable {rule : LimitRule} {first second : List String} {command negated : Frame}

@[simp]
theorem isSpoken_none : isSpoken none = false := rfl

/-- Whether a limit is spoken with some words, in a span of its own or otherwise. -/
def isLimited (terms : List String) (command : Frame) : Bool :=
  isSpoken (command.cutAnyTag terms).1 || (command.cutAnyTag terms).2.containsAny terms

/-- Whether a limit is spoken goes by the tokens alone. -/
theorem isLimited_congr {frame other : Frame} (htokens : frame.tokens = other.tokens)
    (terms : List String) : isLimited terms frame = isLimited terms other := by
  unfold isLimited Frame.cutAnyTag Frame.cutSpan
  rw [htokens]
  split
  · simp [isSpoken, Frame.containsAny, Frame.words, htokens]
  · simp [isSpoken, Frame.isEmptyTag, Frame.containsAny, Frame.words, Frame.part]

theorem suffixAmong?_of_not_mentions_second (habsent : ¬command.Mentions second) :
    rule.suffixAmong? first second command =
      if isLimited first command then some rule.directionSuffix else none := by
  have hrest : ¬(command.cutAnyTag first).2.Mentions second := fun h => habsent h.of_cutAnyTag
  simp only [suffixAmong?, isLimited, Frame.cutAnyTag_eq_none hrest,
    Frame.containsAny_eq_false hrest]
  by_cases hspan : isSpoken (command.cutAnyTag first).1 = true <;> simp [hspan]

theorem suffixAmong?_of_not_mentions_first (habsent : ¬command.Mentions first) :
    rule.suffixAmong? first second command =
      if isLimited second command then some rule.boundarySuffix else none := by
  have hrest : ¬(command.cutAnyTag second).2.Mentions first := fun h => habsent h.of_cutAnyTag
  simp only [suffixAmong?, isLimited, Frame.cutAnyTag_eq_none habsent,
    Frame.containsAny_eq_false hrest]
  by_cases hspan : isSpoken (command.cutAnyTag second).1 = true <;> simp [hspan]

/-- What a negation makes of the suffix of a limit. -/
inductive Flips (rule : LimitRule) : Option String → Option String → Prop
  | unlimited : Flips rule none none
  | forbids : Flips rule (some rule.directionSuffix) (some rule.boundarySuffix)
  | allows : Flips rule (some rule.boundarySuffix) (some rule.directionSuffix)

theorem Flips.isSome_eq {plain flipped : Option String} (hflips : rule.Flips plain flipped) :
    flipped.isSome = plain.isSome := by
  cases hflips <;> rfl

theorem Flips.of_mem {plain flipped : Option String} (hflips : rule.Flips plain flipped)
    {suffix : String} (hsuffix : suffix ∈ plain) :
    (suffix = rule.directionSuffix ∧ flipped = some rule.boundarySuffix) ∨
      (suffix = rule.boundarySuffix ∧ flipped = some rule.directionSuffix) := by
  cases hflips with
  | unlimited => cases hsuffix
  | forbids => exact .inl ⟨(Option.some.inj hsuffix).symm, rfl⟩
  | allows => exact .inr ⟨(Option.some.inj hsuffix).symm, rfl⟩

/-- Where one of two sets of words does not occur, swapping the sets flips the suffix. -/
theorem flips_suffixAmong? (honly : ¬command.Mentions first ∨ ¬command.Mentions second)
    (htokens : negated.tokens = command.tokens) :
    rule.Flips (rule.suffixAmong? first second command)
      (rule.suffixAmong? second first negated) := by
  have hwords : negated.words = command.words := by rw [Frame.words, htokens, Frame.words]
  rcases honly with habsent | habsent
  · have hnegated : ¬negated.Mentions first := by rwa [Frame.Mentions, hwords]
    rw [suffixAmong?_of_not_mentions_first habsent, suffixAmong?_of_not_mentions_second hnegated,
      isLimited_congr htokens]
    split
    · exact .allows
    · exact .unlimited
  · have hnegated : ¬negated.Mentions second := by rwa [Frame.Mentions, hwords]
    rw [suffixAmong?_of_not_mentions_second habsent, suffixAmong?_of_not_mentions_first hnegated,
      isLimited_congr htokens]
    split
    · exact .forbids
    · exact .unlimited

/-- A negation that is put into a command without one swaps the sets of words. -/
theorem flips_suffix? {before content after : List Token} {opener closer : Token}
    (hplain : "<neg>" ∉ command.words)
    (honly : ¬command.Mentions rule.directionTerms ∨ ¬command.Mentions rule.boundaryTerms)
    (hcommand : command.tokens = before ++ after)
    (hopener : opener.word = "<neg>") (hcontent : ∀ token ∈ content, token.word ≠ "</neg>")
    (hcloser : closer.word = "</neg>")
    (hnegated : negated.tokens = before ++ opener :: content ++ closer :: after) :
    rule.Flips (rule.suffix? command) (rule.suffix? negated) := by
  have hbefore : ∀ token ∈ before, token.word ≠ "<neg>" := by
    intro token htoken heq
    have hword : token.word ∈ command.words := by
      rw [Frame.words, hcommand]
      exact List.mem_map_of_mem (List.mem_append_left _ htoken)
    exact hplain (heq ▸ hword)
  have hcut : negated.cutTag "neg" = (_, Frame.part (before ++ after) negated.strict) :=
    Frame.cutTag_eq_some hnegated hbefore hopener hcontent hcloser
  rw [suffix?, Frame.cutTag_eq_none hplain, suffix?, hcut]
  exact flips_suffixAmong? honly hcommand.symm

/-- In a command in which only one of the two sets of limit words occurs, a negation that is
put in anywhere changes the suffix of a limit to the other one, and adds and removes none. -/
theorem suffix?_negated (hrule : rule ∈ [orBelow, orAbove, either])
    {before content after : List Token} {opener closer : Token}
    (hplain : "<neg>" ∉ command.words)
    (honly : ¬command.Mentions rule.directionTerms ∨ ¬command.Mentions rule.boundaryTerms)
    (hcommand : command.tokens = before ++ after)
    (hopener : opener.word = "<neg>") (hcontent : ∀ token ∈ content, token.word ≠ "</neg>")
    (hcloser : closer.word = "</neg>")
    (hnegated : negated.tokens = before ++ opener :: content ++ closer :: after) :
    (rule.suffix? negated).isSome = (rule.suffix? command).isSome ∧
      (∀ suffix ∈ rule.suffix? command,
        (suffix = rule.directionSuffix ∧ rule.suffix? negated = some rule.boundarySuffix) ∨
        (suffix = rule.boundarySuffix ∧ rule.suffix? negated = some rule.directionSuffix)) ∧
      rule.directionSuffix ≠ rule.boundarySuffix := by
  have hdistinct : ∀ rule ∈ [orBelow, orAbove, either],
      rule.directionSuffix ≠ rule.boundarySuffix := by decide
  have hflips := flips_suffix? hplain honly hcommand hopener hcontent hcloser hnegated
  exact ⟨hflips.isSome_eq, fun suffix hsuffix => hflips.of_mem hsuffix, hdistinct rule hrule⟩

/-- `climb or more`, with a span around the limit. -/
def orMore : Frame :=
  .part (["<command=\"climb\">", "climb", "<above>", "or", "more", "</above>",
    "</command>"].map .plain) false

/-- `climb or more` with a negation in its limit. -/
def orNotMore : Frame :=
  .part (["<command=\"climb\">", "climb", "<above>", "or", "<neg>", "not", "less", "</neg>",
    "more", "</above>", "</command>"].map .plain) false

theorem suffix?_negated_orMore :
    orAbove.suffix? orMore = some "_OR_ABOVE" ∧ orAbove.suffix? orNotMore = some "_NOT_ABOVE" := by
  have hlimit : orAbove.suffix? orMore = some "_OR_ABOVE" := by decide
  have hrule : orAbove ∈ [orBelow, orAbove, either] := by decide
  have hplain : "<neg>" ∉ orMore.words := by decide
  have honly : ¬orMore.Mentions orAbove.directionTerms ∨ ¬orMore.Mentions orAbove.boundaryTerms :=
    .inr (by decide)
  have hcommand : orMore.tokens = orMore.tokens.take 4 ++ orMore.tokens.drop 4 := rfl
  have hcontent : ∀ token ∈ ["not", "less"].map Token.plain, token.word ≠ "</neg>" := by decide
  have hnegated : orNotMore.tokens = orMore.tokens.take 4 ++ Token.plain "<neg>" ::
      ["not", "less"].map Token.plain ++ Token.plain "</neg>" :: orMore.tokens.drop 4 := rfl
  obtain ⟨-, hflipped, -⟩ :=
    suffix?_negated hrule hplain honly hcommand rfl hcontent rfl hnegated
  rcases hflipped _ hlimit with ⟨-, hsuffix⟩ | ⟨hboundary, -⟩
  · exact ⟨hlimit, hsuffix⟩
  · exact absurd hboundary (by decide)

end LimitRule

end Phraseology
