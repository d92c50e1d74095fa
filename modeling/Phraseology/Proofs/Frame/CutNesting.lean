import Phraseology.Proofs.Frame.Cuts
import Phraseology.Proofs.Tag.Tagging

/-!
# Cuts keep nested spans nested

A cut goes by the words alone: from the first one that opens what is looked for (`Target`) to the
first one behind it that closes it, whatever is open in between.  So a frame is cut into three parts
(`Frame.Parts`), of which the second is taken out, and of the words that close the span it holds
one at most, as its last (`Cut.throughCloser_closes`).

In a well nested frame the closing tag of the span follows (`Frame.Parts.exists_closingTag`), and
it is the first word that closes the span unless a tag with the same closing tag is opened inside.
Then what is cut out and what is left are well nested (`Frame.Parts.wellNested`), so one cut can
follow the other.  This is said for any way to take words for tags.  All that a way has to do is to
take the word that opens the span for a tag with the right closing tag (`Target.Fits`).
-/

namespace Phraseology

open Tag (Tagging)

namespace Cut

variable {tokens : List Token} {closer : String → Bool}

/-- A span that no word closes runs to the end. -/
theorem throughCloser_of_forall (hnone : ∀ token ∈ tokens, closer token.word = false) :
    throughCloser closer tokens = (tokens, []) := by
  induction tokens with
  | nil => rfl
  | cons token tokens ih =>
      obtain ⟨htoken, hnone⟩ := List.forall_mem_cons.mp hnone
      rw [throughCloser, htoken, ih hnone]
      rfl

/-- A span ends at the first word that closes it, or at the end of the frame. -/
theorem throughCloser_cases (closer : String → Bool) (tokens : List Token) :
    (∃ body last rest, tokens = body ++ last :: rest ∧
        (∀ token ∈ body, closer token.word = false) ∧ closer last.word = true ∧
        throughCloser closer tokens = (body ++ [last], rest)) ∨
      (∀ token ∈ tokens, closer token.word = false) ∧
        throughCloser closer tokens = (tokens, []) := by
  by_cases hcloses : ∃ token ∈ tokens, closer token.word = true
  · exact .inl (throughCloser_of_mem hcloses)
  · have hnone : ∀ token ∈ tokens, closer token.word = false := by
      simpa using hcloses
    exact .inr ⟨hnone, throughCloser_of_forall hnone⟩

/-- Only the last word of a span closes it, and it does unless the span runs to the end. -/
theorem throughCloser_closes {first : Token} (hfirst : closer first.word = false)
    (tokens : List Token) :
    (∀ token ∈ (first :: (throughCloser closer tokens).1).dropLast, closer token.word = false) ∧
      ((throughCloser closer tokens).2 = [] ∨
        ∃ last ∈ (throughCloser closer tokens).1.getLast?, closer last.word = true) := by
  rcases throughCloser_cases closer tokens with ⟨body, last, rest, -, hbody, hlast, hspan⟩ |
    ⟨hnone, hspan⟩
  · rw [hspan, ← List.cons_append, List.dropLast_concat]
    exact ⟨List.forall_mem_cons.mpr ⟨hfirst, hbody⟩, .inr ⟨last, by simp, hlast⟩⟩
  · rw [hspan]
    have hall : ∀ token ∈ first :: tokens, closer token.word = false :=
      List.forall_mem_cons.mpr ⟨hfirst, hnone⟩
    exact ⟨fun token htoken => hall token ((List.dropLast_sublist _).subset htoken), .inl rfl⟩

end Cut

/-! ## What is cut out -/

/-- What is looked for in a frame: a span with a name or with one of some names, or a command. -/
inductive Target where
  | tag (name : String)
  | anyTag (names : List String)
  | command

namespace Target

/-- The words that open a span. -/
def opens : Target → String → Bool
  | tag name => (· == "<" ++ name ++ ">")
  | anyTag names => fun word => (Tag.openTagName? word).any names.contains
  | command => Tag.isCommandOpen

/-- The words that close a span with a given opening word. -/
def closes : Target → String → String → Bool
  | tag name => fun _ word => word == Tag.closingTag name
  | anyTag _ => fun opener word => (Tag.tagName? opener).any fun name => word == Tag.closingTag name
  | command => fun _ word => word == Tag.commandClose

/-- Whether a name that is looked for is the name of a tag.  No tag is called `/s`, say, since
`</s>` is the closing tag of another. -/
def NamesTag : Target → Prop
  | tag name =>
    Tag.tagName? (Tag.opener name) = some name ∧ Tag.isClosing (Tag.opener name) = false
  | anyTag _ => True
  | command => True

/-- Whether a word opens a tag, and its closing tag is what closes the span. -/
def Fits (target : Target) (tagging : Tagging) (word : String) : Prop :=
  ∃ name, tagging.opened? word = some name ∧
    ∀ other, target.closes word other = (other == Tag.closingTag name)

variable {target : Target} {word name : String} {names : List String}

/-- The names in opening tags of grammars are names of tags. -/
theorem namesTag_of_openName (hname : Tag.OpenName name) : (tag name).NamesTag :=
  hname.tagName?_opener

/-! ## The opening word of a span -/

theorem eq_of_opens_tag (hopens : (tag name).opens word = true) : word = Tag.opener name :=
  beq_iff_eq.mp hopens

theorem exists_of_opens_anyTag (hopens : (anyTag names).opens word = true) :
    ∃ name ∈ names, Tag.IsName name ∧ word = Tag.opener name := by
  obtain ⟨name, hname, hlisted⟩ := Option.any_eq_true _ _ |>.mp hopens
  exact ⟨name, List.contains_iff_mem.mp hlisted, Tag.isName_of_openTagName? hname,
    Tag.eq_of_openTagName? hname⟩

theorem closes_anyTag (hname : Tag.IsName name) (other : String) :
    (anyTag names).closes (Tag.opener name) other = (other == Tag.closingTag name) := by
  simp only [closes, (Tag.OpenName.plain hname).tagName?_opener.1, Option.any_some]

/-- No word opens a span and closes it. -/
theorem closes_self (hopens : target.opens word = true) : target.closes word word = false := by
  cases target with
  | tag name =>
      rw [eq_of_opens_tag hopens]
      exact beq_eq_false_iff_ne.mpr (Tag.opener_ne_closingTag name)
  | anyTag names =>
      obtain ⟨name, -, hname, rfl⟩ := exists_of_opens_anyTag hopens
      rw [closes_anyTag hname]
      exact beq_eq_false_iff_ne.mpr (Tag.opener_ne_closingTag name)
  | command =>
      refine beq_eq_false_iff_ne.mpr ?_
      rintro rfl
      exact absurd hopens (by decide)

/-- For a search, what opens a span opens a tag with the right closing tag. -/
theorem fits_ofStart (hnames : target.NamesTag) (hopens : target.opens word = true) :
    target.Fits Tagging.ofStart word := by
  cases target with
  | tag name =>
      rw [eq_of_opens_tag hopens]
      exact ⟨name, Tagging.opened?_ofStart_iff.mpr hnames.symm, fun other => rfl⟩
  | anyTag names =>
      obtain ⟨name, -, hname, rfl⟩ := exists_of_opens_anyTag hopens
      have hread := (Tag.OpenName.plain hname).tagName?_opener
      exact ⟨name, Tagging.opened?_ofStart_iff.mpr hread.symm, closes_anyTag hname⟩
  | command =>
      obtain ⟨type, hread⟩ := Tag.exists_tagName?_of_isCommandOpen hopens
      refine ⟨_, Tagging.opened?_ofStart_iff.mpr hread.symm, fun other => ?_⟩
      rw [Tag.closingTag_command]
      rfl

/-- For a repair, this is so if the word that opens a span is an opening tag as a whole. -/
theorem fits_ofWord (hwhole : (Tag.openAnyTagName? word).isSome)
    (hopens : target.opens word = true) : target.Fits Tagging.ofWord word := by
  obtain ⟨found, hfound⟩ := Option.isSome_iff_exists.mp hwhole
  obtain ⟨rfl, -, -⟩ := Tag.openAnyTagName?_eq_some hfound
  refine ⟨found, hfound, fun other => ?_⟩
  cases target with
  | tag name =>
      obtain rfl := Tag.opener_injective (eq_of_opens_tag hopens)
      rfl
  | anyTag names =>
      obtain ⟨name, -, hname, hsame⟩ := exists_of_opens_anyTag hopens
      obtain rfl := Tag.opener_injective hsame
      exact closes_anyTag hname other
  | command =>
      obtain ⟨type, htype, -⟩ := Tag.exists_tagName?_of_isCommandOpen hopens
      obtain rfl := Option.some.inj ((Tag.tagName?_of_openAnyTagName? hfound).1.symm.trans htype)
      rw [Tag.closingTag_command]
      rfl

end Target

/-! ## The three parts of a frame -/

namespace Frame

/-- The three cuts. -/
def cut (frame : Frame) : Target → Option Frame × Frame
  | .tag name => frame.cutTag name
  | .anyTag names => frame.cutAnyTag names
  | .command => frame.cutCommand

/-- A frame in three parts: up to the first word that opens a span, from there through the first
word that closes the span, and what is behind that. -/
structure Parts (frame : Frame) (target : Target) (before : List Token) (first : Token)
    (inside after : List Token) : Prop where
  tokens : frame.tokens = before ++ first :: inside ++ after
  skipped : ∀ token ∈ before, target.opens token.word = false
  opens : target.opens first.word = true
  unclosed : ∀ token ∈ (first :: inside).dropLast, target.closes first.word token.word = false
  closed : after = [] ∨ ∃ last ∈ inside.getLast?, target.closes first.word last.word = true

variable {frame : Frame} {target : Target} {before inside after : List Token} {first : Token}

theorem cut_eq (frame : Frame) (target : Target) :
    frame.cut target = frame.cutSpan target.opens target.closes := by
  cases target <;> rfl

theorem cut_eq_none (hnone : ∀ word ∈ frame.words, target.opens word = false) :
    frame.cut target = (none, frame) := by
  have htokens : ∀ token ∈ frame.tokens, target.opens token.word = false :=
    fun token htoken => hnone _ (List.mem_map_of_mem htoken)
  rw [cut_eq, cutSpan, Cut.find?_eq_none htokens]

/-- If a word opens a span, a cut takes the second of the three parts. -/
theorem exists_parts_of_opens (hopens : ∃ word ∈ frame.words, target.opens word = true) :
    ∃ before first inside after, frame.Parts target before first inside after ∧
      frame.cut target =
        (some (part (first :: inside) frame.strict), part (before ++ after) frame.strict) := by
  obtain ⟨word, hword, hopens⟩ := hopens
  obtain ⟨token, htoken, rfl⟩ := List.mem_map.mp hword
  obtain ⟨found, hfound⟩ := Cut.exists_find?_of_mem ⟨token, htoken, hopens⟩ target.closes
  obtain ⟨first, behind, -, hfirst, hbefore, hinner, hafter⟩ := Cut.exists_of_find? hfound
  have htokens := Cut.find?_eq_append hfound
  rw [hinner] at htokens
  obtain ⟨hunclosed, hclosed⟩ := Cut.throughCloser_closes (Target.closes_self hfirst) behind
  rw [← hafter] at hclosed
  refine ⟨found.before, first, _, found.after,
    ⟨htokens, hbefore, hfirst, hunclosed, hclosed⟩, ?_⟩
  rw [cut_eq, cutSpan, hfound, ← hinner]

/-- The word that closes a span is its last. -/
theorem Parts.exists_last (hparts : frame.Parts target before first inside after)
    (hcloses : ∃ token ∈ inside, target.closes first.word token.word = true) :
    ∃ body last, inside = body ++ [last] ∧
      (∀ token ∈ body, target.closes first.word token.word = false) ∧
      target.closes first.word last.word = true := by
  obtain ⟨token, htoken, hclosing⟩ := hcloses
  have hnonempty : inside ≠ [] := List.ne_nil_of_mem htoken
  have hbody := hparts.unclosed
  rw [List.dropLast_cons_of_ne_nil hnonempty] at hbody
  have hsplit : inside = inside.dropLast ++ [inside.getLast hnonempty] :=
    (List.dropLast_concat_getLast hnonempty).symm
  refine ⟨inside.dropLast, inside.getLast hnonempty, hsplit,
    (List.forall_mem_cons.mp hbody).2, ?_⟩
  rw [hsplit, List.mem_append, List.mem_singleton] at htoken
  rcases htoken with htoken | rfl
  · rw [(List.forall_mem_cons.mp hbody).2 token htoken] at hclosing
    cases hclosing
  · exact hclosing

/-! ## Nested frames -/

/-- In a well nested frame the span ends with the closing tag of its opening word. -/
theorem Parts.exists_closingTag {tagging : Tagging} {name : String}
    (hparts : frame.Parts target before first inside after)
    (hopens : tagging.opened? first.word = some name)
    (hcloser : ∀ word, target.closes first.word word = (word == Tag.closingTag name))
    (hnested : tagging.WellNested frame.words) :
    ∃ token ∈ inside, target.closes first.word token.word = true := by
  rcases hparts.closed with rfl | ⟨last, hlast, hcloses⟩
  · -- the closing tag is among the words behind
    rw [words, hparts.tokens, List.append_nil, List.map_append, List.map_cons] at hnested
    obtain ⟨token, htoken, hclosing⟩ := List.mem_map.mp (hnested.closingTag_mem hopens)
    exact ⟨token, htoken, by rw [hcloser, hclosing, beq_self_eq_true]⟩
  · exact ⟨last, List.mem_of_mem_getLast? hlast, hcloses⟩

/-- Of a well nested frame the span and what is around it are well nested, if no tag with the same
closing tag is opened in the span. -/
theorem Parts.wellNested {tagging : Tagging} (hparts : frame.Parts target before first inside after)
    (hfits : target.Fits tagging first.word)
    (hplain : ∀ name, tagging.opened? (Tag.closingTag name) = none)
    (hnested : tagging.WellNested frame.words)
    (hinside : ∀ token ∈ inside, ∀ other, tagging.opened? token.word = some other →
      target.closes first.word (Tag.closingTag other) = false) :
    tagging.WellNested ((first :: inside).map (·.word)) ∧
      tagging.WellNested ((before ++ after).map (·.word)) := by
  obtain ⟨name, hopens, hcloser⟩ := hfits
  obtain ⟨body, last, rfl, hbody, hlast⟩ :=
    hparts.exists_last (hparts.exists_closingTag hopens hcloser hnested)
  rw [hcloser, beq_iff_eq] at hlast
  have hfirst : Tag.closingTag name ∉ body.map (·.word) := by
    intro hmem
    obtain ⟨token, htoken, hclosing⟩ := List.mem_map.mp hmem
    have hopen := hbody token htoken
    rw [hcloser, hclosing, beq_self_eq_true] at hopen
    cases hopen
  have hothers : ∀ other ∈ body.map (·.word), ∀ opening, tagging.opened? other = some opening →
      Tag.closingTag opening ≠ Tag.closingTag name := by
    intro other hother opening hopening
    obtain ⟨token, htoken, rfl⟩ := List.mem_map.mp hother
    have hdiffers := hinside token (List.mem_append_left _ htoken) opening hopening
    rw [hcloser] at hdiffers
    exact beq_eq_false_iff_ne.mp hdiffers
  have hwords : frame.words = before.map (·.word) ++ first.word :: body.map (·.word) ++
      Tag.closingTag name :: after.map (·.word) := by
    simp [words, hparts.tokens, hlast]
  rw [hwords] at hnested
  simpa [hlast] using hnested.split hopens (hplain name) hfirst hothers

/-- A cut takes a span out of a frame and keeps both parts well nested.  If no word opens what is
looked for, nothing is cut and the frame stays.  Otherwise the frame has three parts, of which the
second is cut out: it starts with the first word that opens a span, and if it holds a word that
closes the span, that word is its last.

If the frame is well nested and no tag with the same closing tag is opened in the span, both what is
cut out and what is left are well nested.  A search replays the tags at the starts of words, and for
it this holds of each frame, whatever tag is looked for.  A repair replays the words that are tags
as a whole, so it does not see a word such as `<command="turn">left`, which a cut takes for the start
of a command; for it the word that opens the span has to be an opening tag. -/
theorem cut_splits (frame : Frame) (target : Target) :
    ((∀ word ∈ frame.words, target.opens word = false) → frame.cut target = (none, frame)) ∧
      ((∃ word ∈ frame.words, target.opens word = true) →
        ∃ before first inside after, frame.Parts target before first inside after ∧
          frame.cut target =
            (some (part (first :: inside) frame.strict), part (before ++ after) frame.strict) ∧
          (target.NamesTag → Tag.WellNested frame.words →
            (∀ token ∈ inside, ∀ other,
              Tag.isClosing token.word = false ∧ Tag.tagName? token.word = some other →
                target.closes first.word (Tag.closingTag other) = false) →
            Tag.WellNested ((first :: inside).map (·.word)) ∧
              Tag.WellNested ((before ++ after).map (·.word))) ∧
          ((Tag.openAnyTagName? first.word).isSome → Repair.replay? frame.words [] = some [] →
            (∀ token ∈ inside, ∀ other, Tag.openAnyTagName? token.word = some other →
                target.closes first.word (Tag.closingTag other) = false) →
            Repair.replay? ((first :: inside).map (·.word)) [] = some [] ∧
              Repair.replay? ((before ++ after).map (·.word)) [] = some [])) := by
  refine ⟨cut_eq_none, fun hopens => ?_⟩
  obtain ⟨before, first, inside, after, hparts, hcut⟩ := exists_parts_of_opens hopens
  refine ⟨before, first, inside, after, hparts, hcut, ?_, ?_⟩
  · intro hnames hnested hinside
    rw [← Tagging.wellNested_ofStart_iff] at hnested ⊢
    rw [← Tagging.wellNested_ofStart_iff]
    refine hparts.wellNested (Target.fits_ofStart hnames hparts.opens)
      Tagging.opened?_ofStart_closingTag hnested fun token htoken other hother => ?_
    exact hinside token htoken other (Tagging.opened?_ofStart_iff.mp hother)
  · intro hwhole hnested hinside
    rw [← Tagging.replay?_ofWord] at hnested ⊢
    rw [← Tagging.replay?_ofWord]
    exact hparts.wellNested (Target.fits_ofWord hwhole hparts.opens)
      Tagging.opened?_ofWord_closingTag hnested hinside

/-- A span that holds one of its own kind is cut at the first closing tag. -/
example : ((part (["<neg>", "<neg>", "no", "</neg>", "</neg>"].map Token.plain) false).cut
    (.tag "neg")).1.map words = some ["<neg>", "<neg>", "no", "</neg>"] := by
  decide

/-- A sentence with a callsign around an airline. -/
def greetedSentence : Frame :=
  part (["<s>", "<callsign>", "<airline>", "lufthansa", "</airline>", "</callsign>",
    "<command=\"turn\">", "left", "</command>", "</s>"].map Token.plain) false

/-- The callsign is cut out with the airline in it. -/
theorem cut_splits_greetedSentence :
    ∃ inner outer, greetedSentence.cut (.tag "callsign") = (some inner, outer) ∧
      Tag.WellNested inner.words ∧ Tag.WellNested outer.words := by
  obtain ⟨before, first, inside, after, -, hcut, hnested, -⟩ :=
    (cut_splits greetedSentence (.tag "callsign")).2 (by decide)
  have hnames : Target.NamesTag (.tag "callsign") :=
    Target.namesTag_of_openName (.plain (by decide))
  refine ⟨_, _, hcut, hnested hnames (by decide) fun token htoken other hother => ?_⟩
  have hinner : (greetedSentence.cut (.tag "callsign")).1.map words =
      some ["<callsign>", "<airline>", "lufthansa", "</airline>", "</callsign>"] := by
    decide
  have hwords : inside.map (·.word) = ["<airline>", "lufthansa", "</airline>", "</callsign>"] := by
    rw [hcut] at hinner
    exact (List.cons.inj (Option.some.inj hinner)).2
  have hword : token.word ∈ ["<airline>", "lufthansa", "</airline>", "</callsign>"] :=
    hwords ▸ List.mem_map_of_mem htoken
  have hothers : ∀ word ∈ ["<airline>", "lufthansa", "</airline>", "</callsign>"],
      Tag.isClosing word = false → ∀ name ∈ Tag.tagName? word,
        (Tag.closingTag name == Tag.closingTag "callsign") = false := by
    decide
  exact hothers token.word hword hother.1 other hother.2

end Frame

end Phraseology
