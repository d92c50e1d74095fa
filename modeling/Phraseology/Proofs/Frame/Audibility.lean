import Phraseology.Proofs.Frame.Noise

/-!
# Where noise makes no difference

Whether a frame is `Audible` is a matter of all spans that can be cut out of it, one after the
other.  In an ordinary frame one need not look at them all: the spans that are read hold no tags of
their own (`Flat`).  A cut then takes such a span as a whole or leaves it as a whole, wherever the
cut starts and ends (`Flat.throughCloser`, `Flat.keeps_of_find?`).  So it is enough that noise makes
no difference in each of them as it stands in the frame (`Flat.audible`).
-/

namespace Phraseology

/-- The names of the spans that are read. -/
def Frame.readTags : List String :=
  wordTags ++ presenceTags

theorem Frame.isName_of_mem_readTags {name : String} (hname : name ∈ readTags) :
    Tag.IsName name := by
  have hnames : ∀ name ∈ readTags, Tag.IsName name := by decide
  exact hnames name hname

/-- A span that is read, without tags inside.  It holds no noise if it is read word by word, and
more than noise if it holds anything. -/
structure ReadSpan (name : String) (opener : Token) (body : List Token) (closer : Token) :
    Prop where
  read : name ∈ Frame.readTags
  opens : opener.word = Tag.opener name
  closes : closer.word = Tag.closingTag name
  untagged : ∀ token ∈ body, Tag.isClosing token.word = false ∧ Tag.tagName? token.word = none
  words : name ∈ Frame.wordTags → ∀ token ∈ body, Frame.isNoise token.word = false
  present : body = [] ∨ ∃ token ∈ body, Frame.isNoise token.word = false

/-- Tokens in which the spans that are read are `ReadSpan`s. -/
inductive Flat : List Token → Prop
  | nil : Flat []
  | cons (token : Token) {rest : List Token}
      (unread : ∀ name ∈ Frame.readTags, token.word ≠ Tag.opener name) (more : Flat rest) :
      Flat (token :: rest)
  | span {name : String} {opener closer : Token} {body rest : List Token}
      (span : ReadSpan name opener body closer) (more : Flat rest) :
      Flat (opener :: body ++ closer :: rest)

/-! ## Cuts across other words -/

namespace Cut

theorem throughCloser_append_of_forall {closer : String → Bool} {skipped : List Token}
    (hskipped : ∀ token ∈ skipped, closer token.word = false) (tokens : List Token) :
    throughCloser closer (skipped ++ tokens) =
      (skipped ++ (throughCloser closer tokens).1, (throughCloser closer tokens).2) := by
  induction skipped with
  | nil => rfl
  | cons token skipped ih =>
      obtain ⟨htoken, hskipped⟩ := List.forall_mem_cons.mp hskipped
      simp [throughCloser, htoken, ih hskipped]

theorem find?_append_of_forall {opens : String → Bool} {closes : String → String → Bool}
    {skipped : List Token} (hskipped : ∀ token ∈ skipped, opens token.word = false)
    (tokens : List Token) :
    find? opens closes (skipped ++ tokens) =
      (find? opens closes tokens).map fun cut => { cut with before := skipped ++ cut.before } := by
  induction skipped with
  | nil => simp
  | cons token skipped ih =>
      obtain ⟨htoken, hskipped⟩ := List.forall_mem_cons.mp hskipped
      rw [List.cons_append, find?, htoken, ih hskipped]
      simp [Function.comp_def]

end Cut

namespace Target

variable {target : Target} {word opener : String}

/-- What opens a span opens a tag, and the closing tag for its name closes the span. -/
theorem exists_tagName?_of_opens (hnamed : target.NamesTag) (hopens : target.opens word = true) :
    ∃ name, Tag.isClosing word = false ∧ Tag.tagName? word = some name ∧
      ∀ other, target.closes word other = (other == Tag.closingTag name) := by
  obtain ⟨name, hname, hcloses⟩ := fits_ofStart hnamed hopens
  obtain ⟨hopening, hread⟩ := Tag.Tagging.opened?_ofStart_iff.mp hname
  exact ⟨name, hopening, hread, hcloses⟩

theorem opens_of_isClosing (hnamed : target.NamesTag) (hword : Tag.isClosing word = true) :
    target.opens word = false := by
  refine Bool.eq_false_iff.mpr fun hopens => ?_
  obtain ⟨-, hopening, -, -⟩ := exists_tagName?_of_opens hnamed hopens
  rw [hopening] at hword
  cases hword

theorem opens_of_tagName? (hnamed : target.NamesTag) (hword : Tag.tagName? word = none) :
    target.opens word = false := by
  refine Bool.eq_false_iff.mpr fun hopens => ?_
  obtain ⟨name, -, hread, -⟩ := exists_tagName?_of_opens hnamed hopens
  rw [hread] at hword
  cases hword

theorem closes_of_isClosing (hnamed : target.NamesTag) (hopens : target.opens opener = true)
    (hword : Tag.isClosing word = false) : target.closes opener word = false := by
  obtain ⟨name, -, -, hcloses⟩ := exists_tagName?_of_opens hnamed hopens
  rw [hcloses, beq_eq_false_iff_ne]
  rintro rfl
  rw [Tag.isClosing_closingTag] at hword
  cases hword

end Target

/-! ## Spans that are read -/

namespace ReadSpan

variable {name : String} {opener closer : Token} {body : List Token} {target : Target}

/-- Noise makes no difference in such a span. -/
theorem speaksIn (hspan : ReadSpan name opener body closer) (strict : Bool) :
    Frame.SpeaksIn name (Frame.part (opener :: body ++ [closer]) strict) := by
  have hlast : Frame.isNoise closer.word = false := by
    rw [hspan.closes]
    exact Frame.isNoise_closingTag name
  refine ⟨fun hword => ?words, fun _ => ⟨fun word hmem => ?last, fun hquiet => ?content⟩⟩
  case words =>
    intro word hmem
    obtain ⟨token, htoken, rfl⟩ := List.mem_map.mp hmem
    have hsplit : token ∈ opener :: body ++ [closer] := htoken
    rw [List.mem_append, List.mem_cons, List.mem_singleton] at hsplit
    rcases hsplit with (rfl | hinside) | rfl
    · rw [hspan.opens]
      exact Frame.isNoise_opener name
    · exact hspan.words hword token hinside
    · exact hlast
  case last =>
    have hcloser : (Frame.part (opener :: body ++ [closer]) strict).lastWord? =
        some closer.word := by
      rw [Frame.lastWord?, Frame.words, Frame.part, List.map_append, List.map_singleton,
        List.getLast?_concat]
    rw [hcloser] at hmem
    rw [← Option.some.inj hmem]
    exact hlast
  case content =>
    have hcontent : (Frame.part (opener :: body ++ [closer]) strict).contentWords =
        body.map (·.word) := by
      simp [Frame.contentWords, Frame.content, Frame.part]
    rw [hcontent] at hquiet ⊢
    rcases hspan.present with rfl | ⟨token, htoken, hsaid⟩
    · rfl
    · have hkept : token.word ∈ Frame.quietWords (body.map (·.word)) :=
        List.mem_filter.mpr ⟨List.mem_map_of_mem htoken, by rw [hsaid]; rfl⟩
      rw [hquiet] at hkept
      cases hkept

/-- None of its words but the last is a closing tag. -/
theorem isClosing_eq_false (hspan : ReadSpan name opener body closer) :
    ∀ token ∈ opener :: body, Tag.isClosing token.word = false := by
  refine List.forall_mem_cons.mpr ⟨?_, fun token htoken => (hspan.untagged token htoken).1⟩
  rw [hspan.opens]
  exact (Frame.isName_of_mem_readTags hspan.read).isClosing_opening

/-- A cut that starts with the span takes the whole span. -/
theorem find?_eq_some (hspan : ReadSpan name opener body closer) (hnamed : target.NamesTag)
    (hopens : target.opens opener.word = true) (rest : List Token) :
    Cut.find? target.opens target.closes (opener :: body ++ closer :: rest) =
      some { inner := opener :: body ++ [closer], before := [], after := rest } := by
  have hname := Frame.isName_of_mem_readTags hspan.read
  have hcloses : target.closes opener.word closer.word = true := by
    obtain ⟨found, -, hfound, hclosing⟩ := Target.exists_tagName?_of_opens hnamed hopens
    rw [hspan.opens, (Tag.OpenName.plain hname).tagName?_opener.1] at hfound
    obtain rfl := Option.some.inj hfound
    rw [hclosing, hspan.closes, beq_self_eq_true]
  have hnone : ∀ token ∈ ([] : List Token), target.opens token.word = false := by simp
  have hbody : ∀ token ∈ body, target.closes opener.word token.word = false := fun token htoken =>
    Target.closes_of_isClosing hnamed hopens (hspan.untagged token htoken).1
  exact Cut.find?_eq_some hnone hopens hbody hcloses

/-- No cut starts behind the first word of the span. -/
theorem opens_eq_false (hspan : ReadSpan name opener body closer) (hnamed : target.NamesTag)
    (hopens : target.opens opener.word = false) :
    ∀ token ∈ opener :: body ++ [closer], target.opens token.word = false := by
  intro token htoken
  rw [List.mem_append, List.mem_cons, List.mem_singleton] at htoken
  rcases htoken with (rfl | hinside) | rfl
  · exact hopens
  · exact Target.opens_of_tagName? hnamed (hspan.untagged token hinside).2
  · refine Target.opens_of_isClosing hnamed ?_
    rw [hspan.closes, Tag.isClosing_closingTag]

end ReadSpan

/-! ## What a cut keeps -/

/-- Whether a cut keeps the spans that are read, and noise makes no difference in the one it
takes. -/
structure Cut.Keeps (cut : Cut) : Prop where
  inner : Flat cut.inner
  left : Flat (cut.before ++ cut.after)
  speaks : ∀ strict name, (Frame.part cut.inner strict).firstWord? = some (Tag.opener name) →
    Frame.SpeaksIn name (Frame.part cut.inner strict)

namespace Flat

variable {tokens : List Token} {cut : Cut} {target : Target} {frame part : Frame}

/-- Words that start no span that is read may be put in front. -/
theorem of_unread {skipped : List Token}
    (hskipped : ∀ token ∈ skipped, ∀ name ∈ Frame.readTags, token.word ≠ Tag.opener name)
    (hflat : Flat tokens) : Flat (skipped ++ tokens) := by
  induction skipped with
  | nil => exact hflat
  | cons token skipped ih =>
      obtain ⟨htoken, hskipped⟩ := List.forall_mem_cons.mp hskipped
      exact .cons token htoken (ih hskipped)

/-- A cut does not end inside a span that is read. -/
theorem throughCloser {closer : String → Bool}
    (hcloser : ∀ word, Tag.isClosing word = false → closer word = false) (hflat : Flat tokens) :
    Flat (Cut.throughCloser closer tokens).1 ∧ Flat (Cut.throughCloser closer tokens).2 := by
  induction hflat with
  | nil => exact ⟨.nil, .nil⟩
  | @cons token rest hunread hmore ih =>
      unfold Cut.throughCloser
      cases hcloses : closer token.word with
      | true => exact ⟨.cons token hunread .nil, hmore⟩
      | false => exact ⟨.cons token hunread ih.1, ih.2⟩
  | @span name opener last body rest hspan hmore ih =>
      rw [Cut.throughCloser_append_of_forall fun token htoken =>
        hcloser _ (hspan.isClosing_eq_false token htoken)]
      unfold Cut.throughCloser
      cases hcloses : closer last.word with
      | true => exact ⟨.span hspan .nil, hmore⟩
      | false => exact ⟨.span hspan ih.1, ih.2⟩

/-- A cut takes each span that is read as a whole, or leaves it as a whole. -/
theorem keeps_of_find? (hnamed : target.NamesTag) (hflat : Flat tokens)
    (hcut : Cut.find? target.opens target.closes tokens = some cut) : cut.Keeps := by
  induction hflat generalizing cut with
  | nil => simp [Cut.find?] at hcut
  | @cons token rest hunread hmore ih =>
      unfold Cut.find? at hcut
      cases hopens : target.opens token.word with
      | true =>
          rw [hopens, if_pos rfl] at hcut
          obtain rfl := Option.some.inj hcut
          obtain ⟨hinner, hafter⟩ := hmore.throughCloser fun word =>
            Target.closes_of_isClosing hnamed hopens
          -- a span that is not read speaks, whatever it holds
          have hother : ∀ name, token.word = Tag.opener name → name ∉ Frame.readTags :=
            fun name hfirst hname => hunread name hname hfirst
          refine ⟨.cons token hunread hinner, hafter, fun strict name hfirst => ⟨?_, ?_⟩⟩
          · exact fun hword =>
              absurd (List.mem_append_left _ hword) (hother name (Option.some.inj hfirst))
          · exact fun hpresent =>
              absurd (List.mem_append_right _ hpresent) (hother name (Option.some.inj hfirst))
      | false =>
          rw [hopens, if_neg Bool.false_ne_true] at hcut
          obtain ⟨found, hfound, rfl⟩ := Option.map_eq_some_iff.mp hcut
          obtain ⟨hinner, hleft, hspeaks⟩ := ih hfound
          exact ⟨hinner, .cons token hunread hleft, hspeaks⟩
  | @span name opener last body rest hspan hmore ih =>
      cases hopens : target.opens opener.word with
      | true =>
          obtain rfl := Option.some.inj ((hspan.find?_eq_some hnamed hopens rest).symm.trans hcut)
          refine ⟨.span hspan .nil, hmore, fun strict other hfirst => ?_⟩
          have hsame : opener.word = Tag.opener other := Option.some.inj hfirst
          obtain rfl := Tag.opener_injective (hspan.opens.symm.trans hsame)
          exact hspan.speaksIn strict
      | false =>
          have htokens : opener :: body ++ last :: rest = (opener :: body ++ [last]) ++ rest := by
            simp
          rw [htokens, Cut.find?_append_of_forall (hspan.opens_eq_false hnamed hopens)] at hcut
          obtain ⟨found, hfound, rfl⟩ := Option.map_eq_some_iff.mp hcut
          obtain ⟨hinner, hleft, hspeaks⟩ := ih hfound
          refine ⟨hinner, ?_, hspeaks⟩
          have hwhole := span hspan hleft
          simpa using hwhole

/-- What is cut out of a frame and what is left have their spans kept. -/
theorem cut_keeps (hflat : Flat frame.tokens) (hnamed : target.NamesTag) :
    (∀ span ∈ (frame.cut target).1, Flat span.tokens ∧
      ∀ name, span.firstWord? = some (Tag.opener name) → Frame.SpeaksIn name span) ∧
      Flat (frame.cut target).2.tokens := by
  rw [Frame.cut_eq, Frame.cutSpan]
  cases hcut : Cut.find? target.opens target.closes frame.tokens with
  | none => exact ⟨by simp, hflat⟩
  | some cut =>
      obtain ⟨hinner, hleft, hspeaks⟩ := keeps_of_find? hnamed hflat hcut
      refine ⟨fun span hspan => ?_, hleft⟩
      obtain rfl := Option.some.inj hspan
      exact ⟨hinner, hspeaks frame.strict⟩

theorem of_yields (hflat : Flat frame.tokens) (hyields : Frame.Yields frame part) :
    Flat part.tokens := by
  induction hyields with
  | self => exact hflat
  | span _ hnamed hfound ih => exact ((ih.cut_keeps hnamed).1 _ hfound).1
  | left _ hnamed ih => exact (ih.cut_keeps hnamed).2

/-- Noise makes no difference in a frame if it makes none in the spans that are read, and these
hold no tags. -/
theorem audible (hflat : Flat frame.tokens) : frame.Audible :=
  fun _ _ hyields hnamed span hspan =>
    (((hflat.of_yields hyields).cut_keeps hnamed).1 span hspan).2

end Flat

end Phraseology
