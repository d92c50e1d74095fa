import Mathlib.Data.List.Induction
import Phraseology.Command.Rule
import Phraseology.Proofs.Frame.CutNesting

/-!
# Noise in a frame

Recognizer noise is kept for its confidence.  It is no tag, so it may be taken out of a frame
before a cut or behind it (`cut_quiet`).

Whether noise makes a difference to what is read depends on the span it stands in.  Some
spans are read word by word, noise included (`wordTags`), and of some it counts whether
anything was spoken, and noise counts as spoken (`presenceTags`).  A frame is `Audible` if
no span of the first kind that can be cut out of it holds noise, and none of the second
kind holds noise alone.
-/

namespace Phraseology

namespace Frame

/-- Whether a word is recognizer noise. -/
def isNoise (word : String) : Bool :=
  noiseWords.contains word

/-- Some words without noise. -/
def quietWords (words : List String) : List String :=
  words.filter fun word => !isNoise word

/-- A frame without its noise. -/
def quiet (frame : Frame) : Frame :=
  { frame with tokens := frame.tokens.filter fun token => !isNoise token.word }

/-- A frame without noise. -/
def Clear (frame : Frame) : Prop :=
  ∀ word ∈ frame.words, isNoise word = false

/-- A span that holds more than noise, if it holds anything, and does not end in noise. -/
structure Telling (frame : Frame) : Prop where
  last : ∀ word ∈ frame.lastWord?, isNoise word = false
  content : quietWords frame.contentWords = [] → frame.contentWords = []

/-- The spans that are read word by word. -/
def wordTags : List String :=
  ["airline", "direction", "contact", "waypoint", "fix"]

/-- The spans of which it counts whether anything was spoken. -/
def presenceTags : List String :=
  "flightnumber" :: (CommandRule.all.flatMap fun rule => rule.values.map (·.tag)) ++
    (LimitRule.upward ++ LimitRule.downward)

/-- A span in which noise makes no difference to what is read. -/
structure SpeaksIn (name : String) (span : Frame) : Prop where
  words : name ∈ wordTags → span.Clear
  present : name ∈ presenceTags → span.Telling

/-- The spans that can be cut out of a frame, one after the other and one inside the other,
and what is left then. -/
inductive Yields (frame : Frame) : Frame → Prop
  | self : Yields frame frame
  | span {part span : Frame} (yields : Yields frame part) {target : Target}
      (named : target.NamesTag) (found : span ∈ (part.cut target).1) : Yields frame span
  | left {part : Frame} (yields : Yields frame part) {target : Target} (named : target.NamesTag) :
      Yields frame (part.cut target).2

/-- A frame in whose spans noise makes no difference. -/
def Audible (frame : Frame) : Prop :=
  ∀ part (target : Target), Yields frame part → target.NamesTag →
    ∀ span ∈ (part.cut target).1, ∀ name,
      span.firstWord? = some (Tag.opener name) → SpeaksIn name span

variable {frame span : Frame}

/-! ## Words without noise -/

/-- Noise does not start like a tag. -/
theorem isNoise_angle (rest : String) : isNoise ("<" ++ rest) = false := by
  simp [isNoise, noiseWords, ← String.toList_inj]

theorem isNoise_opener (name : String) : isNoise (Tag.opener name) = false := by
  rw [Tag.opener, String.append_assoc]
  exact isNoise_angle _

theorem isNoise_closingTag (name : String) : isNoise (Tag.closingTag name) = false := by
  have hslash : "</" ++ Tag.baseName name ++ ">" = "<" ++ ("/" ++ Tag.baseName name ++ ">") := by
    simp [← String.toList_inj]
  rw [Tag.closingTag_eq, hslash]
  exact isNoise_angle _

theorem words_quiet (frame : Frame) : frame.quiet.words = quietWords frame.words := by
  simp [words, quiet, quietWords, List.filter_map, Function.comp_def]

theorem Clear.quiet_eq (hclear : frame.Clear) : frame.quiet = frame := by
  have htokens : frame.tokens.filter (fun token => !isNoise token.word) =
      frame.tokens := by
    refine List.filter_eq_self.mpr fun token htoken => ?_
    rw [hclear token.word (List.mem_map_of_mem htoken)]
    rfl
  rw [quiet, htokens]

theorem firstWord?_quiet {word : String} (hfirst : frame.firstWord? = some word)
    (hword : isNoise word = false) : frame.quiet.firstWord? = some word := by
  rw [firstWord?, words_quiet]
  unfold firstWord? at hfirst
  cases hwords : frame.words with
  | nil => simp [hwords] at hfirst
  | cons first rest =>
      rw [hwords] at hfirst
      obtain rfl := Option.some.inj hfirst
      rw [quietWords, List.filter_cons_of_pos (by rw [hword]; rfl)]
      rfl

theorem lastWord?_quiet {word : String} (hlast : frame.lastWord? = some word)
    (hword : isNoise word = false) : frame.quiet.lastWord? = some word := by
  rw [lastWord?, words_quiet]
  obtain ⟨init, hinit⟩ := List.getLast?_eq_some_iff.mp hlast
  rw [hinit, quietWords, List.filter_append, List.filter_cons_of_pos (by rw [hword]; rfl)]
  simp

theorem lastWord?_beq_of_quiet {word : String} (hword : isNoise word = false)
    (hlast : (frame.quiet.lastWord? == some word) = false) :
    (frame.lastWord? == some word) = false := by
  rw [beq_eq_false_iff_ne] at hlast ⊢
  exact fun hloud => hlast (lastWord?_quiet hloud hword)

theorem contentWords_eq (frame : Frame) : frame.contentWords = (frame.words.drop 1).dropLast := by
  simp [contentWords, content, words, List.map_dropLast]

theorem isEmptyTag_iff : frame.isEmptyTag = true ↔ frame.contentWords = [] := by
  rw [contentWords_eq, ← List.length_eq_zero_iff, List.length_dropLast, List.length_drop, words,
    List.length_map, isEmptyTag, decide_eq_true_iff]
  omega

/-- Between a first and a last word that are no noise, only the noise goes. -/
theorem contentWords_quiet {first : String} (hfirst : frame.firstWord? = some first)
    (hnoise : isNoise first = false)
    (hlast : ∀ word ∈ frame.lastWord?, isNoise word = false) :
    frame.quiet.contentWords = quietWords frame.contentWords := by
  rw [contentWords_eq, contentWords_eq, words_quiet]
  unfold firstWord? at hfirst
  unfold lastWord? at hlast
  cases hwords : frame.words with
  | nil => rfl
  | cons word rest =>
      rw [hwords] at hfirst hlast
      obtain rfl := Option.some.inj hfirst
      rw [quietWords, List.filter_cons_of_pos (by rw [hnoise]; rfl), List.drop_one, List.drop_one,
        List.tail_cons, List.tail_cons]
      cases rest using List.reverseRecOn with
      | nil => rfl
      | append_singleton rest last _ =>
          have hkept : isNoise last = false := by
            refine hlast last ?_
            rw [← List.cons_append, List.getLast?_concat]
            rfl
          rw [List.filter_append, List.filter_cons_of_pos (by rw [hkept]; rfl), List.filter_nil,
            List.dropLast_concat, List.dropLast_concat]
          rfl

theorem Telling.isEmptyTag_quiet {first : String} (htelling : span.Telling)
    (hfirst : span.firstWord? = some first) (hnoise : isNoise first = false) :
    span.quiet.isEmptyTag = span.isEmptyTag := by
  rw [Bool.eq_iff_iff, isEmptyTag_iff, isEmptyTag_iff,
    contentWords_quiet hfirst hnoise htelling.last]
  constructor
  · exact htelling.content
  · intro hnone
    rw [hnone]
    rfl

/-! ## Cuts -/

end Frame

/-- Noise is no tag. -/
theorem Target.ignoresNoise (target : Target) {word : String}
    (hnoise : Frame.isNoise word = true) :
    target.opens word = false ∧ ∀ opener, target.closes opener word = false := by
  have hcloser : ∀ name : String, (word == Tag.closingTag name) = false := by
    intro name
    rw [beq_eq_false_iff_ne]
    rintro rfl
    rw [Frame.isNoise_closingTag] at hnoise
    cases hnoise
  have hword : word = "_spn_" ∨ word = "_nsn_" := by
    simpa [Frame.isNoise, Frame.noiseWords] using hnoise
  cases target with
  | tag name =>
      refine ⟨beq_eq_false_iff_ne.mpr ?_, fun _ => hcloser name⟩
      rintro rfl
      have hopener := Frame.isNoise_opener name
      rw [Tag.opener, hnoise] at hopener
      cases hopener
  | anyTag names =>
      refine ⟨?_, fun opener => by simp [closes, hcloser]⟩
      rcases hword with rfl | rfl
      · rfl
      · rfl
  | command =>
      refine ⟨?_, fun _ => hcloser "command"⟩
      rcases hword with rfl | rfl
      · decide
      · decide

namespace Cut

/-- A cut without the noise in it. -/
def quiet (cut : Cut) : Cut where
  inner := cut.inner.filter fun token => !Frame.isNoise token.word
  before := cut.before.filter fun token => !Frame.isNoise token.word
  after := cut.after.filter fun token => !Frame.isNoise token.word

theorem throughCloser_filter {closer : String → Bool} {keeps : Token → Bool}
    (hkeeps : ∀ token, keeps token = false → closer token.word = false) (tokens : List Token) :
    throughCloser closer (tokens.filter keeps) =
      ((throughCloser closer tokens).1.filter keeps,
        (throughCloser closer tokens).2.filter keeps) := by
  induction tokens with
  | nil => rfl
  | cons token tokens ih =>
      cases hcloses : closer token.word with
      | true =>
          have hkept : keeps token = true :=
            Bool.not_eq_false _ ▸ fun h => by simp [hkeeps token h] at hcloses
          simp [throughCloser, hcloses, hkept]
      | false =>
          cases hkept : keeps token <;> simp [throughCloser, hcloses, hkept, ih]

theorem find?_quiet (target : Target) (tokens : List Token) :
    find? target.opens target.closes (tokens.filter fun token => !Frame.isNoise token.word) =
      (find? target.opens target.closes tokens).map quiet := by
  induction tokens with
  | nil => rfl
  | cons token tokens ih =>
      cases hnoise : Frame.isNoise token.word with
      | true =>
          have hopens := (target.ignoresNoise hnoise).1
          rw [List.filter_cons_of_neg (by simp [hnoise]), ih]
          simp only [find?, hopens, Bool.false_eq_true, if_false, Option.map_map]
          refine Option.map_congr fun cut _ => ?_
          simp [quiet, hnoise]
      | false =>
          rw [List.filter_cons_of_pos (by simp [hnoise])]
          cases hopens : target.opens token.word with
          | true =>
              have hignores : ∀ other : Token, (!Frame.isNoise other.word) = false →
                  target.closes token.word other.word = false :=
                fun other h => (target.ignoresNoise (by simpa using h)).2 token.word
              simp [find?, hopens, quiet, hnoise, throughCloser_filter hignores]
          | false => simp [find?, hopens, quiet, hnoise, ih, Function.comp_def]

end Cut

namespace Frame

variable {frame part : Frame} {target : Target} {name : String}

/-- Noise may be taken out before a cut or behind it. -/
theorem cut_quiet (frame : Frame) (target : Target) :
    frame.quiet.cut target = ((frame.cut target).1.map quiet, (frame.cut target).2.quiet) := by
  have hfind : Cut.find? target.opens target.closes frame.quiet.tokens =
      (Cut.find? target.opens target.closes frame.tokens).map Cut.quiet :=
    Cut.find?_quiet target frame.tokens
  rw [cut_eq, cut_eq, cutSpan, cutSpan, hfind]
  cases Cut.find? target.opens target.closes frame.tokens with
  | none => rfl
  | some cut => simp [Frame.part, quiet, Cut.quiet]

theorem cutTag_quiet (frame : Frame) (name : String) :
    frame.quiet.cutTag name =
      ((frame.cutTag name).1.map quiet, (frame.cutTag name).2.quiet) :=
  cut_quiet frame (.tag name)

theorem cutAnyTag_quiet (frame : Frame) (names : List String) :
    frame.quiet.cutAnyTag names =
      ((frame.cutAnyTag names).1.map quiet, (frame.cutAnyTag names).2.quiet) :=
  cut_quiet frame (.anyTag names)

theorem cutCommand_quiet (frame : Frame) :
    frame.quiet.cutCommand = (frame.cutCommand.1.map quiet, frame.cutCommand.2.quiet) :=
  cut_quiet frame .command

/-! ## Frames in which noise makes no difference -/

theorem Yields.trans {middle last : Frame} (hfirst : Yields frame middle)
    (hlast : Yields middle last) : Yields frame last := by
  induction hlast with
  | self => exact hfirst
  | span _ hnamed hfound ih => exact .span ih hnamed hfound
  | left _ hnamed ih => exact .left ih hnamed

namespace Audible

theorem of_yields (haudible : frame.Audible) (hyields : Yields frame part) : part.Audible :=
  fun other target hother => haudible other target (hyields.trans hother)

theorem span (haudible : frame.Audible) (target : Target) (hnamed : target.NamesTag)
    {span : Frame} (hspan : span ∈ (frame.cut target).1) : span.Audible :=
  haudible.of_yields (.span .self hnamed hspan)

theorem left (haudible : frame.Audible) (target : Target) (hnamed : target.NamesTag) :
    (frame.cut target).2.Audible :=
  haudible.of_yields (.left .self hnamed)

theorem leftOfTag (haudible : frame.Audible) (hname : Tag.IsName name) :
    (frame.cutTag name).2.Audible :=
  haudible.left (.tag name) (Target.namesTag_of_openName (.plain hname))

/-- Noise makes no difference in the first span with a name. -/
theorem cutTag (haudible : frame.Audible) (hname : Tag.IsName name) {span : Frame}
    (hspan : span ∈ (frame.cutTag name).1) :
    span.firstWord? = some (Tag.opener name) ∧ SpeaksIn name span ∧ span.Audible := by
  obtain ⟨first, hfirst, hopens⟩ := firstWord?_of_cutSpan hspan
  rw [beq_iff_eq.mp hopens] at hfirst
  have hnamed : (Target.tag name).NamesTag := Target.namesTag_of_openName (.plain hname)
  exact ⟨hfirst, haudible frame (.tag name) .self hnamed span hspan name hfirst,
    haudible.span (.tag name) hnamed hspan⟩

/-- Noise makes no difference in the first span with one of some names. -/
theorem cutAnyTag (haudible : frame.Audible) {names : List String} {span : Frame}
    (hspan : span ∈ (frame.cutAnyTag names).1) :
    ∃ name ∈ names, span.firstWord? = some (Tag.opener name) ∧ SpeaksIn name span := by
  obtain ⟨first, hfirst, hopens⟩ := firstWord?_of_cutSpan hspan
  obtain ⟨name, hmem, -, rfl⟩ := Target.exists_of_opens_anyTag hopens
  exact ⟨name, hmem, hfirst, haudible frame (.anyTag names) .self trivial span hspan name hfirst⟩

end Audible

end Frame

end Phraseology
