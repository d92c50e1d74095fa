import Phraseology.Annotator
import Phraseology.Proofs.Frame.Closing
import Phraseology.Proofs.Frame.Reading
import Phraseology.Proofs.Frame.Spans
import Phraseology.Proofs.Utterance.Extraction

/-!
# Strict reading

Text is read strictly if tags are insisted on at its ends.  The spans that are cut out of it
are then read strictly too: a callsign without its `</callsign>` or a command without its
`</command>` would be refused.  But a repair closes what it opens (`Repair.run_closes`), and
wherever a cut ends, the commands of what is left are still closed:

* `Callsign.isUnbounded_of_cutTag`: the callsign's span ends with `</callsign>`;
* `Frame.commandsClosed_of_cutTag`: what this leaves has a `</command>` behind each tag that
  opens a command;
* `Command.isUnbounded_of_cutCommand`: so each command's span ends with `</command>`, and what
  this leaves is again such a frame.

So only the ends of the text itself can be refused, or a confidence in it
(`Annotator.extract_strict`).  What is not refused is still not read if one of its numbers has no
end (`Annotator.not_forall_extract_strict`).
-/

namespace Phraseology

open Repair (Closes CommandsClosed ExactCommands)

variable {frame span rest : Frame}

/-- The words at the ends of a span. -/
theorem Frame.ends_part (first last : Token) (body : List Token) (strict : Bool) :
    (Frame.part (first :: body ++ [last]) strict).firstWord? = some first.word ∧
      (Frame.part (first :: body ++ [last]) strict).lastWord? = some last.word := by
  refine ⟨rfl, ?_⟩
  rw [lastWord?, words, part, List.map_append, List.map_singleton, List.getLast?_concat]

/-- A tag that is closed among the words of a frame is closed among its tokens. -/
theorem Frame.exists_closer {opens : String → Bool} {closer : String}
    (hcloses : ∀ before opener after, frame.words = before ++ opener :: after →
      opens opener = true → closer ∈ after) :
    ∀ before first behind, frame.tokens = before ++ first :: behind →
      opens first.word = true → ∃ token ∈ behind, (token.word == closer) = true := by
  intro before first behind htokens hfirst
  have hwords : frame.words = before.map (·.word) ++ first.word :: behind.map (·.word) := by
    rw [words, htokens, List.map_append, List.map_cons]
  obtain ⟨token, htoken, hword⟩ := List.mem_map.mp (hcloses _ _ _ hwords hfirst)
  exact ⟨token, htoken, beq_iff_eq.mpr hword⟩

/-! ## The callsign -/

theorem openAnyTagName?_callsignOpen : Tag.openAnyTagName? Tag.callsignOpen = some "callsign" := by
  decide

/-- Where all tags are closed, the callsign that is cut out runs to a `</callsign>`. -/
theorem Frame.exists_callsign_cut (hcloses : Closes [] frame.words) {cut : Cut}
    (hcut : Cut.find? (· == Tag.callsignOpen) (fun _ word => word == Tag.callsignClose)
      frame.tokens = some cut) :
    ∃ first body last, frame.tokens = cut.before ++ first :: body ++ last :: cut.after ∧
      first.word = Tag.callsignOpen ∧ (∀ token ∈ body, token.word ≠ Tag.callsignClose) ∧
      last.word = Tag.callsignClose ∧ cut.inner = first :: body ++ [last] := by
  have hname : Tag.IsName "callsign" := by decide
  have hclosed : ∀ before opener after, frame.words = before ++ opener :: after →
      (opener == Tag.callsignOpen) = true → Tag.callsignClose ∈ after := by
    intro before opener after hwords hopener
    obtain rfl := eq_of_beq hopener
    exact tagClosed_of_closes hcloses hname before after hwords
  obtain ⟨first, body, last, htokens, hfirst, -, hbody, hlast, hinner⟩ :=
    Cut.exists_of_find?_closed hcut (Frame.exists_closer hclosed)
  refine ⟨first, body, last, htokens, eq_of_beq hfirst, fun token htoken => ?_,
    eq_of_beq hlast, hinner⟩
  exact ne_of_beq_false (hbody token htoken)

theorem Callsign.isUnbounded_of_ends (hfirst : span.firstWord? = some Tag.callsignOpen)
    (hlast : span.lastWord? = some Tag.callsignClose) : Callsign.isUnbounded span = false := by
  simp [isUnbounded, hfirst, hlast]

/-- Where all tags are closed, the callsign that is cut out has its ends in order. -/
theorem Callsign.isUnbounded_of_cutTag (hcloses : Closes [] frame.words) :
    ∀ span ∈ (frame.cutTag "callsign").1, Callsign.isUnbounded span = false := by
  intro span hspan
  have hcutTag : frame.cutTag "callsign" =
      frame.cutSpan (· == Tag.callsignOpen) fun _ word => word == Tag.callsignClose := rfl
  rw [hcutTag, Frame.cutSpan] at hspan
  split at hspan
  · cases hspan
  · next cut hcut =>
      obtain rfl := Option.some.inj hspan
      obtain ⟨first, body, last, -, hfirst, -, hlast, hinner⟩ :=
        Frame.exists_callsign_cut hcloses hcut
      obtain ⟨hstart, hend⟩ := Frame.ends_part first last body frame.strict
      rw [hfirst] at hstart
      rw [hlast] at hend
      rw [hinner]
      exact Callsign.isUnbounded_of_ends hstart hend

/-- What the callsign leaves closes its commands. -/
theorem Frame.commandsClosed_of_cutTag (hcloses : Closes [] frame.words)
    (hexact : ExactCommands frame.words) :
    CommandsClosed (frame.cutTag "callsign").2.words := by
  have hcutTag : frame.cutTag "callsign" =
      frame.cutSpan (· == Tag.callsignOpen) fun _ word => word == Tag.callsignClose := rfl
  rw [hcutTag, Frame.cutSpan]
  split
  · exact hcloses.commandsClosed hexact
  · next cut hcut =>
      obtain ⟨first, body, last, htokens, hfirst, hbody, hlast, -⟩ :=
        Frame.exists_callsign_cut hcloses hcut
      have hwords : frame.words = cut.before.map (·.word) ++
          Tag.callsignOpen :: body.map (·.word) ++
            Tag.closingTag "callsign" :: cut.after.map (·.word) := by
        have hclosing : Tag.closingTag "callsign" = Tag.callsignClose := rfl
        simp [Frame.words, htokens, hfirst, hlast, hclosing]
      have hfree : Tag.closingTag "callsign" ∉ body.map (·.word) := by
        intro hmem
        obtain ⟨token, htoken, hword⟩ := List.mem_map.mp hmem
        exact hbody token htoken hword
      rw [hwords] at hcloses hexact
      have hleft := hcloses.commandsClosed_of_cut openAnyTagName?_callsignOpen (by decide) hfree
        hexact
      rwa [← List.map_append] at hleft

/-! ## The commands -/

theorem Command.isUnbounded_of_ends {first : String} (hfirst : span.firstWord? = some first)
    (hopens : Tag.isCommandOpen first = true) (hlast : span.lastWord? = some Tag.commandClose) :
    Command.isUnbounded span = false := by
  have htype : (Tag.commandType? first).isSome = true := hopens
  simp [isUnbounded, hfirst, hlast, htype]

/-- Where commands are closed, the one that is cut out has its ends in order, and those that are
left are closed as well. -/
theorem Command.isUnbounded_of_cutCommand (hclosed : CommandsClosed frame.words)
    (hcut : frame.cutCommand = (some span, rest)) :
    Command.isUnbounded span = false ∧ CommandsClosed rest.words := by
  rw [Frame.cutCommand, Frame.cutSpan] at hcut
  split at hcut
  · cases hcut
  · next cut hfind =>
      obtain ⟨first, body, last, htokens, hfirst, hbefore, -, hlast, hinner⟩ :=
        Cut.exists_of_find?_closed hfind (Frame.exists_closer hclosed)
      obtain ⟨hspan, rfl⟩ := Prod.mk.inj hcut
      obtain rfl := Option.some.inj hspan
      obtain ⟨hstart, hend⟩ := Frame.ends_part first last body frame.strict
      rw [eq_of_beq hlast] at hend
      refine ⟨?_, ?_⟩
      · rw [hinner]
        exact Command.isUnbounded_of_ends hstart hfirst hend
      · have hnone : ∀ word ∈ cut.before.map (·.word), Tag.isCommandOpen word = false := by
          simpa using hbefore
        have hwords : frame.words = cut.before.map (·.word) ++ cut.inner.map (·.word) ++
            cut.after.map (·.word) := by
          simp [Frame.words, htokens, hinner]
        rw [hwords] at hclosed
        have hleft := hclosed.of_cut hnone
        rwa [← List.map_append] at hleft

/-! ## The utterance -/

/-- Where all tags are closed, a frame gives an utterance if all its numbers have an end, however
strictly it is read. -/
theorem Utterance.readIff_ofFrame_of_closes (hcloses : Closes [] frame.words)
    (hexact : ExactCommands frame.words) (airlines : AirlineTable) (context : CallsignContext) :
    ReadIff (Utterance.ReadsToEnd frame) (Utterance.ofFrame frame airlines context) :=
  Utterance.readIff_ofFrame (Callsign.isUnbounded_of_cutTag hcloses)
    (Utterance.forall_mem_commandSpans (fun left => CommandsClosed left.words)
      Command.isUnbounded_of_cutCommand (Frame.commandsClosed_of_cutTag hcloses hexact))
    airlines context

/-- Tokens are refused for a confidence. -/
theorem Token.failure_of_readAll {raws : List String} {failure : Failure}
    (hread : Token.readAll raws = .error failure) :
    ∃ token value, failure = .invalidConfidence token value := by
  induction raws with
  | nil => cases hread
  | cons raw raws ih =>
      unfold Token.readAll at hread
      split at hread
      · next other hother =>
          obtain rfl := Except.error.inj hread
          unfold Token.read at hother
          split at hother
          · cases hother
          · split at hother
            · cases hother
            · obtain rfl := Except.error.inj hother
              exact ⟨_, _, rfl⟩
      · split at hread
        · next other hother =>
            obtain rfl := Except.error.inj hread
            exact ih hother
        · cases hread

/-- A text is refused for a confidence in it or, if it is read strictly, for its ends. -/
theorem Frame.failure_of_read {text : String} {strict : Bool} {failure : Failure}
    (hread : Frame.read text strict = .error failure) :
    (∃ found, failure = .invalidSpan .sentence found) ∨
      ∃ token value, failure = .invalidConfidence token value := by
  unfold Frame.read at hread
  split at hread
  · cases hread
  · next words _ =>
      split at hread
      · next other hother =>
          obtain rfl := Except.error.inj hread
          exact .inr (Token.failure_of_readAll hother)
      · unfold Frame.ofRepaired Frame.ofTokens at hread
        simp only at hread
        split at hread
        · obtain rfl := Except.error.inj hread
          exact .inl ⟨_, rfl⟩
        · cases hread

namespace Annotator

/-- **Strict extraction fails at the ends of a text only.**  If in what is strictly read
from a text each word that starts like the tag of a command is such a tag, an utterance is
read from it, whatever the airline table and the context, unless one of its numbers has no end;
then the reading has none.  So extraction fails only if the text itself is refused, for its own
ends or for a confidence. -/
theorem extract_strict {text : String}
    (hexact : ∀ frame, Frame.read text true = .ok (some frame) → ExactCommands frame.words) :
    (∀ frame, Frame.read text true = .ok (some frame) → ∀ airlines context,
      (Utterance.ReadsToEnd frame →
        ∃ utterance, Utterance.ofFrame frame airlines context = .ok utterance) ∧
      (¬ Utterance.ReadsToEnd frame →
        Utterance.ofFrame frame airlines context = .error .endless)) ∧
    ∀ (annotator : Annotator) (options : ExtractOptions) (failure : Failure),
      options.strict = true → annotator.extract text options = .error failure →
      (Frame.read text true = .error failure ∧
        ((∃ found, failure = .invalidSpan .sentence found) ∨
          ∃ token value, failure = .invalidConfidence token value)) ∨
      failure = .endless ∧
        ∃ frame, Frame.read text true = .ok (some frame) ∧ ¬ Utterance.ReadsToEnd frame := by
  have hframes : ∀ frame, Frame.read text true = .ok (some frame) → ∀ airlines context,
      ReadIff (Utterance.ReadsToEnd frame) (Utterance.ofFrame frame airlines context) := by
    intro frame hread airlines context
    exact Utterance.readIff_ofFrame_of_closes (Frame.closes_of_read hread) (hexact frame hread)
      airlines context
  refine ⟨fun frame hread airlines context => ?_, ?_⟩
  · have hreadIff := hframes frame hread airlines context
    exact ⟨hreadIff.read, hreadIff.endless⟩
  intro annotator options failure hstrict hfails
  unfold extract at hfails
  rw [hstrict] at hfails
  cases hread : Frame.read text true with
  | error other =>
      rw [hread] at hfails
      obtain rfl := Except.error.inj hfails
      exact .inl ⟨rfl, Frame.failure_of_read hread⟩
  | ok frame? =>
      rw [hread] at hfails
      cases frame? with
      | none => cases hfails
      | some frame =>
          have hreadIff := hframes frame hread annotator.airlines annotator.context
          have hutterance :
              Utterance.ofFrame frame annotator.airlines annotator.context = .error failure :=
            hfails
          by_cases hends : Utterance.ReadsToEnd frame
          · obtain ⟨utterance, hread⟩ := hreadIff.read hends
            rw [hread] at hutterance
            cases hutterance
          · obtain rfl := Except.error.inj (hutterance.symm.trans (hreadIff.endless hends))
            exact .inr ⟨rfl, frame, rfl, hends⟩

/-- A sentence with a command inside a callsign, and with the closing tags of both missing or
out of order. -/
def interrupted : String :=
  "<s> <callsign> <flightnumber> double one <command=\"climb\"> climb </callsign> " ++
    "<command=\"turn\"> </s>"

/-- The words of this sentence. -/
def interruptedWords : List String :=
  ["<s>", "<callsign>", "<flightnumber>", "double", "one", "<command=\"climb\">", "climb",
    "</callsign>", "<command=\"turn\">", "</s>"]

/-- What is read in this sentence. -/
def interruptedFrame : Frame where
  tokens := (Repair.run (interruptedWords.map Token.plain)).1
  strict := true
  unmatchedClosings := ["</callsign>"]

theorem legible_interruptedWords : ∀ word ∈ interruptedWords, Frame.Legible word := by
  have hcallsign : Tag.IsName "callsign" := by decide
  have hnumber : Tag.IsName "flightnumber" := by decide
  have hclimb : Tag.IsName "climb" := by decide
  have hturn : Tag.IsName "turn" := by decide
  have hdouble : Frame.Legible "double" := Frame.legible_of_all (by decide) (by decide)
  have hone : Frame.Legible "one" := Frame.legible_of_all (by decide) (by decide)
  have hsaid : Frame.Legible "climb" := Frame.legible_of_all (by decide) (by decide)
  simp only [interruptedWords, List.forall_mem_cons]
  exact ⟨.tag Tag.plain_sentenceOpen, .tag (.opening hcallsign), .tag (.opening hnumber), hdouble,
    hone, .tag (.command hclimb), hsaid, .tag (.closing hcallsign), .tag (.command hturn),
    .tag Tag.plain_sentenceClose, List.forall_mem_nil _⟩

theorem read_interrupted : Frame.read interrupted true = .ok (some interruptedFrame) := by
  have hlower : interruptedWords.map Text.lower = interruptedWords := by decide
  have htext : Text.unwords interruptedWords = interrupted := by decide
  rw [← htext]
  exact Frame.read_unwords_of_lower legible_interruptedWords hlower (List.cons_ne_nil _ _) rfl rfl

theorem exactCommands_interruptedFrame : ExactCommands interruptedFrame.words := by
  have hwords : interruptedFrame.words =
      ["<s>", "<callsign>", "<flightnumber>", "double", "one", "</flightnumber>", "</callsign>",
        "<command=\"climb\">", "climb", "<callsign>", "</callsign>", "</command>",
        "<command=\"turn\">", "</command>", "</s>"] := by
    decide
  have hclimb : Tag.IsName "climb" := by decide
  have hturn : Tag.IsName "turn" := by decide
  rw [hwords]
  intro word hword hcommand
  have htags : word = "<command=\"climb\">" ∨ word = "<command=\"turn\">" := by
    revert word
    decide
  exact htags.elim (fun h => ⟨"climb", hclimb, h⟩) fun h => ⟨"turn", hturn, h⟩

theorem extract_strict_interrupted :
    Frame.read interrupted true = .ok (some interruptedFrame) ∧
      (∀ frame, Frame.read interrupted true = .ok (some frame) → ExactCommands frame.words) ∧
      Utterance.ReadsToEnd interruptedFrame ∧
      (∃ utterance, Utterance.ofFrame interruptedFrame .empty .empty = .ok utterance) ∧
      (ofSettings {}).extract "climb" { strict := true } =
        .error (.invalidSpan .sentence "climb") ∧
      Frame.read "climb" true = .error (.invalidSpan .sentence "climb") := by
  have hexact : ∀ frame, Frame.read interrupted true = .ok (some frame) →
      ExactCommands frame.words := by
    intro frame hframe
    obtain rfl := Option.some.inj (Except.ok.inj (read_interrupted.symm.trans hframe))
    exact exactCommands_interruptedFrame
  have hends : Utterance.ReadsToEnd interruptedFrame := ⟨by decide +kernel, by decide +kernel⟩
  have hrefused : Frame.read "climb" true = .error (.invalidSpan .sentence "climb") := by
    have hnormal : Frame.normalWords "climb" = ["climb"] := by decide
    unfold Frame.read
    rw [hnormal]
    rfl
  have hnone : ∀ frame, Frame.read "climb" true = .ok (some frame) →
      ExactCommands frame.words := by
    intro frame hframe
    rw [hrefused] at hframe
    cases hframe
  have hfails : (ofSettings {}).extract "climb" { strict := true } =
      .error (.invalidSpan .sentence "climb") := by
    unfold extract
    rw [hrefused]
  refine ⟨read_interrupted, hexact, hends,
    ((extract_strict hexact).1 _ read_interrupted .empty .empty).1 hends, hfails, ?_⟩
  obtain ⟨htext, -⟩ | ⟨hnever, -⟩ := (extract_strict hnone).2 _ _ _ rfl hfails
  · exact htext
  · cases hnever

/-- A descent as a whole sentence, to a level with a repetition of a repetition. -/
def stutteredWords : List String :=
  ["<s>", "<command=\"descend\">", "<flightlevel>", "double", "double", "one", "</flightlevel>",
    "</command>", "</s>"]

/-- What is strictly read in this sentence. -/
def stutteredFrame : Frame where
  tokens := stutteredWords.map Token.plain
  strict := true
  unmatchedClosings := []

theorem legible_stutteredWords : ∀ word ∈ stutteredWords, Frame.Legible word := by
  have hdescend : Tag.IsName "descend" := by decide
  have hlevel : Tag.IsName "flightlevel" := by decide
  have hcommand : Tag.IsName "command" := by decide
  have hdouble : Frame.Legible "double" := Frame.legible_of_all (by decide) (by decide)
  have hone : Frame.Legible "one" := Frame.legible_of_all (by decide) (by decide)
  simp only [stutteredWords, List.forall_mem_cons]
  exact ⟨.tag Tag.plain_sentenceOpen, .tag (.command hdescend), .tag (.opening hlevel), hdouble,
    hdouble, hone, .tag (.closing hlevel), .tag (.closing hcommand),
    .tag Tag.plain_sentenceClose, List.forall_mem_nil _⟩

theorem read_stutteredWords :
    Frame.read (Text.unwords stutteredWords) true = .ok (some stutteredFrame) := by
  have hlower : stutteredWords.map Text.lower = stutteredWords := by decide
  exact Frame.read_unwords_of_lower legible_stutteredWords hlower (List.cons_ne_nil _ _) rfl rfl

/-- Not every text that is strictly read gives an utterance: the level of this one has no end. -/
theorem not_forall_extract_strict :
    ¬ ∀ text : String,
      (∀ frame, Frame.read text true = .ok (some frame) → ExactCommands frame.words) →
      ∀ frame, Frame.read text true = .ok (some frame) → ∀ airlines context,
        ∃ utterance, Utterance.ofFrame frame airlines context = .ok utterance := by
  intro hall
  have hexact : ExactCommands stutteredFrame.words := by
    have hdescend : Tag.IsName "descend" := by decide
    intro word hword hcommand
    have htag : word = "<command=\"descend\">" := by
      revert word
      decide
    exact ⟨"descend", hdescend, htag⟩
  have hread : ∀ frame, Frame.read (Text.unwords stutteredWords) true = .ok (some frame) →
      frame = stutteredFrame := fun frame hframe =>
    Option.some.inj (Except.ok.inj (hframe.symm.trans read_stutteredWords))
  obtain ⟨utterance, hutterance⟩ := hall _ (fun frame hframe => hread frame hframe ▸ hexact)
    stutteredFrame read_stutteredWords .empty .empty
  have hends := Utterance.readIff_ofFrame_of_closes (Frame.closes_of_read read_stutteredWords)
    hexact .empty .empty
  rw [hends.endless fun hends => absurd hends.commands (by decide +kernel)] at hutterance
  cases hutterance

end Annotator

end Phraseology
