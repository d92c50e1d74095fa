import Phraseology.Proofs.Frame.CommandOrder
import Phraseology.Proofs.Utterance.Ending
import Phraseology.Utterance.Record

/-!
# Every command is extracted

The callsign of an utterance is cut out of its frame before the commands are, and each
command is cut up to the next `</command>` of what is left.  In a repaired frame none of
these cuts goes across another (`Placed Repair.Allows`), so the commands come out as they
stand there.

* `exists_spans`: the frame consists of command spans and of words between them, also
  where the part that the callsign takes is marked;
* `commandSpans_of_spans`: the loop over the commands of what the callsign leaves reads just
  these spans;
* `ofFrame_extracts`: so an utterance holds one command for each tag that opens one, and
  its records are those of the legal ones.  It is read if all its numbers have an end, and not
  otherwise (`not_forall_ofFrame_extracts`).
-/

namespace Phraseology

open Repair (Region Placed Allows PlainCommands HoldersOutside)

/-! ## What a span is read as -/

/-- A command has the type that the first word of its frame names. -/
theorem Command.type_of_ofFrame {frame : Frame} {command : Command}
    (hread : ofFrame frame = .ok command) : command.type = typeOf frame := by
  cases hbounded : isUnbounded frame with
  | true =>
      rw [ofFrame_of_isUnbounded hbounded] at hread
      cases hread
  | false =>
      cases hkind : CommandKind.ofType (typeOf frame) with
      | ruled rule =>
          rw [ofFrame_of_ruled hbounded hkind] at hread
          exact (type_ofRule hread).trans (CommandKind.type_eq_of_ruled hkind)
      | acknowledgement =>
          rw [ofFrame_of_acknowledgement hbounded hkind] at hread
          obtain rfl := Except.ok.inj hread
          rfl
      | unknown =>
          rw [ofFrame_of_unknown hbounded hkind] at hread
          obtain rfl := Except.ok.inj hread
          rfl

namespace Utterance

/-! ## The spans of a frame -/

/-- A token with whether it is left when the callsign is cut out. -/
abbrev Marked := Token × Bool

/-- The tokens that are left. -/
def kept (marked : List Marked) : List Token :=
  (marked.filter (·.2)).map (·.1)

/-- The tokens of a frame, each with whether it is left when the callsign is cut out. -/
def marks (frame : Frame) : List Marked :=
  match Cut.find? (· == Tag.callsignOpen) (fun _ word => word == Tag.callsignClose)
    frame.tokens with
  | none => frame.tokens.map (·, true)
  | some cut => cut.before.map (·, true) ++ cut.inner.map (·, false) ++ cut.after.map (·, true)

/-- Whether a word neither opens nor closes a command. -/
def IsBetween (word : String) : Prop :=
  Tag.isCommandOpen word = false ∧ word ≠ Tag.commandClose

/-- Some tokens as command spans and words between them.  A span runs from the tag that
opens it to the first tag behind that closes a command, and no tag of a command stands
anywhere else.  Both ends of a span are left by the callsign. -/
inductive CommandSpans : List Marked → List (List Marked) → Prop
  | nil : CommandSpans [] []
  | between (token : Marked) {rest : List Marked} {spans : List (List Marked)}
      (word : IsBetween token.1.word) (more : CommandSpans rest spans) :
      CommandSpans (token :: rest) spans
  | span (opener closer : Token) (body : List Marked) {rest : List Marked}
      {spans : List (List Marked)} (opens : Tag.isCommandOpen opener.word = true)
      (inside : ∀ token ∈ body, IsBetween token.1.word) (closes : closer.word = Tag.commandClose)
      (more : CommandSpans rest spans) :
      CommandSpans ((opener, true) :: body ++ (closer, true) :: rest)
        (((opener, true) :: body ++ [(closer, true)]) :: spans)

theorem kept_append (first second : List Marked) :
    kept (first ++ second) = kept first ++ kept second := by
  simp [kept]

variable {frame : Frame} {marked : List Marked} {spans : List (List Marked)} {region : Region}
  {words : List String}

theorem isBetween_iff {word : String} :
    IsBetween word ↔ ¬ (Tag.isCommandOpen word = true ∨ word = Tag.commandClose) := by
  rw [IsBetween, not_or, Bool.not_eq_true]

/-- Tokens with their commands in order are made of command spans, as long as the callsign
takes no tag of a command.  Where a command is open, they first lead out of it. -/
theorem exists_spans_of_placed
    (hplaced : Placed Allows region (marked.map (·.1.word)))
    (hend : region.after (marked.map (·.1.word)) = .outside)
    (hleft : ∀ token ∈ marked, token.2 = false → IsBetween token.1.word) :
    (region.command = false → ∃ spans, CommandSpans marked spans) ∧
      (region.command = true → ∃ body closer rest spans,
        marked = body ++ (closer, true) :: rest ∧ (∀ token ∈ body, IsBetween token.1.word) ∧
          closer.word = Tag.commandClose ∧ CommandSpans rest spans) := by
  induction marked generalizing region with
  | nil =>
      refine ⟨fun _ => ⟨[], .nil⟩, fun hopen => ?_⟩
      have hregion : region = .outside := hend
      rw [hregion] at hopen
      cases hopen
  | cons token marked ih =>
      obtain ⟨hallows, hrest⟩ := hplaced
      obtain ⟨hleftHead, hleft⟩ := List.forall_mem_cons.mp hleft
      obtain ⟨ihOutside, ihInside⟩ := ih hrest hend hleft
      obtain ⟨token, mark⟩ := token
      have hmark : ¬ IsBetween token.word → mark = true :=
        fun htag => Bool.not_eq_false _ ▸ fun h => htag (hleftHead h)
      by_cases hopens : Tag.isCommandOpen token.word = true
      · -- a command is opened where none is open
        have hregion : region = .outside := hallows.opener hopens
        obtain rfl := hmark fun hbetween => by simp [hbetween.1] at hopens
        have hinside : (region.enter token.word).command = true := by simp [Region.enter, hopens]
        obtain ⟨body, closer, rest, spans, rfl, hbody, hcloses, hspans⟩ := ihInside hinside
        refine ⟨fun _ => ⟨_, .span token closer body hopens hbody hcloses hspans⟩, fun hopen => ?_⟩
        rw [hregion] at hopen
        cases hopen
      · rw [Bool.not_eq_true] at hopens
        by_cases hcloses : token.word = Tag.commandClose
        · have hregion : region = ⟨true, false⟩ := hallows.closer hcloses
          obtain rfl := hmark fun hbetween => hbetween.2 hcloses
          have houtside : (region.enter token.word).command = false := by
            rw [Region.enter, hopens, hcloses, bne_self_eq_false, Bool.and_false, Bool.or_false]
          obtain ⟨spans, hspans⟩ := ihOutside houtside
          refine ⟨fun hopen => ?_,
            fun _ => ⟨[], token, marked, spans, rfl, by simp, hcloses, hspans⟩⟩
          rw [hregion] at hopen
          cases hopen
        · have hbetween : IsBetween token.word := ⟨hopens, hcloses⟩
          have hsame : (region.enter token.word).command = region.command := by
            rw [Region.enter, hopens, bne_iff_ne.mpr hcloses, Bool.false_or, Bool.and_true]
          rw [hsame] at ihOutside ihInside
          refine ⟨fun hopen => ?_, fun hopen => ?_⟩
          · obtain ⟨spans, hspans⟩ := ihOutside hopen
            exact ⟨spans, .between (token, mark) hbetween hspans⟩
          · obtain ⟨body, closer, rest, spans, rfl, hbody, hcloses, hspans⟩ := ihInside hopen
            exact ⟨(token, mark) :: body, closer, rest, spans, rfl,
              List.forall_mem_cons.mpr ⟨hbetween, hbody⟩, hcloses, hspans⟩

/-- In a callsign no command is opened or closed. -/
theorem isBetween_of_callsign (hcallsign : region.callsign = true) {word : String}
    (hallows : Allows region word) : IsBetween word := by
  rw [isBetween_iff]
  rintro (hopens | hcloses)
  · rw [hallows.opener hopens] at hcallsign
    cases hcallsign
  · rw [hallows.closer hcloses] at hcallsign
    cases hcallsign

/-- The callsign's span holds no tag of a command. -/
theorem isBetween_of_throughCloser {tokens : List Token} (hcallsign : region.callsign = true)
    (hplaced : Placed Allows region (tokens.map (·.word))) :
    ∀ token ∈ (Cut.throughCloser (· == Tag.callsignClose) tokens).1, IsBetween token.word := by
  induction tokens generalizing region with
  | nil => simp [Cut.throughCloser]
  | cons token tokens ih =>
      obtain ⟨hallows, hrest⟩ := hplaced
      have hfirst := isBetween_of_callsign hcallsign hallows
      unfold Cut.throughCloser
      by_cases hcloses : token.word = Tag.callsignClose
      · rw [if_pos (beq_iff_eq.mpr hcloses)]
        exact List.forall_mem_singleton.mpr hfirst
      · rw [if_neg (by simpa using hcloses)]
        have hinside : (region.enter token.word).callsign = true := by
          rw [Region.enter, hcallsign, bne_iff_ne.mpr hcloses]
          simp
        exact List.forall_mem_cons.mpr ⟨hfirst, ih hinside hrest⟩

theorem isBetween_of_find? {tokens : List Token} {cut : Cut}
    (hplaced : Placed Allows region (tokens.map (·.word)))
    (hcut : Cut.find? (· == Tag.callsignOpen) (fun _ word => word == Tag.callsignClose) tokens =
      some cut) : ∀ token ∈ cut.inner, IsBetween token.word := by
  induction tokens generalizing region cut with
  | nil => simp [Cut.find?] at hcut
  | cons token tokens ih =>
      obtain ⟨-, hrest⟩ := hplaced
      unfold Cut.find? at hcut
      by_cases hopens : token.word = Tag.callsignOpen
      · rw [if_pos (beq_iff_eq.mpr hopens)] at hcut
        obtain rfl := Option.some.inj hcut
        refine List.forall_mem_cons.mpr ⟨?_, isBetween_of_throughCloser ?_ hrest⟩
        · rw [hopens]
          exact ⟨by decide, by decide⟩
        · simp [Region.enter, hopens]
      · rw [if_neg (by simpa using hopens)] at hcut
        obtain ⟨inner, hinner, rfl⟩ := Option.map_eq_some_iff.mp hcut
        have hbetween : ∀ token ∈ inner.inner, IsBetween token.word := ih hrest hinner
        exact hbetween

theorem map_word_marks (frame : Frame) : (marks frame).map (·.1.word) = frame.words := by
  unfold marks
  split
  · simp [Frame.words]
  · next cut hcut => simp [Frame.words, Cut.find?_eq_append hcut, Function.comp_def]

/-- A frame with its commands in order is made of command spans. -/
theorem exists_spans (hplaced : Placed Allows .outside frame.words)
    (hend : Region.outside.after frame.words = .outside) :
    ∃ spans, CommandSpans (marks frame) spans := by
  have hwords := map_word_marks frame
  rw [← hwords] at hplaced hend
  refine (exists_spans_of_placed hplaced hend ?_).1 rfl
  intro token htoken hmark
  rw [hwords] at hplaced
  unfold marks at htoken
  split at htoken
  · obtain ⟨other, -, rfl⟩ := List.mem_map.mp htoken
    cases hmark
  · next cut hcut =>
      rw [List.mem_append, List.mem_append] at htoken
      rcases htoken with (hbefore | hinner) | hafter
      · obtain ⟨other, -, rfl⟩ := List.mem_map.mp hbefore
        cases hmark
      · obtain ⟨other, hother, rfl⟩ := List.mem_map.mp hinner
        exact isBetween_of_find? hplaced hcut other hother
      · obtain ⟨other, -, rfl⟩ := List.mem_map.mp hafter
        cases hmark

/-- The tokens that are left are those that the callsign's cut leaves. -/
theorem kept_marks (frame : Frame) :
    kept (marks frame) = (frame.cutTag "callsign").2.tokens := by
  have hkept : ∀ tokens : List Token, kept (tokens.map (·, true)) = tokens := by
    intro tokens
    simp [kept, List.filter_map, Function.comp_def]
  have hgone : ∀ tokens : List Token, kept (tokens.map (·, false)) = [] := by
    intro tokens
    simp [kept, List.filter_map, Function.comp_def]
  have hcutTag : frame.cutTag "callsign" =
      frame.cutSpan (· == Tag.callsignOpen) fun _ word => word == Tag.callsignClose := rfl
  rw [hcutTag, marks, Frame.cutSpan]
  cases Cut.find? (· == Tag.callsignOpen) (fun _ word => word == Tag.callsignClose)
      frame.tokens with
  | none => exact hkept frame.tokens
  | some cut =>
      simp only [kept_append, hkept, hgone, List.append_nil]
      rfl

/-! ## The loop over the commands -/

/-- A command is read from what the callsign leaves of a span. -/
def Reads (span : List Marked) (command : Command) : Prop :=
  Command.ofFrame (Frame.part (kept span) false) = .ok command

/-- What is cut out for the commands is what the callsign leaves of each command span. -/
theorem commandSpans_of_spans (hspans : CommandSpans marked spans) {before : List Token}
    (hbefore : ∀ token ∈ before, Tag.isCommandOpen token.word = false)
    (htokens : frame.tokens = before ++ kept marked) (hstrict : frame.strict = false) :
    commandSpans frame = spans.map fun span => Frame.part (kept span) false := by
  induction hspans generalizing before frame with
  | nil =>
      have hnone : Cut.find? Tag.isCommandOpen (fun _ word => word == Tag.commandClose)
          frame.tokens = none := by
        refine Cut.find?_eq_none ?_
        rw [htokens]
        simpa [kept] using hbefore
      rw [commandSpans_eq, Frame.cutCommand, Frame.cutSpan, hnone]
      rfl
  | @between token rest spans hword _ ih =>
      obtain ⟨token, mark⟩ := token
      cases mark with
      | false => exact ih hbefore htokens hstrict
      | true =>
          have hlonger : ∀ other ∈ before ++ [token], Tag.isCommandOpen other.word = false :=
            List.forall_mem_append.mpr ⟨hbefore, List.forall_mem_singleton.mpr hword.1⟩
          refine ih hlonger ?_ hstrict
          rw [htokens, List.append_assoc]
          rfl
  | @span opener closer body rest spans hopens hinside hcloses _ ih =>
      have hkept : ∀ token ∈ kept body, (token.word == Tag.commandClose) = false := by
        intro token htoken
        obtain ⟨other, hother, rfl⟩ := List.mem_map.mp htoken
        exact beq_false_of_ne (hinside other (List.mem_filter.mp hother).1).2
      have hspan : kept ((opener, true) :: body ++ [(closer, true)]) =
          opener :: kept body ++ [closer] := kept_append ((opener, true) :: body) _
      have hwhole : frame.tokens = before ++ opener :: kept body ++ closer :: kept rest := by
        rw [htokens, kept_append, List.append_assoc]
        rfl
      have hcut : Cut.find? Tag.isCommandOpen (fun _ word => word == Tag.commandClose)
          frame.tokens =
            some { inner := opener :: kept body ++ [closer], before, after := kept rest } := by
        rw [hwhole]
        exact Cut.find?_eq_some hbefore hopens hkept (beq_iff_eq.mpr hcloses)
      have hleft : (Frame.part (before ++ kept rest) false).tokens = before ++ kept rest := rfl
      have hrest := ih hbefore hleft rfl
      rw [commandSpans_eq, Frame.cutCommand, Frame.cutSpan, hcut, hstrict, List.map_cons, hspan,
        ← hrest]

/-- The commands have the types of the tags that open one. -/
theorem types_of_spans (hspans : CommandSpans marked spans) {built : List Command}
    (hreads : List.Forall₂ Reads spans built) :
    built.map (·.type) = (marked.map (·.1.word)).filterMap Tag.commandType? := by
  induction hspans generalizing built with
  | nil =>
      cases hreads
      rfl
  | between token hword _ ih =>
      have hnone : Tag.commandType? token.1.word = none :=
        Option.isSome_eq_false_iff.mp hword.1 |> Option.isNone_iff_eq_none.mp
      rw [List.map_cons, List.filterMap_cons_none hnone]
      exact ih hreads
  | @span opener closer body rest spans hopens hinside hcloses _ ih =>
      obtain ⟨command, built, hread, hrest, rfl⟩ := List.forall₂_cons_left_iff.mp hreads
      obtain ⟨type, htype⟩ := Option.isSome_iff_exists.mp hopens
      have hcommand : command.type = type := by
        have hfirst : (Frame.part (kept ((opener, true) :: body ++ [(closer, true)]))
          false).firstWord? = some opener.word := rfl
        rw [Command.type_of_ofFrame hread, Command.typeOf, hfirst, Option.bind_some, htype]
        rfl
      have hbody : (body.map (·.1.word)).filterMap Tag.commandType? = [] := by
        rw [List.filterMap_eq_nil_iff]
        intro word hword
        obtain ⟨token, htoken, rfl⟩ := List.mem_map.mp hword
        exact Option.isNone_iff_eq_none.mp (Option.isSome_eq_false_iff.mp (hinside token htoken).1)
      have hcloser : Tag.commandType? closer.word = none := by
        rw [hcloses]
        decide
      rw [List.map_append, List.filterMap_append, List.map_cons, List.map_cons, List.map_cons,
        List.filterMap_cons_some htype, hbody, List.filterMap_cons_none hcloser, ih hrest,
        hcommand]
      rfl

/-! ## The utterance -/

/-- What an utterance and its records say of the commands that were built from a frame.
Each is built from what the callsign leaves of one span, and all spans are used, in their
order. -/
structure Extracts (frame : Frame) (built : List Command) (utterance : Utterance) : Prop where
  spans : ∃ spans, CommandSpans (marks frame) spans ∧ List.Forall₂ Reads spans built
  types : built.map (·.type) = frame.words.filterMap Tag.commandType?
  legal : built.filter (·.legal) ≠ [] → utterance.commands = built.filter (·.legal)
  standIn : built.filter (·.legal) = [] → utterance.commands = [.noConcept]
  dropped : utterance.dropped = built.filter (!·.legal)
  nonempty : utterance.commands ≠ []
  records : ∀ options, built.filter (fun command => command.legal && command.hasConcept) ≠ [] →
    utterance.records options =
      (built.filter fun command => command.legal && command.hasConcept).map
        (utterance.commandRecord options)
  noRecords : ∀ options, built.filter (fun command => command.legal && command.hasConcept) = [] →
    ∃ record, utterance.records options = [record] ∧ record.concept = Command.noConceptName

theorem filter_legal_hasConcept (built : List Command) :
    (built.filter (·.legal)).filter (·.hasConcept) =
      built.filter fun command => command.legal && command.hasConcept := by
  rw [List.filter_filter]
  exact List.filter_congr fun command _ => Bool.and_comm _ _

/-- What an utterance holds of some commands, and the records of it. -/
theorem ofCommands_extracts (callsign : Callsign) {built : List Command}
    (hspans : CommandSpans (marks frame) spans) (hreads : List.Forall₂ Reads spans built) :
    Extracts frame built (ofCommands callsign built) := by
  have htypes : built.map (·.type) = frame.words.filterMap Tag.commandType? := by
    rw [← map_word_marks frame]
    exact types_of_spans hspans hreads
  have hlegal : built.filter (·.legal) ≠ [] →
      (ofCommands callsign built).commands = built.filter (·.legal) := by
    intro hsome
    simp [ofCommands, hsome]
  have hstandIn : built.filter (·.legal) = [] →
      (ofCommands callsign built).commands = [.noConcept] := by
    intro hnone
    simp [ofCommands, hnone]
  have hnonempty : (ofCommands callsign built).commands ≠ [] := by
    by_cases hnone : built.filter (·.legal) = []
    · rw [hstandIn hnone]
      simp
    · rw [hlegal hnone]
      exact hnone
  refine ⟨⟨spans, hspans, hreads⟩, htypes, hlegal, hstandIn, rfl, hnonempty,
    fun options hsome => ?records, fun options hnone => ?noRecords⟩
  case records =>
    have hsomeLegal : built.filter (·.legal) ≠ [] := by
      intro hnone
      rw [← filter_legal_hasConcept, hnone] at hsome
      exact hsome rfl
    unfold records
    rw [hlegal hsomeLegal, filter_legal_hasConcept]
    split
    · next hnone => exact absurd hnone hsome
    · rfl
  case noRecords =>
    have hconcepts : (ofCommands callsign built).commands.filter (·.hasConcept) = [] := by
      by_cases hnoneLegal : built.filter (·.legal) = []
      · rw [hstandIn hnoneLegal]
        rfl
      · rw [hlegal hnoneLegal, filter_legal_hasConcept, hnone]
    refine ⟨(ofCommands callsign built).fallbackRecord options, ?_, rfl⟩
    have hsomeCommands : (ofCommands callsign built).commands.isEmpty = false :=
      List.isEmpty_eq_false_iff.mpr hnonempty
    simp [records, hconcepts, hsomeCommands]

/-- What holds of some commands and of the stand-in holds of the commands of an utterance. -/
theorem forall_mem_ofCommands {Has : Command → Prop} {callsign : Callsign} {commands : List Command}
    (hstandIn : Has .noConcept) (hcommands : ∀ command ∈ commands, Has command) :
    ∀ command ∈ (ofCommands callsign commands).commands, Has command := by
  intro command hcommand
  unfold ofCommands at hcommand
  simp only at hcommand
  split at hcommand
  · obtain rfl := List.mem_singleton.mp hcommand
    exact hstandIn
  · exact hcommands command (List.mem_of_mem_filter hcommand)

/-- A frame gives an utterance if its callsign is read and so are the commands that this
leaves. -/
theorem ofFrame_eq_ok {airlines : AirlineTable} {context : CallsignContext} {callsign : Callsign}
    {commands : List Command}
    (hcallsign : callsignOf frame (frame.cutTag "callsign").1 airlines context = .ok callsign)
    (hcommands : commandsOf (frame.cutTag "callsign").2 = .ok commands) :
    ofFrame frame airlines context = .ok (ofCommands callsign commands) := by
  unfold ofFrame
  simp only [hcallsign, hcommands]
  rfl

/-- An utterance is made of the callsign that is read and of the commands that this leaves. -/
theorem exists_of_ofFrame {airlines : AirlineTable} {context : CallsignContext}
    {utterance : Utterance} (hread : ofFrame frame airlines context = .ok utterance) :
    ∃ callsign commands,
      callsignOf frame (frame.cutTag "callsign").1 airlines context = .ok callsign ∧
        commandsOf (frame.cutTag "callsign").2 = .ok commands ∧
        utterance = ofCommands callsign commands := by
  unfold ofFrame at hread
  simp only at hread
  split at hread
  · cases hread
  · next callsign hcallsign =>
      cases hcommands : commandsOf (frame.cutTag "callsign").2 with
      | error failure =>
          rw [hcommands] at hread
          cases hread
      | ok commands =>
          rw [hcommands] at hread
          exact ⟨callsign, commands, hcallsign, rfl, (Except.ok.inj hread).symm⟩

/-- **Every command is extracted.**  In a text that is read without insisting on tags at
its ends, in which what starts like a command is one and no sentence or list of commands
is opened in a command or a callsign, each tag that opens a command gives one command,
read from the span up to the next `</command>` without what the callsign takes of it.  This takes
numbers of which the loops end, in the callsign and in all commands; otherwise the reading has no
end. -/
theorem ofFrame_extracts {text : String} (hread : Frame.read text false = .ok (some frame))
    (hplain : PlainCommands frame.words) (hholders : HoldersOutside .outside frame.words)
    (airlines : AirlineTable) (context : CallsignContext) :
    (ReadsToEnd frame → ∃ utterance built, ofFrame frame airlines context = .ok utterance ∧
      Extracts frame built utterance) ∧
    (¬ ReadsToEnd frame → ofFrame frame airlines context = .error .endless) := by
  obtain ⟨hplaced, hend⟩ := Frame.read_ordersCommands hread hplain hholders
  obtain ⟨spans, hspans⟩ := exists_spans hplaced hend
  obtain ⟨-, -, hstrict⟩ := Frame.exists_run_of_read hread
  have hleft : (frame.cutTag "callsign").2.strict = false :=
    hstrict ▸ (Frame.strict_cutSpan ..).2
  have hnone : ∀ token ∈ ([] : List Token), Tag.isCommandOpen token.word = false := by simp
  have hcuts := commandSpans_of_spans hspans hnone (kept_marks frame).symm hleft
  have hreadIff := readIff_ofFrame_of_lenient hstrict airlines context
  refine ⟨fun hends => ?_, hreadIff.endless⟩
  obtain ⟨utterance, hutterance⟩ := hreadIff.read hends
  obtain ⟨callsign, built, -, hbuilt, rfl⟩ := exists_of_ofFrame hutterance
  rw [commandsOf_eq_mapM, hcuts] at hbuilt
  have hreads := forall₂_of_mapM hbuilt
  rw [List.forall₂_map_left_iff] at hreads
  exact ⟨_, built, hutterance, ofCommands_extracts callsign hspans hreads⟩

/-- A text with a callsign inside a command and another command behind, which is all that
closes the two. -/
def relayed : String :=
  "<command=\"turn\"> left <callsign> x <command=\"climb\"> <flightlevel> double two zero"

/-- The tokens of this text. -/
def relayedTokens : List Token :=
  ["<command=\"turn\">", "left", "<callsign>", "x", "<command=\"climb\">", "<flightlevel>", "double",
    "two", "zero"].map Token.plain

/-- What is read in this text. -/
def relayedFrame : Frame :=
  { tokens := (Repair.run relayedTokens).1, strict := false, unmatchedClosings := [] }

theorem words_relayedFrame :
    relayedFrame.words =
      ["<command=\"turn\">", "left", "<callsign>", "x", "</callsign>", "</command>",
        "<command=\"climb\">", "<flightlevel>", "double", "two", "zero", "</flightlevel>",
        "</command>"] := by
  decide

theorem read_relayed : Frame.read relayed false = .ok (some relayedFrame) := by
  have hnormal : Frame.normalWords relayed = relayedTokens.map (·.word) := by decide
  unfold Frame.read
  rw [hnormal]
  rfl

theorem plainCommands_relayedFrame : PlainCommands relayedFrame.words := by
  rw [words_relayedFrame]
  have hturn : Tag.IsName "turn" := by decide
  have hclimb : Tag.IsName "climb" := by decide
  simp only [PlainCommands, List.forall_mem_cons]
  refine ⟨fun _ => .inr ⟨"turn", hturn, rfl⟩, ?_, ?_, ?_, ?_, ?_,
    fun _ => .inr ⟨"climb", hclimb, rfl⟩, ?_, ?_, ?_, ?_, ?_, ?_, by simp⟩
  all_goals exact fun hstart => absurd hstart (by decide)

theorem extracts_relayed :
    Frame.read relayed false = .ok (some relayedFrame) ∧ PlainCommands relayedFrame.words ∧
      HoldersOutside .outside relayedFrame.words ∧ ReadsToEnd relayedFrame ∧
      ∃ utterance built, ofFrame relayedFrame .empty .empty = .ok utterance ∧
        Extracts relayedFrame built utterance ∧ built.map (·.type) = ["turn", "climb"] := by
  have hholders : HoldersOutside .outside relayedFrame.words := by
    rw [words_relayedFrame]
    decide
  have hends : ReadsToEnd relayedFrame := ⟨by decide +kernel, by decide +kernel⟩
  obtain ⟨utterance, built, hutterance, hextracts⟩ :=
    (ofFrame_extracts read_relayed plainCommands_relayedFrame hholders .empty .empty).1 hends
  refine ⟨read_relayed, plainCommands_relayedFrame, hholders, hends, utterance, built, hutterance,
    hextracts, ?_⟩
  rw [hextracts.types, words_relayedFrame]
  decide

/-- Not every command is extracted: the level of this one has no end. -/
theorem not_forall_ofFrame_extracts :
    ¬ ∀ (text : String) (frame : Frame), Frame.read text false = .ok (some frame) →
      PlainCommands frame.words → HoldersOutside .outside frame.words →
      ∀ airlines context, ∃ utterance built, ofFrame frame airlines context = .ok utterance ∧
        Extracts frame built utterance := by
  intro hall
  have hdescend : Tag.IsName "descend" := by decide
  have hplain : PlainCommands Command.stutteredFrame.words := by
    simp only [PlainCommands, Command.words_stutteredFrame, List.forall_mem_cons]
    refine ⟨fun _ => .inr ⟨"descend", hdescend, rfl⟩, ?_, ?_, ?_, ?_, ?_, ?_, by simp⟩
    all_goals exact fun hstart => absurd hstart (by decide)
  have hendless : ofFrame Command.stutteredFrame .empty .empty = .error .endless := by
    refine (readIff_ofFrame_of_lenient rfl .empty .empty).endless fun hends => ?_
    exact absurd hends.commands (by decide +kernel)
  obtain ⟨utterance, built, hutterance, -⟩ := hall _ _ Command.read_stutteredDescent hplain
    (by decide) .empty .empty
  rw [hendless] at hutterance
  cases hutterance

end Utterance

end Phraseology
