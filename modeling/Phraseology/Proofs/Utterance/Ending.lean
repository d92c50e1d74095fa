import Phraseology.Proofs.Command.Ending
import Phraseology.Proofs.Frame.Cuts
import Phraseology.Utterance.Basic

/-!
# Utterances that are read to the end

The callsign of an utterance is read from the span that is cut out for it, and the commands from
the spans that are cut out of what this leaves (`commandSpans`).  Where all these spans have their
ends in order, the utterance is read if the loops end for the number of the callsign and for the
values of all commands, and goes on for ever otherwise (`readIff_ofFrame`).  A span that is not
read strictly has its ends in order in any case (`readIff_ofFrame_of_lenient`).
-/

namespace Phraseology

variable {frame : Frame}

namespace Callsign

/-- Whether a frame that is to be bounded by the tags of a callsign is not. -/
def isUnbounded (frame : Frame) : Bool :=
  frame.strict &&
    !(frame.firstWord? == some Tag.callsignOpen && frame.lastWord? == some Tag.callsignClose)

/-- Whether the loops end for the flight number of a callsign, if one is spoken. -/
def ReadsToEnd (frame : Frame) : Prop :=
  ∀ span ∈ spoken? ((frame.cutTag "airline").2.cutTag "flightnumber").1,
    Spoken.NumberEnds span.contentWords

instance (frame : Frame) : Decidable (ReadsToEnd frame) :=
  inferInstanceAs (Decidable (∀ span ∈ spoken? _, Spoken.NumberEnds span.contentWords))

theorem readIff_spokenNumber (span : Option Frame) :
    ReadIff (∀ frame ∈ spoken? span, Spoken.NumberEnds frame.contentWords)
      (spokenNumber span) := by
  unfold spokenNumber
  cases spoken? span with
  | none => exact .ok nofun _
  | some frame =>
      refine ((ReadIff.ofLoop _).map _).congr ?_
      rw [Spoken.isSome_number?_iff]
      simp

/-- A callsign whose ends are in order is read if its flight number has an end. -/
theorem readIff_ofFrame (hbounded : isUnbounded frame = false) (airlines : AirlineTable)
    (context : CallsignContext) : ReadIff (ReadsToEnd frame) (ofFrame frame airlines context) := by
  unfold isUnbounded at hbounded
  simp only [ofFrame, hbounded, Bool.false_eq_true, if_false]
  exact (readIff_spokenNumber _).map _

end Callsign

namespace Utterance

/-! ## The spans of the commands -/

/-- The spans that are cut out of a frame for its commands, in their order. -/
def commandSpans (frame : Frame) : List Frame :=
  match h : frame.cutCommand with
  | (none, _) => []
  | (some span, rest) =>
    have := length_cutCommand_lt h
    span :: commandSpans rest
termination_by frame.tokens.length

/-- One cut for a command. -/
theorem commandSpans_eq (frame : Frame) :
    commandSpans frame =
      match frame.cutCommand with
      | (none, _) => []
      | (some span, rest) => span :: commandSpans rest := by
  rw [commandSpans]
  split
  · next hcut => rw [hcut]
  · next span rest hcut => simp only [hcut]

/-- One round of the loop over the commands. -/
theorem commandsOf_eq (frame : Frame) :
    commandsOf frame =
      match frame.cutCommand with
      | (none, _) => .ok []
      | (some span, rest) =>
        match Command.ofFrame span with
        | .error failure => .error failure
        | .ok command => (commandsOf rest).map (command :: ·) := by
  rw [commandsOf]
  split
  · next hcut => rw [hcut]
  · next span rest hcut =>
      cases hread : Command.ofFrame span with
      | error failure => simp only [hcut, hread]
      | ok command => simp only [hcut, hread]

/-- The commands are read from their spans, one after the other. -/
theorem commandsOf_eq_mapM (frame : Frame) :
    commandsOf frame = (commandSpans frame).mapM Command.ofFrame := by
  -- what is left behind a command is shorter
  induction hlength : frame.tokens.length using Nat.strongRecOn generalizing frame with
  | _ length ih =>
      rw [commandsOf_eq, commandSpans_eq]
      split
      · rfl
      · next span rest hcut =>
          rw [List.mapM_cons, ← ih _ (hlength ▸ length_cutCommand_lt hcut) rest rfl]
          cases Command.ofFrame span <;> rfl

/-- All spans have a property if each cut gives one that has it, and keeps what makes it do so. -/
theorem forall_mem_commandSpans (Keeps : Frame → Prop) {Has : Frame → Prop}
    (hcuts : ∀ {frame span rest : Frame}, Keeps frame → frame.cutCommand = (some span, rest) →
      Has span ∧ Keeps rest)
    (hkeeps : Keeps frame) : ∀ span ∈ commandSpans frame, Has span := by
  induction hlength : frame.tokens.length using Nat.strongRecOn generalizing frame with
  | _ length ih =>
      rw [commandSpans_eq]
      split
      · simp
      · next span rest hcut =>
          obtain ⟨hspan, hrest⟩ := hcuts hkeeps hcut
          exact List.forall_mem_cons.mpr
            ⟨hspan, ih _ (hlength ▸ length_cutCommand_lt hcut) hrest rfl⟩

/-- Each command that is read is read from one of the spans. -/
theorem exists_span_of_mem_commandsOf {commands : List Command} {command : Command}
    (hcommands : commandsOf frame = .ok commands) (hcommand : command ∈ commands) :
    ∃ span ∈ commandSpans frame, Command.ofFrame span = .ok command := by
  rw [commandsOf_eq_mapM] at hcommands
  have hreads := forall₂_of_mapM hcommands
  clear hcommands
  generalize commandSpans frame = spans at hreads ⊢
  induction hreads with
  | nil => cases hcommand
  | cons hread _ ih =>
      rcases List.mem_cons.mp hcommand with rfl | hlater
      · exact ⟨_, List.mem_cons_self, hread⟩
      · obtain ⟨span, hspan, hother⟩ := ih hlater
        exact ⟨span, List.mem_cons_of_mem _ hspan, hother⟩

theorem strict_of_mem_commandSpans : ∀ span ∈ commandSpans frame, span.strict = frame.strict := by
  refine forall_mem_commandSpans (fun left => left.strict = frame.strict) ?_ rfl
  intro left span rest hleft hcut
  obtain ⟨hspan, hrest⟩ := Frame.strict_cutSpan left Tag.isCommandOpen
    fun _ word => word == Tag.commandClose
  rw [← Frame.cutCommand, hcut] at hspan hrest
  exact ⟨(hspan span rfl).trans hleft, hrest.trans hleft⟩

/-! ## The utterance -/

/-- Whether the loops end for the callsign and for all commands of an utterance. -/
structure ReadsToEnd (frame : Frame) : Prop where
  callsign : ∀ span ∈ (frame.cutTag "callsign").1, Callsign.ReadsToEnd span
  commands : ∀ span ∈ commandSpans (frame.cutTag "callsign").2, Command.ReadsToEnd span

theorem readIff_callsignOf
    (hcallsign : ∀ span ∈ (frame.cutTag "callsign").1, Callsign.isUnbounded span = false)
    (airlines : AirlineTable) (context : CallsignContext) :
    ReadIff (∀ span ∈ (frame.cutTag "callsign").1, Callsign.ReadsToEnd span)
      (callsignOf frame (frame.cutTag "callsign").1 airlines context) := by
  unfold callsignOf
  refine ReadIff.map ?_ _
  cases hspan : (frame.cutTag "callsign").1 with
  | none => exact .ok nofun _
  | some span =>
      refine (Callsign.readIff_ofFrame (hcallsign span hspan) airlines context).congr ?_
      simp

/-- An utterance whose spans have their ends in order is read if all its numbers have an end. -/
theorem readIff_ofFrame
    (hcallsign : ∀ span ∈ (frame.cutTag "callsign").1, Callsign.isUnbounded span = false)
    (hcommands : ∀ span ∈ commandSpans (frame.cutTag "callsign").2,
      Command.isUnbounded span = false)
    (airlines : AirlineTable) (context : CallsignContext) :
    ReadIff (ReadsToEnd frame) (ofFrame frame airlines context) := by
  have hread := (readIff_callsignOf hcallsign airlines context).bind fun callsign =>
    (ReadIff.mapM fun span hspan => Command.readIff_ofFrame (hcommands span hspan)).map
      (ofCommands callsign)
  rw [← commandsOf_eq_mapM] at hread
  have hsame : ofFrame frame airlines context =
      (callsignOf frame (frame.cutTag "callsign").1 airlines context).bind fun callsign =>
        (commandsOf (frame.cutTag "callsign").2).map (ofCommands callsign) := by
    unfold ofFrame
    dsimp only
    cases callsignOf frame (frame.cutTag "callsign").1 airlines context <;> rfl
  rw [hsame]
  exact hread.congr ⟨fun ⟨hfirst, hlater⟩ => ⟨hfirst, hlater⟩,
    fun hends => ⟨hends.callsign, hends.commands⟩⟩

/-- A frame that is not read strictly gives an utterance if all its numbers have an end. -/
theorem readIff_ofFrame_of_lenient (hlenient : frame.strict = false) (airlines : AirlineTable)
    (context : CallsignContext) :
    ReadIff (ReadsToEnd frame) (ofFrame frame airlines context) := by
  have hspan := Frame.strict_cutSpan frame (· == Tag.callsignOpen)
    fun _ word => word == Tag.callsignClose
  refine readIff_ofFrame (fun span hcut => ?_) (fun span hcut => ?_) airlines context
  · rw [Callsign.isUnbounded, hspan.1 span hcut, hlenient, Bool.false_and]
  · have hrest : (frame.cutTag "callsign").2.strict = frame.strict := hspan.2
    rw [Command.isUnbounded, strict_of_mem_commandSpans span hcut, hrest, hlenient,
      Bool.false_and]

end Utterance

end Phraseology
