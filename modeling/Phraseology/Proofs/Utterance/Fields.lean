import Phraseology.Proofs.Callsign.Spelling
import Phraseology.Proofs.Utterance.Extraction
import Phraseology.Utterance.Record

/-!
# Empty fields

A record is written with a single space between its fields and scores, so that it can be cut
into them again.  This fails where a field is empty (`Record.words_text_iff`).  Concepts, metrics
and scores never are, but a value or a flight number is if nothing is written for any of the words
of its span (`written_of_read`): `descend flight level uh` is a legal command with a metric and
no level (`not_forall_nonempty`).
-/

namespace Phraseology

/-! ## Records -/

namespace Record

variable {record : Record}

/-- The text of a record falls into its fields and scores unless one of them is no word. -/
theorem words_text_iff (hconcept : Text.IsWord record.concept)
    (hmetric : ∀ metric ∈ record.metric, Text.IsWord metric)
    (hvalue : ∀ value ∈ record.value, Text.IsSolid value) :
    Text.words record.text = record.fields ++ record.scores.map scoreText ↔
      Text.IsWord record.callsign ∧ record.value ≠ some "" := by
  constructor
  · intro hwords
    have hfields : ∀ field ∈ record.fields, Text.IsWord field := by
      intro field hfield
      have hmem : field ∈ Text.words record.text := by
        rw [hwords]
        exact List.mem_append_left _ hfield
      exact Text.isWord_of_mem_words hmem
    refine ⟨hfields record.callsign (by simp [fields]), fun hempty => ?_⟩
    have hnone := hfields "" (by simp [fields, hempty])
    exact hnone.nonempty rfl
  · rintro ⟨hcallsign, hnonempty⟩
    refine Text.words_unwords fun word hword => ?_
    simp only [fields, List.mem_append, List.mem_cons, List.not_mem_nil, or_false,
      Option.mem_toList, List.mem_map] at hword
    rcases hword with (((rfl | rfl) | hword) | hword) | ⟨score, -, rfl⟩
    · exact hcallsign
    · exact hconcept
    · refine Text.isWord_iff.mpr ⟨?_, hvalue word hword⟩
      rintro rfl
      exact hnonempty hword
    · exact hmetric word hword
    · exact isWord_scoreText score

end Record

/-! ## Utterances -/

namespace Utterance

variable {frame : Frame} {airlines : AirlineTable} {context : CallsignContext}
  {callsign : Callsign} {commands : List Command} {utterance : Utterance}

theorem filled_of_mem_commandSpans (hfilled : frame.Filled) :
    ∀ span ∈ commandSpans frame, span.Filled := by
  refine forall_mem_commandSpans Frame.Filled ?_ hfilled
  intro frame span rest hfilled hcut
  obtain ⟨hspan, hrest⟩ := hfilled.cutSpan Tag.isCommandOpen fun _ word =>
    word == Tag.commandClose
  rw [← Frame.cutCommand, hcut] at hspan hrest
  exact ⟨hspan span rfl, hrest⟩

theorem written_of_mem_commandsOf (hfilled : frame.Filled)
    (hcommands : commandsOf frame = .ok commands) : ∀ command ∈ commands, command.Written := by
  intro command hcommand
  obtain ⟨span, hspan, hread⟩ := exists_span_of_mem_commandsOf hcommands hcommand
  exact Command.written_of_ofFrame (filled_of_mem_commandSpans hfilled span hspan) hread

theorem written_of_callsignOf {span : Option Frame}
    (hcallsign : callsignOf frame span airlines context = .ok callsign) :
    callsign.Written airlines context := by
  have hnoise : ∀ found : Callsign, found.Written airlines context →
      (if found.isCallsign then found else found.withNoise frame).Written airlines context := by
    intro found hfound
    split
    · exact hfound
    · exact hfound.withNoise frame
  unfold callsignOf at hcallsign
  cases span with
  | none =>
      obtain rfl := Except.ok.inj hcallsign
      exact hnoise _ (Callsign.written_absent airlines context)
  | some span =>
      cases hfound : Callsign.ofFrame span airlines context with
      | error failure =>
          simp only [hfound] at hcallsign
          cases hcallsign
      | ok found =>
          simp only [hfound] at hcallsign
          obtain rfl := Except.ok.inj hcallsign
          exact hnoise found (Callsign.written_of_ofFrame hfound)

/-- A record has the callsign of its utterance, and it has a value and a metric from one of the
commands or none. -/
theorem mem_records_cases {options : ExtractOptions} {record : Record}
    (hrecord : record ∈ utterance.records options) :
    record.callsign = utterance.callsign.code ∧
      ((∃ command ∈ utterance.commands, record.concept = command.concept ∧
          record.value = command.value ∧ record.metric = command.metric) ∨
        record.concept = Command.noConceptName ∧
          record.value = none ∧ record.metric = none) := by
  unfold records at hrecord
  split at hrecord
  · split at hrecord
    · cases hrecord
    · obtain rfl := List.mem_singleton.mp hrecord
      exact ⟨rfl, .inr ⟨rfl, rfl, rfl⟩⟩
  · obtain ⟨command, hcommand, rfl⟩ := List.mem_map.mp hrecord
    exact ⟨rfl, .inl ⟨command, List.mem_of_mem_filter hcommand, rfl, rfl, rfl⟩⟩

theorem words_text_iff_of_written (hcommands : ∀ command ∈ utterance.commands, command.Written)
    {options : ExtractOptions} {record : Record} (hrecord : record ∈ utterance.records options) :
    Text.words record.text = record.fields ++ record.scores.map scoreText ↔
      Text.IsWord record.callsign ∧ record.value ≠ some "" := by
  obtain ⟨-, ⟨command, hcommand, hconcept, hvalue, hmetric⟩ | ⟨hconcept, hvalue, hmetric⟩⟩ :=
    mem_records_cases hrecord
  · have hwritten := hcommands command hcommand
    refine Record.words_text_iff (hconcept ▸ hwritten.concept) (hmetric ▸ hwritten.metric) ?_
    intro value hmem
    obtain ⟨-, -, -, -, -, -, hsolid, -⟩ := hwritten.value value (hvalue ▸ hmem)
    exact hsolid
  · exact Record.words_text_iff (hconcept ▸ by decide) (by simp [hmetric]) (by simp [hvalue])

/-- **Where the fields of a record are empty.**  In an utterance that is read from a text, the
value of a command is what is written for the words of its span, and is empty exactly if there is
nothing to write for any of them.  It is the same with the flight number, unless the callsign is
completed to a known one.  Concepts and metrics are words, and so is the callsign if the table and
the session hold words.  Hence the text of a record can be cut into its fields and scores again
exactly if the callsign is a word and the value is not empty. -/
theorem written_of_read {text : String} {strict : Bool}
    (hread : Frame.read text strict = .ok (some frame))
    (hutterance : ofFrame frame airlines context = .ok utterance) :
    utterance.callsign.Written airlines context ∧
      (∀ command ∈ utterance.commands, command.Written) ∧
      ∀ options, ∀ record ∈ utterance.records options,
        record.callsign = utterance.callsign.code ∧
        (record.value.isSome → ∃ command ∈ utterance.commands, record.value = command.value) ∧
        (Text.words record.text = record.fields ++ record.scores.map scoreText ↔
          Text.IsWord record.callsign ∧ record.value ≠ some "") := by
  obtain ⟨callsign, commands, hcallsign, hcommands, rfl⟩ := exists_of_ofFrame hutterance
  have hleft := ((Frame.filled_of_read hread).cutSpan (· == Tag.callsignOpen) fun _ word =>
    word == Tag.callsignClose).2
  have hwritten : ∀ command ∈ (ofCommands callsign commands).commands, command.Written :=
    forall_mem_ofCommands (Command.written_withoutConcept ..)
      (written_of_mem_commandsOf hleft hcommands)
  refine ⟨written_of_callsignOf hcallsign, hwritten, fun options record hrecord => ?_⟩
  obtain ⟨hcode, hcases⟩ := mem_records_cases hrecord
  refine ⟨hcode, fun hvalue => ?_, words_text_iff_of_written hwritten hrecord⟩
  rcases hcases with ⟨command, hcommand, -, hsame, -⟩ | ⟨-, hnone, -⟩
  · exact ⟨command, hcommand, hsame⟩
  · rw [hnone] at hvalue
    cases hvalue

/-- A descent to a flight level of which only a filler is spoken. -/
def silentDescent : String :=
  "<s> <command=\"descend\"> <flightlevel> uh </flightlevel> </command> </s>"

/-- The words of this descent. -/
def silentDescentWords : List String :=
  ["<s>", "<command=\"descend\">", "<flightlevel>", "uh", "</flightlevel>", "</command>", "</s>"]

/-- The frame of this descent. -/
def silentDescentFrame : Frame :=
  Frame.part (silentDescentWords.map Token.plain) false

theorem read_silentDescent : Frame.read silentDescent false = .ok (some silentDescentFrame) := by
  have hnormal : Frame.normalWords silentDescent = silentDescentWords := by decide
  unfold Frame.read
  rw [hnormal]
  rfl

/-- The descent is a legal command with an empty value. -/
theorem exists_ofFrame_silentDescent :
    ∃ utterance command, ofFrame silentDescentFrame .empty .empty = .ok utterance ∧
      utterance.commands = [command] ∧ command.legal = true ∧ command.hasConcept = true ∧
      command.value = some "" := by
  have hcut : silentDescentFrame.cutTag "callsign" = (none, silentDescentFrame) :=
    Frame.cutTag_eq_none (by decide)
  have hcallsign : callsignOf silentDescentFrame (silentDescentFrame.cutTag "callsign").1
      .empty .empty = .ok (Callsign.absent.withNoise silentDescentFrame) := by
    rw [hcut]
    rfl
  let span := Frame.part ((silentDescentWords.drop 1).dropLast.map Token.plain) false
  have hspan : silentDescentFrame.cutCommand =
      (some span, Frame.part (["<s>", "</s>"].map Token.plain) false) := rfl
  have hrest : commandsOf (Frame.part (["<s>", "</s>"].map Token.plain) false) = .ok [] :=
    commandsOf_eq _
  obtain ⟨command, hcommand, hlegal, hconcept, hvalue⟩ : ∃ command,
      Command.ofFrame span = .ok command ∧ command.legal = true ∧ command.hasConcept = true ∧
        command.value = some "" :=
    ⟨_, rfl, by decide, by decide, by decide⟩
  have hcommands : commandsOf (silentDescentFrame.cutTag "callsign").2 = .ok [command] := by
    rw [hcut, commandsOf_eq, hspan]
    simp only [hcommand, hrest]
    rfl
  refine ⟨_, command, ofFrame_eq_ok hcallsign hcommands, ?_, hlegal, hconcept, hvalue⟩
  simp [ofCommands, hlegal]

/-- So its record has an empty field, and its text does not show where. -/
theorem written_of_read_silentDescent :
    ∃ (utterance : Utterance) (record : Record),
      Frame.read silentDescent false = .ok (some silentDescentFrame) ∧
        ofFrame silentDescentFrame .empty .empty = .ok utterance ∧
        record ∈ utterance.records {} ∧ record.value = some "" ∧
        Text.IsWord utterance.callsign.code ∧
        Text.words record.text ≠ record.fields ++ record.scores.map scoreText := by
  obtain ⟨utterance, command, hutterance, hcommands, -, hconcept, hvalue⟩ :=
    exists_ofFrame_silentDescent
  obtain ⟨hcallsign, -, hrecords⟩ := written_of_read read_silentDescent hutterance
  have hrecord : utterance.commandRecord {} command ∈ utterance.records {} := by
    simp [records, hcommands, hconcept]
  have hempty : (utterance.commandRecord {} command).value = some "" := hvalue
  refine ⟨utterance, _, read_silentDescent, hutterance, hrecord, hempty,
    hcallsign.code AirlineTable.spelled_empty CallsignContext.spelled_empty, fun hwords => ?_⟩
  exact ((hrecords {} _ hrecord).2.2.mp hwords).2 hempty

/-- A legal command may have an empty value. -/
theorem not_forall_nonempty :
    ¬ ∀ (text : String) (strict : Bool) (frame : Frame) (airlines : AirlineTable)
      (context : CallsignContext) (utterance : Utterance),
        Frame.read text strict = .ok (some frame) →
        ofFrame frame airlines context = .ok utterance →
        (∀ command ∈ utterance.commands, command.legal = true → command.value ≠ some "") ∧
          utterance.callsign.flightNumber ≠ some "" ∧
          ∀ options, ∀ record ∈ utterance.records options,
            Text.words record.text = record.fields ++ record.scores.map scoreText := by
  intro hall
  obtain ⟨utterance, command, hutterance, hcommands, hlegal, -, hvalue⟩ :=
    exists_ofFrame_silentDescent
  obtain ⟨hvalues, -, -⟩ := hall silentDescent false _ .empty .empty utterance
    read_silentDescent hutterance
  exact hvalues command (by simp [hcommands]) hlegal hvalue

end Utterance

end Phraseology
