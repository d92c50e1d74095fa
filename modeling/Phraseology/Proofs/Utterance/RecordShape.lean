import Phraseology.Proofs.Command.Interpretation
import Phraseology.Proofs.Utterance.Fields

/-!
# Which scores a record has

What is asked for decides about the scores of a record and about nothing else.  Records for
different options have the same fields (`records_sameFields`), and the scores stand behind them,
so that a record without scores starts the text of the one with scores
(`Record.unscored_prefix`).

A reader of the text tells fields from scores by their number.  There is one score for each
field that is there and then one for all of them, each if it is asked for (`Record.Scores`).
Records are made in two ways, and each needs something of the commands to keep to this
(`Command.Coherent`):

* the record of a command scores the metric only if it scores the value, so a command with a
  metric must have a value,
* the record without a concept scores whatever spans of values there are and has no value, so
  a command without a concept must not have such a span.
-/

namespace Phraseology

/-! ## Commands -/

namespace Command

/-- Whether a command has no metric without a value, and no span of a value without a
concept. -/
structure Coherent (command : Command) : Prop where
  metric : command.metric.isSome → command.value.isSome
  valueFrame : command.hasConcept = false → command.valueFrame = none

theorem coherent_withoutConcept (type : String) (legal : Bool) (conceptFrame : Option Frame) :
    (withoutConcept type legal conceptFrame).Coherent where
  metric h := h
  valueFrame _ := rfl

theorem coherent_ofRule {rule : CommandRule} (hrule : rule ∈ CommandRule.all) {frame : Frame}
    {command : Command} (hread : ofRule rule frame = .ok command) : command.Coherent where
  metric := by
    rcases ofRule_cases hread with ⟨left, span, rfl⟩ | ⟨tag, -, span, left, -, hvalue⟩
    · simp [ofMissingValue]
    · obtain ⟨concept, value, -, -, rfl⟩ | ⟨-, rfl⟩ := ofValue_cases hvalue
      · exact fun _ => rfl
      · simp [withoutDirection]
  valueFrame hconcept := by
    rw [hasConcept_ofRule hrule hread] at hconcept
    cases hconcept

theorem coherent_of_ofFrame {frame : Frame} {command : Command}
    (hread : ofFrame frame = .ok command) : command.Coherent := by
  rcases ofFrame_cases hread with ⟨rule, hrule, hcommand⟩ | ⟨legal, rfl⟩
  · exact coherent_ofRule hrule hcommand
  · exact coherent_withoutConcept ..

end Command

/-! ## Records -/

namespace ExtractOptions

/-- Whether each field gets a score. -/
def scoresFields (options : ExtractOptions) : Bool :=
  options.subConfidences && options.mode.isActive

/-- Whether all fields together get a score. -/
def scoresTotal (options : ExtractOptions) : Bool :=
  options.totalConfidence && options.mode.isActive

end ExtractOptions

namespace Record

variable {record plain : Record} {options : ExtractOptions}

/-- The scores of the fields. -/
def fieldScores (record : Record) : List Float :=
  record.callsignScore.toList ++ record.conceptScore.toList ++ record.valueScore.toList ++
    record.metricScore.toList

/-- Whether two records differ in their scores at most. -/
structure SameFields (first second : Record) : Prop where
  callsign : first.callsign = second.callsign
  concept : first.concept = second.concept
  value : first.value = second.value
  metric : first.metric = second.metric

/-- Whether a record has the scores that are asked for and no others: one for each field that is
there, and one for all of them. -/
structure Scores (options : ExtractOptions) (record : Record) : Prop where
  callsign : record.callsignScore.isSome = options.scoresFields
  concept : record.conceptScore.isSome = options.scoresFields
  value : record.valueScore.isSome = (record.value.isSome && options.scoresFields)
  metric : record.metricScore.isSome = (record.metric.isSome && options.scoresFields)
  total : record.totalScore.isSome = options.scoresTotal

/-- The score of all fields stands behind those of the fields. -/
theorem scores_eq_append (record : Record) :
    record.scores = record.fieldScores ++ record.totalScore.toList := rfl

theorem Scores.length_fieldScores (hscores : record.Scores options) :
    record.fieldScores.length = if options.scoresFields then record.fields.length else 0 := by
  have hlength : ∀ {α : Type} (field : Option α), field.toList.length = field.isSome.toNat := by
    intro α field
    cases field <;> rfl
  simp only [fieldScores, fields, List.length_append, hlength, hscores.callsign, hscores.concept,
    hscores.value, hscores.metric]
  cases options.scoresFields <;> simp

/-- Where nothing is asked for there are no scores. -/
theorem Scores.scores_eq_nil (hscores : record.Scores options)
    (hfields : options.scoresFields = false) (htotal : options.scoresTotal = false) :
    record.scores = [] := by
  have hnone : record.totalScore = none := by
    simpa [htotal] using hscores.total
  have hlength := hscores.length_fieldScores
  rw [hfields] at hlength
  rw [scores_eq_append, hnone, List.eq_nil_of_length_eq_zero hlength]
  rfl

/-- A record without scores starts the text of one with the same fields. -/
theorem unscored_prefix (hsame : plain.SameFields record) (hnone : plain.scores = []) :
    plain.text.toList <+: record.text.toList := by
  have hfields : plain.fields = record.fields := by
    rw [fields, fields, hsame.callsign, hsame.concept, hsame.value, hsame.metric]
  rw [text, text, hnone, hfields, List.map_nil, List.append_nil]
  exact Text.unwords_prefix _ _

end Record

/-! ## Utterances -/

namespace Utterance

variable {utterance : Utterance} {options : ExtractOptions} {airlines : AirlineTable}
  {context : CallsignContext}

theorem isSome_fieldScore (options : ExtractOptions) (score : Option Float) :
    (fieldScore options score).isSome = options.scoresFields := by
  unfold fieldScore ExtractOptions.scoresFields
  split
  · next hasked => exact hasked.symm
  · next hnone => exact (Bool.eq_false_iff.mpr hnone).symm

theorem isSome_framesScore (options : ExtractOptions) (frames : List Frame) :
    (framesScore options frames).isSome = options.scoresFields := by
  unfold framesScore ExtractOptions.scoresFields Frame.jointScore
  cases options.subConfidences <;> simp [ConfidenceMode.aggregate_isSome]

theorem isSome_totalScore (options : ExtractOptions) (frames : List Frame) :
    (totalScore options frames).isSome = options.scoresTotal := by
  unfold totalScore ExtractOptions.scoresTotal Frame.jointScore
  cases options.totalConfidence <;> simp [ConfidenceMode.aggregate_isSome]

theorem commandRecord_scores (utterance : Utterance) (options : ExtractOptions)
    {command : Command} (hcoherent : command.Coherent) :
    (utterance.commandRecord options command).Scores options where
  callsign := isSome_fieldScore ..
  concept := isSome_fieldScore ..
  value := by
    unfold commandRecord
    cases command.value <;> simp [isSome_fieldScore]
  metric := by
    have hmetric := hcoherent.metric
    unfold commandRecord
    cases hcommand : command.metric with
    | none => simp
    | some metric =>
        have hvalue : command.value.isSome = true := hmetric (by simp [hcommand])
        simp [hvalue, isSome_fieldScore]
  total := isSome_totalScore ..

theorem fallbackRecord_scores (options : ExtractOptions)
    (hcoherent : ∀ command ∈ utterance.commands, command.Coherent)
    (hnone : utterance.commands.filter (·.hasConcept) = []) :
    (utterance.fallbackRecord options).Scores options where
  callsign := isSome_framesScore ..
  concept := isSome_framesScore ..
  value := by
    have hvalues : utterance.commands.filterMap (·.valueFrame) = [] := by
      refine List.filterMap_eq_nil_iff.mpr fun command hcommand => ?_
      have hconcept := List.filter_eq_nil_iff.mp hnone command hcommand
      exact (hcoherent command hcommand).valueFrame (Bool.eq_false_iff.mpr hconcept)
    simp [fallbackRecord, hvalues]
  metric := rfl
  total := isSome_totalScore ..

theorem records_scores (hcoherent : ∀ command ∈ utterance.commands, command.Coherent)
    {record : Record} (hrecord : record ∈ utterance.records options) : record.Scores options := by
  unfold records at hrecord
  split at hrecord
  · next hnone =>
      split at hrecord
      · cases hrecord
      · obtain rfl := List.mem_singleton.mp hrecord
        exact fallbackRecord_scores options hcoherent hnone
  · obtain ⟨command, hcommand, rfl⟩ := List.mem_map.mp hrecord
    exact commandRecord_scores utterance options
      (hcoherent command (List.mem_of_mem_filter hcommand))

/-- What is asked for changes no field, adds no record and keeps their order. -/
theorem records_sameFields (utterance : Utterance) (options other : ExtractOptions) :
    List.Forall₂ Record.SameFields (utterance.records other) (utterance.records options) := by
  unfold records
  cases utterance.commands.filter (·.hasConcept) with
  | nil =>
      dsimp only
      split
      · exact .nil
      · exact .cons ⟨rfl, rfl, rfl, rfl⟩ .nil
  | cons command commands =>
      dsimp only
      rw [List.forall₂_map_left_iff, List.forall₂_map_right_iff]
      exact List.forall₂_same.mpr fun command _ => ⟨rfl, rfl, rfl, rfl⟩

/-- All commands of an utterance that is read are coherent. -/
theorem coherent_of_ofFrame {sentence : Frame}
    (hutterance : ofFrame sentence airlines context = .ok utterance) :
    ∀ command ∈ utterance.commands, command.Coherent := by
  obtain ⟨callsign, commands, -, hcommands, rfl⟩ := exists_of_ofFrame hutterance
  have hread : ∀ command ∈ commands, command.Coherent := by
    intro command hcommand
    obtain ⟨span, -, hspan⟩ := exists_span_of_mem_commandsOf hcommands hcommand
    exact Command.coherent_of_ofFrame hspan
  exact forall_mem_ofCommands (Command.coherent_withoutConcept ..) hread

/-- **The shape of records.**  The records of an utterance that is read have the same fields
whatever is asked for, and their text without scores starts the one with scores.  Behind the
fields there is one score for each field that is there, and behind these one for all of them,
each if it is asked for, and none with the mode off. -/
theorem records_shape {sentence : Option Frame}
    (hutterance : ofFrame? sentence airlines context = .ok utterance)
    (options other : ExtractOptions) :
    List.Forall₂ Record.SameFields (utterance.records other) (utterance.records options) ∧
      (other.scoresFields = false → other.scoresTotal = false →
        List.Forall₂ (fun plain record : Record => plain.text.toList <+: record.text.toList)
          (utterance.records other) (utterance.records options)) ∧
      ∀ record ∈ utterance.records options,
        record.Scores options ∧
        record.fieldScores.length = (if options.scoresFields then record.fields.length else 0) ∧
        record.scores = record.fieldScores ++ record.totalScore.toList ∧
        (options.mode = .off → record.scores = []) := by
  have hcoherent : ∀ command ∈ utterance.commands, command.Coherent := by
    cases sentence with
    | none =>
        obtain rfl := Except.ok.inj hutterance
        simp [empty]
    | some sentence => exact coherent_of_ofFrame hutterance
  have hsame := records_sameFields utterance options other
  refine ⟨hsame, fun hfields htotal => ?texts, fun record hrecord => ?scores⟩
  case texts =>
    have hnone : ∀ plain ∈ utterance.records other, plain.scores = [] := fun plain hplain =>
      (records_scores hcoherent hplain).scores_eq_nil hfields htotal
    exact ((List.forall₂_and_left _ _).mpr ⟨hnone, hsame⟩).imp fun plain record ⟨hnone, hsame⟩ =>
      Record.unscored_prefix hsame hnone
  case scores =>
    have hscores := records_scores hcoherent hrecord
    refine ⟨hscores, hscores.length_fieldScores, record.scores_eq_append, fun hoff => ?_⟩
    have hnone : options.mode.isActive = false := by rw [hoff]; rfl
    exact hscores.scores_eq_nil (by simp [ExtractOptions.scoresFields, hnone])
      (by simp [ExtractOptions.scoresTotal, hnone])

/-- A flight level of which nothing is written is scored like any other. -/
theorem records_shape_silentDescent :
    ∃ (utterance : Utterance) (record : Record),
      ofFrame? (some silentDescentFrame) .empty .empty = .ok utterance ∧
        record ∈ utterance.records { mode := .min } ∧ record.value = some "" ∧
        record.valueScore.isSome ∧ record.fieldScores.length = record.fields.length := by
  obtain ⟨utterance, command, hutterance, hcommands, -, hconcept, hvalue⟩ :=
    exists_ofFrame_silentDescent
  have hread : ofFrame? (some silentDescentFrame) .empty .empty = .ok utterance := hutterance
  have hrecord : utterance.commandRecord { mode := .min } command ∈
      utterance.records { mode := .min } := by
    simp [records, hcommands, hconcept]
  obtain ⟨-, -, hrecords⟩ := records_shape hread { mode := .min } { mode := .off }
  obtain ⟨hscores, hlength, -⟩ := hrecords _ hrecord
  refine ⟨utterance, _, hread, hrecord, hvalue, ?_, hlength⟩
  rw [hscores.value]
  simp [commandRecord, hvalue, ExtractOptions.scoresFields, ConfidenceMode.isActive]

end Utterance

end Phraseology
