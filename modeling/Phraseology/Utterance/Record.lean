import Phraseology.Utterance.Basic

/-!
# Records

Each command of an utterance is written as one record: the callsign, the concept,
the value and the metric, and then the scores that were asked for.  An utterance
whose commands have no concept has one record without a concept, scored over
whatever frames there are.  A record has a plain text form and an object form.
-/

namespace Phraseology

/-- What to read from an utterance and what to score. -/
structure ExtractOptions where
  mode : ConfidenceMode := .off
  /-- Whether text without tags at its ends is refused. -/
  strict : Bool := false
  /-- Whether each field is scored. -/
  subConfidences : Bool := true
  /-- Whether all fields are scored together. -/
  totalConfidence : Bool := true
deriving DecidableEq, Repr

/-- One command as it is written.  Scores are rounded, and absent unless they were
asked for. -/
structure Record where
  callsign : String
  concept : String
  value : Option String
  metric : Option String
  callsignScore : Option Float
  conceptScore : Option Float
  valueScore : Option Float
  metricScore : Option Float
  totalScore : Option Float
deriving Repr

namespace Record

/-- The texts of the fields that are there. -/
def fields (record : Record) : List String :=
  [record.callsign, record.concept] ++ record.value.toList ++ record.metric.toList

/-- The scores that are there. -/
def scores (record : Record) : List Float :=
  record.callsignScore.toList ++ record.conceptScore.toList ++ record.valueScore.toList ++
    record.metricScore.toList ++ record.totalScore.toList

/-- The fields and scores of a record, separated by spaces. -/
def text (record : Record) : String :=
  Text.unwords (record.fields ++ record.scores.map scoreText)

/-- A character inside the quotes of an object's text. -/
def escapeChar (c : Char) : List Char :=
  match c with
  | '"' => ['\\', '"']
  | '\\' => ['\\', '\\']
  | '\x08' => ['\\', 'b']
  | '\x0c' => ['\\', 'f']
  | '\n' => ['\\', 'n']
  | '\r' => ['\\', 'r']
  | '\t' => ['\\', 't']
  | c =>
    if c.toNat < 0x20 then
      ['\\', 'u', '0', '0', if c.toNat < 0x10 then '0' else '1',
        Nat.digitChar (c.toNat % 16)]
    else [c]

/-- A quoted text of an object. -/
def quoted (s : String) : String :=
  String.ofList ('"' :: s.toList.flatMap escapeChar ++ ['"'])

/-- The entries of the object form, in their order; what is absent is left out. -/
def entries (record : Record) : List (String × String) :=
  let texts (name : String) (value : Option String) := value.toList.map fun v => (name, quoted v)
  let numbers (name : String) (value : Option Float) :=
    value.toList.map fun v => (name, Decimal.recordText v)
  [("callsign", quoted record.callsign), ("concept", quoted record.concept)] ++
    texts "value" record.value ++ texts "metric" record.metric ++
    numbers "callsign_score" record.callsignScore ++
    numbers "concept_score" record.conceptScore ++ numbers "value_score" record.valueScore ++
    numbers "metric_score" record.metricScore ++ numbers "total_score" record.totalScore

/-- The object form of a record. -/
def object (record : Record) : String :=
  "\x7b" ++ ",".intercalate (record.entries.map fun (name, value) => quoted name ++ ":" ++ value)
    ++ "\x7d"

/-- The object forms of some records, as an array. -/
def array (records : List Record) : String :=
  "[" ++ ",".intercalate (records.map object) ++ "]"

end Record

namespace Utterance

/-- The score over some frames that closes a record, if it is asked for. -/
def totalScore (options : ExtractOptions) (frames : List Frame) : Option Float :=
  if options.totalConfidence then (Frame.jointScore frames options.mode true).map roundScore
  else none

/-- The score of a field, if it is asked for.  A field that was not spoken counts as
certain. -/
def fieldScore (options : ExtractOptions) (score : Option Float) : Option Float :=
  if options.subConfidences && options.mode.isActive then some (roundScore (score.getD 1.0))
  else none

/-- The record of a command with a concept. -/
def commandRecord (utterance : Utterance) (options : ExtractOptions) (command : Command) :
    Record :=
  let valueScore :=
    if command.value.isSome then fieldScore options (command.valueScore options.mode) else none
  { callsign := utterance.callsign.code
    concept := command.concept
    value := command.value
    metric := command.metric
    callsignScore := fieldScore options (utterance.callsign.score options.mode)
    conceptScore := fieldScore options (command.conceptScore options.mode)
    valueScore
    metricScore := if command.metric.isSome then valueScore else none
    totalScore :=
      totalScore options
        (utterance.callsign.frames ++ command.conceptFrame.toList ++ command.valueFrame.toList) }

/-- The score over some frames, if it is asked for. -/
def framesScore (options : ExtractOptions) (frames : List Frame) : Option Float :=
  if options.subConfidences then (Frame.jointScore frames options.mode true).map roundScore
  else none

/-- The record of an utterance whose commands have no concept. -/
def fallbackRecord (utterance : Utterance) (options : ExtractOptions) : Record :=
  let callsignFrames := utterance.callsign.frames
  let conceptFrames := utterance.commands.filterMap (·.conceptFrame)
  let valueFrames := utterance.commands.filterMap (·.valueFrame)
  { callsign := utterance.callsign.code
    concept := Command.noConceptName
    value := none
    metric := none
    callsignScore := framesScore options callsignFrames
    conceptScore := framesScore options conceptFrames
    valueScore := if valueFrames.isEmpty then none else framesScore options valueFrames
    metricScore := none
    totalScore := totalScore options (callsignFrames ++ conceptFrames ++ valueFrames) }

/-- The records of an utterance: one for each command with a concept, or a single
one without a concept. -/
def records (utterance : Utterance) (options : ExtractOptions) : List Record :=
  match utterance.commands.filter (·.hasConcept) with
  | [] => if utterance.commands.isEmpty then [] else [utterance.fallbackRecord options]
  | commands => commands.map (utterance.commandRecord options)

end Utterance

end Phraseology
