import Phraseology.Command.Rule
import Phraseology.Spoken.Designator
import Phraseology.Text.Case

/-!
# Commands

A command span becomes a concept such as `DESCEND_OR_BELOW` with a value and a
metric.  The value is read from the first of the rule's tags that the span
holds.  A command is legal if enough was spoken to act on it.
-/

namespace Phraseology

/-- One command of an utterance. -/
structure Command where
  type : String
  concept : String
  value : Option String
  metric : Option String
  legal : Bool
  /-- The words of the command outside further tags. -/
  conceptFrame : Option Frame
  valueFrame : Option Frame
deriving Repr

namespace Command

/-- The concept of an utterance without one. -/
def noConceptName : String := "NO_CONCEPT"

/-- A command without a concept. -/
def withoutConcept (type : String) (legal : Bool) (conceptFrame : Option Frame) : Command where
  type := type
  concept := noConceptName
  value := none
  metric := none
  legal := legal
  conceptFrame := conceptFrame
  valueFrame := none

/-- The stand-in for the commands of an utterance without any. -/
def noConcept : Command := withoutConcept "" true none

/-- Whether a command has a concept. -/
def hasConcept (command : Command) : Bool :=
  command.concept != noConceptName

/-- A whole number without its leading zeros; any other text as it is. -/
def stripLeadingZeros (number : String) : String :=
  let cs := number.toList
  if cs.isEmpty || !cs.all Decimal.isDigit then number
  else
    match cs.dropWhile (· == '0') with
    | [] => "0"
    | stripped => String.ofList stripped

/-- Words joined by underscores, in upper case. -/
def upperName (words : List String) : String :=
  Text.upper ("_".intercalate words)

/-- The direction that is spoken in a command. -/
def direction? (command : Frame) : Option String :=
  ((command.cutTag "direction").1.filter (!·.isEmptyTag)).map fun frame =>
    upperName frame.contentWords

/-- The written form of the words of a value; `none` if their number is expanded without end. -/
def valueText? (kind : ValueKind) (words : List String) : Option String :=
  match kind with
  | .number => (Spoken.number? words).map stripLeadingZeros
  | .waypoint => Spoken.waypoint? words
  | .runway => some (Spoken.runway words)
  | .contact => some (upperName words)
  | .frequency => Spoken.frequency? words

/-- The concept that a modifier makes of the plain one, given the command without
its value; `none` if a needed direction is missing. -/
def modifiedConcept? (modifier : Modifier) (plain : String) (command : Frame) : Option String :=
  match modifier with
  | .plain => some plain
  | .limit rule => some (plain ++ (rule.suffix? command).getD "")
  | .renamed name rule => some (name ++ (rule.suffix? command).getD "")
  | .override name rule =>
    some
      (match rule.suffix? command with
      | some suffix => name ++ suffix
      | none => plain)
  | .turnBy =>
    some
      (match direction? command with
      | some direction => "TURN_" ++ direction ++ "_BY"
      | none => "TURN_BY")
  | .turnToHeading =>
    (direction? command).map fun direction => "TURN_" ++ direction ++ "_HEADING"

/-- The first of some tags that a frame holds, with its span and the rest. -/
def findValue? (frame : Frame) : List ValueTag → Option (ValueTag × Frame × Frame)
  | [] => none
  | tag :: rest =>
    match frame.cutTag tag.tag with
    | (some span, left) => some (tag, span, left)
    | (none, _) => findValue? frame rest

/-- A command whose value is missing. -/
def ofMissingValue (rule : CommandRule) (conceptFrame : Frame) (valueFrame : Option Frame) :
    Command where
  type := rule.type
  concept := rule.withoutValue.getD (Text.upper rule.type)
  value := none
  metric := none
  legal := rule.valueOptional || rule.withoutValue.isSome
  conceptFrame := some conceptFrame.shallow
  valueFrame := valueFrame

/-- A command with a concept and a value. -/
def withValue (rule : CommandRule) (tag : ValueTag) (span left : Frame) (concept value : String) :
    Command where
  type := rule.type
  concept := tag.concept.getD concept
  value := some value
  metric := tag.metric
  legal := true
  conceptFrame := some left.shallow
  valueFrame := some span

/-- A command that is spoken without the direction that it needs. -/
def withoutDirection (rule : CommandRule) (span left : Frame) : Command where
  type := rule.type
  concept := Text.upper rule.type
  value := none
  metric := none
  legal := false
  conceptFrame := some left.shallow
  valueFrame := some span

/-- A command with words for its value, which are read if no direction is missing. -/
def ofValue (rule : CommandRule) (tag : ValueTag) (span left : Frame) : Except Failure Command :=
  match modifiedConcept? rule.modifier (Text.upper rule.type) left with
  | some concept =>
    (whenEnded (valueText? tag.kind span.contentWords)).map
      (withValue rule tag span left concept)
  | none => .ok (withoutDirection rule span left)

/-- A command whose type has a rule. -/
def ofRule (rule : CommandRule) (frame : Frame) : Except Failure Command :=
  match findValue? frame rule.values with
  | some (tag, span, left) =>
    if span.isEmptyTag then .ok (ofMissingValue rule left (some span))
    else ofValue rule tag span left
  | none => .ok (ofMissingValue rule frame none)

/-- The command in a command span. -/
def ofFrame (frame : Frame) : Except Failure Command :=
  let type := frame.firstWord?.bind Tag.commandType?
  if frame.strict && !(type.isSome && frame.lastWord? == some Tag.commandClose) then
    .error (.invalidSpan .command frame.text)
  else
    let type := type.getD ""
    match CommandKind.ofType type with
    | .ruled rule => ofRule rule frame
    | .acknowledgement => .ok (withoutConcept type true (some frame.shallow))
    | .unknown => .ok (withoutConcept type false (some frame.shallow))

/-- The score of the words of a command. -/
def conceptScore (command : Command) (mode : ConfidenceMode) : Option Float :=
  Frame.jointScore command.conceptFrame.toList mode true

/-- The score of the value of a command. -/
def valueScore (command : Command) (mode : ConfidenceMode) : Option Float :=
  command.valueFrame.bind fun frame => frame.score mode true

end Command

end Phraseology
