import Phraseology.Frame.Reader
import Phraseology.Proofs.Command.Rules
import Phraseology.Proofs.Endless
import Phraseology.Proofs.Spoken.Ending

/-!
# Commands that are read to the end

The words of a value may hold a spoken number, and the loops of this number may have no end.  Then
the reading of the command has none.  This takes a value that is read: a span with words in it,
and a direction where one is needed.  So a command whose ends are in order is read if the loops end
for the number in its value, and goes on for ever if they do not; nothing else can go wrong with it
(`readIff_ofFrame`).  A descent to flight level `double double one` is such a command
(`ofFrame_stutteredFrame`).
-/

namespace Phraseology

/-- Whether the loops end for the number in the words of a value. -/
def ValueKind.Ends (kind : ValueKind) (words : List String) : Prop :=
  match kind with
  | .number => Spoken.NumberEnds words
  | .waypoint => Spoken.NumberEnds (Spoken.fixName (words.filter (· != "waypoint"))).2
  | .runway => True
  | .contact => True
  | .frequency => Spoken.NumberEnds words

instance (kind : ValueKind) (words : List String) : Decidable (kind.Ends words) :=
  match kind with
  | .number => inferInstanceAs (Decidable (Spoken.NumberEnds words))
  | .waypoint => inferInstanceAs (Decidable (Spoken.NumberEnds _))
  | .runway => inferInstanceAs (Decidable True)
  | .contact => inferInstanceAs (Decidable True)
  | .frequency => inferInstanceAs (Decidable (Spoken.NumberEnds words))

/-- The kind and the words of the value that a rule reads in a command, if it reads one. -/
def CommandRule.spokenValue? (rule : CommandRule) (frame : Frame) :
    Option (ValueKind × List String) :=
  match Command.findValue? frame rule.values with
  | some (tag, span, left) =>
    if span.isEmptyTag then none
    else
      (Command.modifiedConcept? rule.modifier (Text.upper rule.type) left).map
        fun _ => (tag.kind, span.contentWords)
  | none => none

namespace Command

variable {rule : CommandRule} {tag : ValueTag} {frame span left : Frame} {kind : ValueKind}
  {words : List String}

/-- The kind and the words of the value that is read in a command, if one is. -/
def spokenValue? (frame : Frame) : Option (ValueKind × List String) :=
  match CommandKind.ofType (typeOf frame) with
  | .ruled rule => rule.spokenValue? frame
  | .acknowledgement => none
  | .unknown => none

/-- Whether the loops end for the value that is read in a command. -/
def ReadsToEnd (frame : Frame) : Prop :=
  ∀ value ∈ spokenValue? frame, value.1.Ends value.2

instance (frame : Frame) : Decidable (ReadsToEnd frame) :=
  inferInstanceAs (Decidable (∀ value ∈ spokenValue? frame, value.1.Ends value.2))

theorem isSome_valueText?_iff : (valueText? kind words).isSome ↔ kind.Ends words := by
  cases kind with
  | number => rw [valueText?, Option.isSome_map, Spoken.isSome_number?_iff, ValueKind.Ends]
  | waypoint =>
      have hspoken : Spoken.waypoint? words =
          (Spoken.number? (Spoken.fixName (words.filter (· != "waypoint"))).2).map
            ((Spoken.fixName (words.filter (· != "waypoint"))).1 ++ ·) := rfl
      rw [valueText?, hspoken, Option.isSome_map, Spoken.isSome_number?_iff, ValueKind.Ends]
  | runway => exact iff_of_true rfl trivial
  | contact => exact iff_of_true rfl trivial
  | frequency =>
      rw [valueText?, Spoken.frequency?, Option.isSome_map, Spoken.isSome_numberChars?_iff,
        ValueKind.Ends]

/-- A command is read by its rule if its value has an end. -/
theorem readIff_ofRule (rule : CommandRule) (frame : Frame) :
    ReadIff (∀ value ∈ rule.spokenValue? frame, value.1.Ends value.2) (ofRule rule frame) := by
  unfold CommandRule.spokenValue? ofRule
  cases findValue? frame rule.values with
  | none => exact .ok nofun _
  | some found =>
      obtain ⟨tag, span, left⟩ := found
      dsimp only
      cases span.isEmptyTag with
      | true => exact .ok nofun _
      | false =>
          unfold ofValue
          cases modifiedConcept? rule.modifier (Text.upper rule.type) left with
          | none => exact .ok nofun _
          | some concept =>
              refine ((ReadIff.ofLoop _).map _).congr ?_
              rw [isSome_valueText?_iff]
              simp

/-- A command whose ends are in order is read if its value has an end. -/
theorem readIff_ofFrame (hbounded : isUnbounded frame = false) :
    ReadIff (ReadsToEnd frame) (ofFrame frame) := by
  unfold ReadsToEnd spokenValue?
  cases hkind : CommandKind.ofType (typeOf frame) with
  | ruled rule =>
      rw [ofFrame_of_ruled hbounded hkind]
      exact readIff_ofRule rule frame
  | acknowledgement =>
      rw [ofFrame_of_acknowledgement hbounded hkind]
      exact .ok nofun _
  | unknown =>
      rw [ofFrame_of_unknown hbounded hkind]
      exact .ok nofun _

/-- A descent to a level with a repetition of a repetition. -/
def stutteredDescent : String :=
  "<command=\"descend\"> <flightlevel> double double one"

/-- What is read from this descent. -/
def stutteredFrame : Frame where
  tokens := ["<command=\"descend\">", "<flightlevel>", "double", "double", "one",
    "</flightlevel>", "</command>"].map Token.plain
  strict := false
  unmatchedClosings := []

theorem words_stutteredFrame :
    stutteredFrame.words =
      ["<command=\"descend\">", "<flightlevel>", "double", "double", "one", "</flightlevel>",
        "</command>"] :=
  rfl

theorem read_stutteredDescent : Frame.read stutteredDescent false = .ok (some stutteredFrame) := by
  have hnormal : Frame.normalWords stutteredDescent =
      ["<command=\"descend\">", "<flightlevel>", "double", "double", "one"] := by
    decide
  unfold Frame.read
  rw [hnormal]
  rfl

theorem ofFrame_stutteredFrame : ofFrame stutteredFrame = .error .endless :=
  (readIff_ofFrame rfl).endless (by decide)

end Command

end Phraseology
