import Phraseology.Command.Limit

/-!
# Rules of commands

A rule says for one type of command which tags hold its value, in order of
priority, how its concept is modified by what else was said, and what holds when
no value was spoken.  Some further types are known but call for no action.
-/

namespace Phraseology

/-- How a value is written. -/
inductive ValueKind where
  | number
  | waypoint
  | runway
  | contact
  | frequency
deriving DecidableEq, Repr

/-- A tag that can hold a value. -/
structure ValueTag where
  tag : String
  metric : Option String := none
  kind : ValueKind := .number
  /-- Takes the place of the concept when this tag holds the value. -/
  concept : Option String := none
deriving DecidableEq, Repr

/-- How the concept of a command is modified. -/
inductive Modifier where
  | plain
  /-- A limit is added to the command's own concept. -/
  | limit (rule : LimitRule)
  /-- The concept has another name, to which a limit is added. -/
  | renamed (name : String) (rule : LimitRule)
  /-- The concept has another name if a limit was spoken. -/
  | override (name : String) (rule : LimitRule)
  /-- `TURN_BY`, or `TURN_LEFT_BY` with a direction. -/
  | turnBy
  /-- `TURN_LEFT_HEADING`; the direction is needed. -/
  | turnToHeading
deriving DecidableEq, Repr

/-- The rule of one type of command. -/
structure CommandRule where
  type : String
  values : List ValueTag
  modifier : Modifier := .plain
  /-- Whether the command is legal without a value. -/
  valueOptional : Bool := false
  /-- The concept without a value; it makes the command legal. -/
  withoutValue : Option String := none
deriving DecidableEq, Repr

/-- What is known of a type of command. -/
inductive CommandKind where
  | ruled (rule : CommandRule)
  /-- A known type that calls for no action. -/
  | acknowledgement
  | unknown
deriving DecidableEq, Repr

namespace CommandRule

/-- Tags for a height. -/
def height : List ValueTag :=
  [{ tag := "flightlevel", metric := some "FL" }, { tag := "altitude", metric := some "ALT" }]

/-- Tags for a waypoint. -/
def waypoint : List ValueTag :=
  [{ tag := "waypoint", kind := .waypoint }, { tag := "fix", kind := .waypoint }]

/-- Tags for a runway. -/
def runway : List ValueTag :=
  [{ tag := "runway", kind := .runway }]

/-- Tags for whom to contact. -/
def contact : List ValueTag :=
  [{ tag := "contact", kind := .contact },
    { tag := "frequency", kind := .frequency, concept := some "HANDOVER_FREQUENCY" }]

/-- A tag for a bare number. -/
def bare (tag : String) : List ValueTag :=
  [{ tag }]

/-- All rules. -/
def all : List CommandRule :=
  [{ type := "descend", values := height, modifier := .limit .orBelow },
    { type := "climb", values := height, modifier := .limit .orAbove },
    { type := "give_altitude", values := height, modifier := .renamed "ALTITUDE" .either },
    { type := "maintain_altitude", values := height, modifier := .override "ALTITUDE" .either,
      valueOptional := true },
    { type := "rate_of_descent", values := bare "feet_per_minute", modifier := .limit .orAbove },
    { type := "rate_of_climb", values := bare "feet_per_minute", modifier := .limit .orBelow },
    { type := "reduce", values := bare "speed", modifier := .limit .orBelow },
    { type := "increase", values := bare "speed", modifier := .limit .orAbove },
    { type := "give_speed", values := bare "speed", modifier := .renamed "SPEED" .either },
    { type := "maintain_speed", values := bare "speed", modifier := .override "SPEED" .either,
      valueOptional := true },
    { type := "speed_own", values := [], valueOptional := true },
    { type := "reduce_final_app", values := [], valueOptional := true },
    { type := "reduce_min_clean", values := [], valueOptional := true },
    { type := "turn", values := bare "degree_relative", modifier := .turnBy },
    { type := "turn_heading", values := bare "degree_absolute", modifier := .turnToHeading },
    { type := "heading", values := bare "degree_absolute",
      withoutValue := some "MAINTAIN_HEADING" },
    { type := "transition", values := waypoint },
    { type := "direct_to", values := waypoint },
    { type := "cleared_ils", values := runway },
    { type := "handover", values := contact }]

/-- Types that are known but call for no action. -/
def acknowledgements : List String :=
  ["init_response", "report_speed", "expect_ils", "vector", "information",
    "report_established", "touchdown"]

end CommandRule

/-- What is known of a type of command. -/
def CommandKind.ofType (type : String) : CommandKind :=
  match CommandRule.all.find? (·.type == type) with
  | some rule => ruled rule
  | none => if CommandRule.acknowledgements.contains type then acknowledgement else unknown

end Phraseology
