import Phraseology.Callsign.Completion
import Phraseology.Frame.Cut
import Phraseology.Spoken.Number

/-!
# Callsigns

A callsign names the aircraft that an utterance is for.  It is read off the
airline and the flight number inside a callsign span and completed from the
session.  Where none was spoken, the noise in front of the first command stands
in for it when scores are computed.
-/

namespace Phraseology

/-- The callsign of an utterance with the frames it was read from. -/
structure Callsign where
  airline : AirlinePart
  flightNumber : Option String
  airlineFrame : Option Frame
  flightNumberFrame : Option Frame
  noiseFrame : Option Frame
deriving Repr

/-- The written form of an airline. -/
def AirlinePart.text : AirlinePart → String
  | code c => c
  | unknown => "UNKNOWN_AIRLINE_"
  | absent => "NO_AIRLINE_"

namespace Callsign

/-- No callsign at all. -/
def absent : Callsign where
  airline := .absent
  flightNumber := none
  airlineFrame := none
  flightNumberFrame := none
  noiseFrame := none

/-- A frame with something between its tags. -/
def spoken? (frame : Option Frame) : Option Frame :=
  frame.filter (!·.isEmptyTag)

/-- The number in a frame, if something was spoken there. -/
def spokenNumber (frame : Option Frame) : Except Failure (Option String) :=
  match spoken? frame with
  | some frame => (whenEnded (Spoken.number? frame.contentWords)).map some
  | none => .ok none

/-- The callsign that halves which were spoken make up, if any was. -/
def ofHalves (airlines : AirlineTable) (context : CallsignContext) (airlineFrame : Option Frame)
    (number : Option String) : AirlinePart × Option String :=
  let airlineWord := (spoken? airlineFrame).map fun frame => Text.unwords frame.contentWords
  if airlineWord.isNone && number.isNone then (.absent, none)
  else
    let airline :=
      match airlineWord with
      | some word =>
        match airlines.resolve? word with
        | some code => .code code
        | none => .unknown
      | none => .absent
    let (airline, number, _) := Completion.complete airlines context airline number airlineWord
    (airline, number)

/-- The callsign of two spans, of which the second gives a number. -/
def ofSpans (airlines : AirlineTable) (context : CallsignContext)
    (airlineFrame flightNumberFrame : Option Frame) (number : Option String) : Callsign :=
  let (airline, flightNumber) := ofHalves airlines context airlineFrame number
  { airline, flightNumber, airlineFrame, flightNumberFrame, noiseFrame := none }

/-- The callsign in a callsign span. -/
def ofFrame (frame : Frame) (airlines : AirlineTable) (context : CallsignContext) :
    Except Failure Callsign :=
  if frame.strict &&
      !(frame.firstWord? == some Tag.callsignOpen && frame.lastWord? == some Tag.callsignClose)
  then .error (.invalidSpan .callsign frame.text)
  else
    let (airlineFrame, rest) := frame.cutTag "airline"
    let (flightNumberFrame, _) := rest.cutTag "flightnumber"
    (spokenNumber flightNumberFrame).map
      (ofSpans airlines context airlineFrame flightNumberFrame)

/-- Whether anything of a callsign was spoken. -/
def isCallsign (callsign : Callsign) : Bool :=
  callsign.airline != .absent || callsign.flightNumber.isSome

/-- The written form of a callsign, such as `DLH456`. -/
def code (callsign : Callsign) : String :=
  if callsign.isCallsign then
    callsign.airline.text ++ callsign.flightNumber.getD "_NO_FLIGHTNUMBER"
  else "NO_CALLSIGN"

/-- A callsign with the noise in front of the first command of a sentence. -/
def withNoise (callsign : Callsign) (sentence : Frame) : Callsign :=
  { callsign with noiseFrame := some sentence.noiseBeforeCommands }

/-- The frames over which a callsign is scored. -/
def frames (callsign : Callsign) : List Frame :=
  if callsign.isCallsign then
    callsign.airlineFrame.toList ++ callsign.flightNumberFrame.toList
  else callsign.noiseFrame.toList

/-- The score of a callsign. -/
def score (callsign : Callsign) (mode : ConfidenceMode) : Option Float :=
  Frame.jointScore callsign.frames mode true

end Callsign

end Phraseology
