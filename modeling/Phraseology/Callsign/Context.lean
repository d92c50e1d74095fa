import Std.Data.TreeSet
import Phraseology.Text.Blank
import Phraseology.Text.Lines

/-!
# Callsigns known in a session

The callsigns that are active are kept in the order in which they became known.
An airline or a flight number that was already there when a callsign arrived is
ambiguous from then on.
-/

namespace Phraseology

/-- A callsign in its two halves.  The airline is empty when only a flight number
is known. -/
structure KnownCallsign where
  airline : String
  flightNumber : String
deriving DecidableEq, Repr

/-- The callsigns of a session and the halves that do not tell them apart. -/
structure CallsignContext where
  callsigns : Array KnownCallsign
  ambiguousAirlines : Std.TreeSet String
  ambiguousFlightNumbers : Std.TreeSet String

namespace CallsignContext

/-- A session without callsigns. -/
def empty : CallsignContext where
  callsigns := #[]
  ambiguousAirlines := ∅
  ambiguousFlightNumbers := ∅

/-- Adds a callsign. -/
def push (context : CallsignContext) (callsign : KnownCallsign) : CallsignContext where
  callsigns := context.callsigns.push callsign
  ambiguousAirlines :=
    if context.callsigns.any (·.airline == callsign.airline) then
      context.ambiguousAirlines.insert callsign.airline
    else context.ambiguousAirlines
  ambiguousFlightNumbers :=
    if context.callsigns.any (·.flightNumber == callsign.flightNumber) then
      context.ambiguousFlightNumbers.insert callsign.flightNumber
    else context.ambiguousFlightNumbers

/-- Whether an airline does not single out a callsign. -/
def isAmbiguousAirline (context : CallsignContext) (airline : String) : Bool :=
  context.ambiguousAirlines.contains airline

/-- Whether a flight number does not single out a callsign. -/
def isAmbiguousFlightNumber (context : CallsignContext) (flightNumber : String) : Bool :=
  context.ambiguousFlightNumbers.contains flightNumber

/-- Whether no callsign is known. -/
def isEmpty (context : CallsignContext) : Bool :=
  context.callsigns.isEmpty

/-- The callsigns in the order in which they became known. -/
def toList (context : CallsignContext) : List KnownCallsign :=
  context.callsigns.toList

/-- The session in which these callsigns became known one after the other. -/
def ofList (callsigns : List KnownCallsign) : CallsignContext :=
  callsigns.foldl push empty

/-- The callsign on a line: an airline and a flight number, or a flight number
alone.  What follows on the line is a remark. -/
def readLine (line : String) : Option KnownCallsign :=
  match Text.words line with
  | [] => none
  | [flightNumber] => some { airline := "", flightNumber }
  | airline :: flightNumber :: _ => some { airline, flightNumber }

/-- Adds the callsigns of some lines, up to the first that cannot be read. -/
def readLines (context : CallsignContext) : List (Option String) → Option CallsignContext
  | [] => some context
  | none :: _ => none
  | some line :: rest =>
    match readLine line with
    | some callsign => readLines (context.push callsign) rest
    | none => readLines context rest

/-- The session that a file describes, one callsign on a line; `none` if a line
is not valid text. -/
def ofBytes? (bytes : ByteArray) : Option CallsignContext :=
  readLines empty (Text.lines bytes)

end CallsignContext

end Phraseology
