import Phraseology.Airline
import Phraseology.Alphabet
import Phraseology.Callsign.Context

/-!
# Completing callsigns

A callsign that was only partly spoken, or misheard, is completed from the
callsigns that are known in the session.  There are three ways, tried in turn:

* `lookUp?` matches the halves as they are, where a flight number may lack its
  leading zero;
* a spelled letter that was heard as the airline belongs in front of the flight
  number;
* a letter in front of the flight number may be the name of an airline.

The last step is also tried for the number that the second one makes.  Without a
match the halves stay as they are.
-/

namespace Phraseology

/-- What is known of the airline of a callsign. -/
inductive AirlinePart where
  | code (code : String)
  /-- An airline was spoken that is not in the table. -/
  | unknown
  | absent
deriving DecidableEq, Repr

namespace Completion

/-- A flight number as spoken, and with the leading zero that may be missing. -/
def withLeadingZero (number : String) : List String :=
  [number, "0" ++ number]

/-- The first of some flight numbers that the context knows for an airline. -/
def numberOf? (context : CallsignContext) (code : String) (candidates : List String) :
    Option String :=
  candidates.find? fun candidate =>
    context.toList.any fun known => known.airline == code && known.flightNumber == candidate

/-- The callsign with the first of some flight numbers that only one callsign
has. -/
def uniqueWithNumber? (context : CallsignContext) (candidates : List String) :
    Option KnownCallsign :=
  candidates.findSome? fun candidate =>
    if context.isAmbiguousFlightNumber candidate then none
    else context.toList.find? (·.flightNumber == candidate)

/-- The callsign of an airline that only one callsign has. -/
def uniqueWithAirline? (context : CallsignContext) (code : String) : Option KnownCallsign :=
  if context.isAmbiguousAirline code then none
  else context.toList.find? (·.airline == code)

/-- The known callsign that two halves point to as they are. -/
def lookUp? (context : CallsignContext) (airline : AirlinePart) (number : Option String) :
    Option (String × String) :=
  match airline, number with
  | .code code, some number => (numberOf? context code (withLeadingZero number)).map (code, ·)
  | .code code, none =>
    (uniqueWithAirline? context code).map fun known => (code, known.flightNumber)
  | _, some number =>
    (uniqueWithNumber? context (withLeadingZero number)).map fun known =>
      (known.airline, known.flightNumber)
  | _, none => none

/-- The known callsign whose airline is spelled by the letter in front of a flight
number. -/
def fromLeadingLetter? (airlines : AirlineTable) (context : CallsignContext) (number : String) :
    Option (String × String) :=
  match number.toList with
  | [] => none
  | letter :: tail =>
    let rest := if tail.isEmpty then none else some (String.ofList tail)
    (Alphabet.spellings letter).findSome? fun word =>
      (airlines.codeFor? word).bind fun code => lookUp? context (.code code) rest

/-- The known callsign that a flight number without an airline points to. -/
def fromNumber? (airlines : AirlineTable) (context : CallsignContext) (number : String) :
    Option (String × String) :=
  (lookUp? context .absent (some number)).or (fromLeadingLetter? airlines context number)

/-- The known callsign whose flight number starts with the letter that was taken
for an airline. -/
def fromSpelledAirline? (airlines : AirlineTable) (context : CallsignContext)
    (airlineWord : Option String) (number : Option String) : Option (String × String) :=
  (airlineWord.bind Alphabet.letter?).bind fun letter =>
    fromNumber? airlines context (String.ofList (letter :: (number.getD "").toList))

/-- The known callsign that an airline and a flight number point to, in one of the
three ways. -/
def complete? (airlines : AirlineTable) (context : CallsignContext) (airline : AirlinePart)
    (number airlineWord : Option String) : Option (String × String) :=
  if context.isEmpty then none
  else
    (lookUp? context airline number).or <|
      (fromSpelledAirline? airlines context airlineWord number).or <|
        if airline == .absent then number.bind (fromLeadingLetter? airlines context) else none

/-- The halves of a callsign, completed if possible, and whether they were. -/
def complete (airlines : AirlineTable) (context : CallsignContext) (airline : AirlinePart)
    (number airlineWord : Option String) : AirlinePart × Option String × Bool :=
  match complete? airlines context airline number airlineWord with
  | some (code, number) => (.code code, some number, true)
  | none => (airline, number, false)

end Completion

end Phraseology
