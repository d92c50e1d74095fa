import Phraseology.Airline
import Phraseology.Text.Quoted

/-!
# Failures

Everything that can go wrong while settings, tables, grammars and utterances are
read, each with the wording it is reported in.  To go on for ever is among it: that is
the one failure that is never reported.
-/

namespace Phraseology

/-- What is wrong with a row of a grammar. -/
inductive RowFault where
  /-- A field that should hold a number does not. -/
  | invalidField (what : String) (field : String)
  /-- No kind of row has this many fields. -/
  | fieldCount (found : Nat)
deriving DecidableEq, Repr

/-- The wording of a fault in a grammar row. -/
def RowFault.message : RowFault → String
  | .invalidField what field => "invalid " ++ what ++ " " ++ Text.quote field
  | .fieldCount found => "expected 1, 2, 4 or 5 fields, found " ++ toString found

/-- The kinds of span whose tags are checked in strict reading. -/
inductive SpanKind where
  | sentence
  | callsign
  | command
deriving DecidableEq, Repr

/-- The name of a kind of span in a message. -/
def SpanKind.name : SpanKind → String
  | sentence => "tag"
  | callsign => "callsign"
  | command => "command"

/-- A failure of any part of the annotator. -/
inductive Failure where
  /-- A file that cannot be read, or a line that is not valid text. -/
  | unreadable
  | grammarUnavailable (path : String)
  | malformedRow (row : Nat) (fault : RowFault)
  | invalidConfidence (token value : String)
  | invalidSpan (kind : SpanKind) (text : String)
  /-- A search that ran for longer than its hard limit, in milliseconds. -/
  | deadlineExceeded (limit : Nat)
  | malformedSettings
  | airlineTable (cause : AirlineError)
  /-- A spoken number that is expanded without end.  Nothing comes of it, not even a report. -/
  | endless
deriving DecidableEq, Repr

/-- What comes of a loop: its result, if it ends. -/
def whenEnded {α : Type} (result : Option α) : Except Failure α :=
  match result with
  | some a => .ok a
  | none => .error .endless

/-- The wording of a fault in an airline table. -/
def AirlineError.message : AirlineError → String
  | .unreadable => "Std Io Error!"
  | .malformedLine line content =>
    "Malformed airline table line " ++ toString line ++ ": " ++ Text.quote content
  | .duplicateName name first second =>
    "Duplicate airline name " ++ Text.quote name ++ " (codes " ++ first ++ " and " ++ second ++ ")"

/-- Digits behind a point, without the zeros at their end. -/
def fractionText (places n : Nat) : String :=
  let ds := Nat.toDigits 10 n
  let padded := List.replicate (places - ds.length) '0' ++ ds
  let kept := (padded.reverse.dropWhile (· == '0')).reverse
  if kept.isEmpty then "" else String.ofList ('.' :: kept)

/-- A span of time given in milliseconds, in the largest unit that does not leave
it below one. -/
def durationText (milliseconds : Nat) : String :=
  if milliseconds == 0 then "0ns"
  else if milliseconds < 1000 then toString milliseconds ++ "ms"
  else toString (milliseconds / 1000) ++ fractionText 3 (milliseconds % 1000) ++ "s"

/-- The wording of a failure, if it is reported. -/
def Failure.message? : Failure → Option String
  | .unreadable => some "Std Io Error!"
  | .grammarUnavailable path => some ("No grammar available at " ++ Text.quote path)
  | .malformedRow row fault =>
    some ("Malformed grammar row " ++ toString row ++ ": " ++ fault.message)
  | .invalidConfidence token value =>
    some ("Invalid confidence value " ++ Text.quote value ++ " on token " ++ Text.quote token)
  | .invalidSpan kind text => some ("Invalid " ++ kind.name ++ " frame: " ++ text)
  | .deadlineExceeded limit =>
    some ("Search exceeded its hard deadline of " ++ durationText limit)
  | .malformedSettings => some "Ron deserialization failed!"
  | .airlineTable _ => some "Aviation Helper"
  | .endless => none

end Phraseology
