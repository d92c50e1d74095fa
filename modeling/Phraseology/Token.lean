import Phraseology.Decimal.Reader
import Phraseology.Error
import Phraseology.Text.Blank
import Phraseology.Text.Case
import Phraseology.Text.Lines

/-!
# Words with a confidence

A recognizer marks a word with its confidence by a colon and a number, as in
`lufthansa:0.93`.  The last colon counts, so the word may hold colons itself.
Reading a token insists on a number behind the colon; the `observation`, which
is what a search compares, takes anything else as part of the word.
-/

namespace Phraseology

/-- A word and the confidence it was recognized with. -/
structure Token where
  word : String
  confidence : Float
deriving Repr

/-- The confidence of a word that carries none. -/
def defaultConfidence : Float := 1.0

namespace Token

/-- A token with the default confidence. -/
def plain (word : String) : Token where
  word := word
  confidence := defaultConfidence

/-- A text cut at its last colon. -/
def splitAtLastColon? (raw : String) : Option (String × String) :=
  let reversed := raw.toList.reverse
  match reversed.dropWhile (· != ':') with
  | [] => none
  | _ :: before =>
    some (String.ofList before.reverse,
      String.ofList (reversed.takeWhile (· != ':')).reverse)

/-- Reads a word with an optional confidence. -/
def read (raw : String) : Except Failure Token :=
  match splitAtLastColon? raw with
  | none => .ok (plain raw)
  | some (word, value) =>
    match Decimal.float? value with
    | some confidence => .ok { word, confidence }
    | none => .error (.invalidConfidence raw value)

/-- Reads several tokens, up to the first that fails. -/
def readAll : List String → Except Failure (List Token)
  | [] => .ok []
  | raw :: rest =>
    match read raw with
    | .error failure => .error failure
    | .ok token =>
      match readAll rest with
      | .error failure => .error failure
      | .ok tokens => .ok (token :: tokens)

/-- The word that a search compares with the grammar: in lower case, without a
numeric confidence. -/
def observation (raw : String) : String :=
  match splitAtLastColon? raw with
  | some (word, value) => Text.lower (if Decimal.isNumber value then word else raw)
  | none => Text.lower raw

/-- The last two columns of a recognizer's line, if it has as many. -/
def lastTwo? (fields : List String) : Option (String × String) :=
  match fields.reverse with
  | confidence :: word :: _ => some (word, confidence)
  | _ => none

/-- The token on a line of recognizer output, whose last columns are a word and
its confidence.  Shorter lines have none. -/
def ofColumns (line : String) : Except Failure (Option String) :=
  match lastTwo? (Text.words line) with
  | none => .ok none
  | some (word, confidence) =>
    if Decimal.isNumber confidence then .ok (some (Text.lower word ++ ":" ++ confidence))
    else .error (.invalidConfidence word confidence)

/-- The tokens on some lines of recognizer output. -/
def ofColumnLines : List (Option String) → Except Failure (List String)
  | [] => .ok []
  | none :: _ => .error .unreadable
  | some line :: rest =>
    match ofColumns line with
    | .error failure => .error failure
    | .ok found =>
      match ofColumnLines rest with
      | .error failure => .error failure
      | .ok tokens => .ok (found.toList ++ tokens)

/-- The tokens of recognizer output, one on a line. -/
def ofRecognizer (bytes : ByteArray) : Except Failure (List String) :=
  ofColumnLines (Text.lines bytes)

end Token

end Phraseology
