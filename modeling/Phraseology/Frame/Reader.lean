import Phraseology.Frame.Basic
import Phraseology.Frame.Repair

/-!
# Reading frames

Tagged text is written by several hands, so spaces around tags and behind
confidences may be missing.  The text is first spaced out, then its tokens are
read in lower case and their tags repaired.  Blank text has no frame.
-/

namespace Phraseology.Frame

/-- Text with a space behind each `>` and in front of each `<`. -/
def spaceTags (cs : List Char) : List Char :=
  cs.flatMap fun c =>
    if c == '>' then ['>', ' '] else if c == '<' then [' ', '<'] else [c]

/-- A confidence at the start of some characters: a colon, a digit, any character,
and further digits. -/
def confidenceAtStart? : List Char → Option (List Char)
  | ':' :: d :: c :: rest =>
    if Decimal.isDigit d && c != '\n' then some (':' :: d :: c :: rest.takeWhile Decimal.isDigit)
    else none
  | _ => none

/-- The first confidence inside a word. -/
def confidence? : List Char → Option (List Char)
  | [] => none
  | c :: rest => (confidenceAtStart? (c :: rest)).or (confidence? rest)

/-- Text with spaces around each occurrence of a part. -/
def spaceAround (part : List Char) : List Char → List Char
  | [] => []
  | c :: rest =>
    if part.isPrefixOf (c :: rest) then
      ' ' :: part ++ ' ' :: spaceAround part (rest.drop (part.length - 1))
    else c :: spaceAround part rest
termination_by cs => cs.length
decreasing_by
  all_goals simp only [List.length_drop, List.length_cons]
  all_goals omega

/-- A word with spaces around the first confidence in it, wherever that occurs. -/
def spaceConfidence (word : List Char) : List Char :=
  match confidence? word with
  | some part => spaceAround part word
  | none => word

/-- Text in which no space stands in front of a colon. -/
def joinColons : List Char → List Char
  | ' ' :: ':' :: rest => ':' :: joinColons rest
  | c :: rest => c :: joinColons rest
  | [] => []

/-- Words joined by single spaces. -/
def joinWords (ws : List (List Char)) : List Char :=
  [' '].intercalate ws

/-- The words of a tagged text, spaced out and in lower case. -/
def normalWords (text : String) : List String :=
  let separated := (Text.wordsOf (spaceTags text.toList)).map spaceConfidence
  let rejoined := joinColons (joinWords (Text.wordsOf (joinWords separated)))
  Text.words (Text.lower (String.ofList rejoined))

/-- The frame of some tokens after repair. -/
def ofRepaired (tokens : List Token) (strict : Bool) : Except Failure Frame :=
  let (repaired, unmatched) := Repair.run tokens
  ofTokens repaired unmatched strict

/-- The frame of a tagged text, if the text is not blank. -/
def read (text : String) (strict : Bool) : Except Failure (Option Frame) :=
  match normalWords text with
  | [] => .ok none
  | words =>
    match Token.readAll words with
    | .error failure => .error failure
    | .ok tokens => (ofRepaired tokens strict).map some

/-- The frame of recognizer output. -/
def ofRecognizer (bytes : ByteArray) (strict : Bool) : Except Failure Frame :=
  match Token.ofRecognizer bytes with
  | .error failure => .error failure
  | .ok raws =>
    match Token.readAll raws with
    | .error failure => .error failure
    | .ok tokens => ofRepaired tokens strict

end Phraseology.Frame
