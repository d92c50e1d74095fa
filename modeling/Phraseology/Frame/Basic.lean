import Phraseology.Confidence
import Phraseology.Error
import Phraseology.Tag
import Phraseology.Token

/-!
# Frames

A frame is a run of tokens of a tagged text, usually a span with the tags around
it.  What stands between the first and the last token is its content.  A strict
frame is one whose readers insist on the right tags at both ends.
-/

namespace Phraseology

/-- A run of tokens of a tagged text. -/
structure Frame where
  tokens : List Token
  strict : Bool
  /-- Closing tags for which no opening tag was found. -/
  unmatchedClosings : List String
deriving Repr

namespace Frame

/-- A frame that is part of another one. -/
def part (tokens : List Token) (strict : Bool) : Frame where
  tokens := tokens
  strict := strict
  unmatchedClosings := []

/-- The words of a frame, tags included. -/
def words (frame : Frame) : List String :=
  frame.tokens.map (·.word)

/-- The words of a frame as text. -/
def text (frame : Frame) : String :=
  Text.unwords frame.words

/-- The first word of a frame. -/
def firstWord? (frame : Frame) : Option String :=
  frame.words.head?

/-- The last word of a frame. -/
def lastWord? (frame : Frame) : Option String :=
  frame.words.getLast?

/-- The tokens between the first and the last one. -/
def content (frame : Frame) : List Token :=
  (frame.tokens.drop 1).dropLast

/-- The words between the first and the last one. -/
def contentWords (frame : Frame) : List String :=
  frame.content.map (·.word)

/-- Whether a frame holds nothing but its two tags. -/
def isEmptyTag (frame : Frame) : Bool :=
  frame.tokens.length ≤ 2

/-- Whether the first and the last word are a pair of tags. -/
def isBounded (frame : Frame) : Bool :=
  if frame.tokens.length < 2 then false
  else
    match frame.firstWord?, frame.lastWord? with
    | some first, some last =>
      if Tag.isCommandOpen first then last == Tag.commandClose
      else (Tag.openTagName? first).any fun name => last == Tag.closingTag name
    | _, _ => false

/-- Whether one of some words is in a frame. -/
def containsAny (frame : Frame) (terms : List String) : Bool :=
  frame.words.any terms.contains

/-- The frame of some tokens.  A strict one must have tags at its ends. -/
def ofTokens (tokens : List Token) (unmatchedClosings : List String) (strict : Bool) :
    Except Failure Frame :=
  let frame : Frame := { tokens, strict, unmatchedClosings }
  if strict && !frame.isBounded then .error (.invalidSpan .sentence frame.text) else .ok frame

/-- The confidences of a frame, of its content alone or with its tags. -/
def confidences (contentOnly : Bool) (frame : Frame) : List Float :=
  (if contentOnly then frame.content else frame.tokens).map (·.confidence)

/-- The score of all tokens of some frames together. -/
def jointScore (frames : List Frame) (mode : ConfidenceMode) (contentOnly : Bool) :
    Option Float :=
  mode.aggregate (frames.flatMap (confidences contentOnly))

/-- The score of a frame. -/
def score (frame : Frame) (mode : ConfidenceMode) (contentOnly : Bool) : Option Float :=
  jointScore [frame] mode contentOnly

end Frame

end Phraseology
