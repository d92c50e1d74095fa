import Phraseology.Frame.Basic

/-!
# Cutting spans out of frames

A cut takes the tokens from the first one that opens a span up to the first one
behind it that closes the span, or up to the end if none does.  What is left is
the rest of the frame.
-/

namespace Phraseology

/-- A span and what is left around it. -/
structure Cut where
  inner : List Token
  before : List Token
  after : List Token

namespace Cut

/-- The part of some tokens up to and including the first whose word closes a
span, and what follows it. -/
def throughCloser (closes : String → Bool) : List Token → List Token × List Token
  | [] => ([], [])
  | token :: rest =>
    if closes token.word then ([token], rest)
    else
      let (inside, after) := throughCloser closes rest
      (token :: inside, after)

/-- The first span that some word opens; `closes opener` are the words that close
it. -/
def find? (opens : String → Bool) (closes : String → String → Bool) :
    List Token → Option Cut
  | [] => none
  | token :: rest =>
    if opens token.word then
      let (inside, after) := throughCloser (closes token.word) rest
      some { inner := token :: inside, before := [], after }
    else
      (find? opens closes rest).map fun cut => { cut with before := token :: cut.before }

end Cut

namespace Frame

/-- The first span of a frame that some word opens, and the frame without it. -/
def cutSpan (frame : Frame) (opens : String → Bool) (closes : String → String → Bool) :
    Option Frame × Frame :=
  match Cut.find? opens closes frame.tokens with
  | none => (none, frame)
  | some cut => (some (part cut.inner frame.strict), part (cut.before ++ cut.after) frame.strict)

/-- Cuts out the first span with a given name. -/
def cutTag (frame : Frame) (name : String) : Option Frame × Frame :=
  frame.cutSpan (· == "<" ++ name ++ ">") fun _ word => word == Tag.closingTag name

/-- Cuts out the first span with one of some names. -/
def cutAnyTag (frame : Frame) (names : List String) : Option Frame × Frame :=
  frame.cutSpan (fun word => (Tag.openTagName? word).any names.contains)
    fun opener word => (Tag.tagName? opener).any fun name => word == Tag.closingTag name

/-- Cuts out the first command, whatever its type. -/
def cutCommand (frame : Frame) : Option Frame × Frame :=
  frame.cutSpan Tag.isCommandOpen fun _ word => word == Tag.commandClose

/-- Recognizer noise that is kept for its confidence. -/
def noiseWords : List String := ["_spn_", "_nsn_"]

/-- The tokens behind the first one that starts a stretch. -/
def afterStart (starts : String → Bool) (tokens : List Token) : List Token :=
  (tokens.dropWhile fun token => !starts token.word).drop 1

/-- The noise between the first token that starts a stretch and the first behind it
that ends it, in a span of its own.  Without a start the stretch is there from
the beginning, without an end it runs to the end. -/
def noiseBetween (frame : Frame) (starts ends : Option (String → Bool)) : Frame :=
  let behind : List Token :=
    match starts with
    | some starts => afterStart starts frame.tokens
    | none => frame.tokens
  let stretch : List Token :=
    match ends with
    | some ends => behind.takeWhile fun token => !ends token.word
    | none => behind
  part
    (Token.plain "<noise>" :: stretch.filter (fun token => noiseWords.contains token.word) ++
      [Token.plain "</noise>"])
    frame.strict

/-- The noise between the start of the sentence and the callsign or the first
command. -/
def noiseBeforeCommands (frame : Frame) : Frame :=
  frame.noiseBetween (some (· == Tag.sentenceOpen))
    (some fun word => word == Tag.callsignOpen || Tag.isCommandOpen word)

/-- The tokens outside all tags, where `depth` tags are open. -/
def outsideTags : Nat → List Token → List Token
  | _, [] => []
  | depth, token :: rest =>
    if (Tag.openAnyTagName? token.word).isSome then outsideTags (depth + 1) rest
    else if (Tag.closeTagName? token.word).isSome then outsideTags (depth - 1) rest
    else if depth == 0 then token :: outsideTags depth rest
    else outsideTags depth rest

/-- A frame with the tags at its ends and the content that is in no further tag. -/
def shallow (frame : Frame) : Frame :=
  if frame.tokens.length < 2 then frame
  else
    part (frame.tokens.take 1 ++ outsideTags 0 frame.content ++ frame.tokens.getLast?.toList)
      frame.strict

end Frame

end Phraseology
