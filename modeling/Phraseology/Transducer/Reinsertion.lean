import Phraseology.Tag
import Phraseology.Text.Case

/-!
# Putting skipped words back

A parse holds the words it explains, in lower case, between its tags.  The spoken
words are merged into it one by one, in their own spelling, so that every word
that was spoken is in the result.  A word of the parse takes the spoken words up
to and including its own match.  Words in front of the first word or tag inside a
span were not explained by that span, so they move out in front of it, except
that nothing moves out of the sentence itself.  The close of a sentence takes all
words that are left.

The tokens of the parse are gone through once.  Spans that have been opened and
not yet closed wait on a stack.
-/

namespace Phraseology

/-- A span that has been opened: what was merged in front of it, its tag, and the
token that comes next inside it. -/
structure OpenSpan where
  outside : List String
  tag : String
  firstInside : Option String

namespace OpenSpan

/-- Whether a word of the inside of a span is explained by the span. -/
def settles (span : OpenSpan) (word : String) : Bool :=
  (Tag.tagName? word).isSome || span.firstInside == some (Text.lower word)

/-- A span put together with its inside, the unexplained words in front. -/
def close (span : OpenSpan) (inside : List String) : List String :=
  let leading :=
    if span.tag == Tag.sentenceOpen then [] else inside.takeWhile (!span.settles ·)
  span.outside ++ leading ++ span.tag :: inside.drop leading.length

/-- All spans of a stack put together, the innermost first. -/
def closeStack (inside : List String) (stack : List OpenSpan) : List String :=
  stack.foldl (fun inside span => span.close inside) inside

end OpenSpan

/-- The spoken words up to and including the match of a word of the parse, and the
words behind it. -/
def takeMatch (tagged : String) : List String → List String × List String
  | [] => ([], [])
  | word :: rest =>
    if Text.lower word == tagged then ([word], rest)
    else
      let (taken, left) := takeMatch tagged rest
      (word :: taken, left)

/-- Merges spoken words into the tokens of a parse.  `merged` is what the innermost
open span holds so far.  A span that is opened by the very last token takes all
words that are left, and a closing tag without an open span ends the result. -/
def mergeWords : List String → List String → List String → List OpenSpan → List String
  | [], _, merged, stack => OpenSpan.closeStack merged stack
  | token :: rest, words, merged, stack =>
    if (Tag.tagName? token).isNone then
      let (taken, left) := takeMatch token words
      mergeWords rest left (merged ++ taken) stack
    else if Tag.isClosing token then
      let isSentence := token == Tag.sentenceClose
      let inside := merged ++ (if isSentence then words else []) ++ [token]
      let left := if isSentence then [] else words
      match stack with
      | [] => inside
      | span :: outer => mergeWords rest left (span.close inside) outer
    else
      let span : OpenSpan := { outside := merged, tag := token, firstInside := rest.head? }
      if rest.isEmpty then OpenSpan.closeStack words (span :: stack)
      else mergeWords rest words [] (span :: stack)

/-- The spoken words merged into the tokens of a parse.  An empty parse leaves the
words as they are. -/
def reinsertWords (words tagged : List String) : String :=
  Text.unwords (if tagged.isEmpty then words else mergeWords tagged words [] [])

end Phraseology
