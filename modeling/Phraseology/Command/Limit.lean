import Phraseology.Frame.Cut

/-!
# Spoken limits

A value may be spoken as a limit: `flight level one zero zero or below`.  A rule
has words that allow the value to move in the direction of the command and words
that forbid it, and a suffix for each.  A negation swaps the two sets of words.
Limits are looked for first in spans of their own, then among the other words.
-/

namespace Phraseology

/-- Words for limits and the suffixes that they give. -/
structure LimitRule where
  directionTerms : List String
  directionSuffix : String
  boundaryTerms : List String
  boundarySuffix : String
deriving DecidableEq, Repr

namespace LimitRule

/-- Words for upward limits. -/
def upward : List String := ["above", "more", "greater", "least"]

/-- Words for downward limits. -/
def downward : List String := ["below", "less", "most"]

/-- Limits of commands that go down. -/
def orBelow : LimitRule where
  directionTerms := downward
  directionSuffix := "_OR_BELOW"
  boundaryTerms := upward
  boundarySuffix := "_NOT_BELOW"

/-- Limits of commands that go up. -/
def orAbove : LimitRule where
  directionTerms := upward
  directionSuffix := "_OR_ABOVE"
  boundaryTerms := downward
  boundarySuffix := "_NOT_ABOVE"

/-- Limits of commands without a direction. -/
def either : LimitRule where
  directionTerms := upward
  directionSuffix := "_OR_ABOVE"
  boundaryTerms := downward
  boundarySuffix := "_OR_BELOW"

/-- Whether a span was found that holds more than its tags. -/
def isSpoken (span : Option Frame) : Bool :=
  span.any (!·.isEmptyTag)

/-- The suffix of the limit that is spoken in a command without negations. -/
def suffixAmong? (rule : LimitRule) (directionTerms boundaryTerms : List String)
    (command : Frame) : Option String :=
  let (direction, rest) := command.cutAnyTag directionTerms
  if isSpoken direction then some rule.directionSuffix
  else
    let (boundary, rest) := rest.cutAnyTag boundaryTerms
    if isSpoken boundary then some rule.boundarySuffix
    else if rest.containsAny directionTerms then some rule.directionSuffix
    else if rest.containsAny boundaryTerms then some rule.boundarySuffix
    else none

/-- The suffix of the limit that is spoken in a command. -/
def suffix? (rule : LimitRule) (command : Frame) : Option String :=
  match command.cutTag "neg" with
  | (some _, rest) => rule.suffixAmong? rule.boundaryTerms rule.directionTerms rest
  | (none, rest) => rule.suffixAmong? rule.directionTerms rule.boundaryTerms rest

end LimitRule

end Phraseology
