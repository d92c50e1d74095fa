import Std.Data.TreeSet

/-!
# Which words may be skipped

Noise may always be skipped, and costs nothing.  Any other word may be skipped
only in the skipping phase and costs one, but the name of an airline never, and
inside a callsign only a word that is marked as out of the grammar or listed.
-/

namespace Phraseology

/-- The two phases of a search. -/
inductive Phase where
  /-- Every word must be explained by the grammar. -/
  | strict
  | skipping
deriving DecidableEq, Repr

/-- What decides whether a word may be skipped. -/
structure SkipPolicy where
  allowSkip : Bool
  noiseMarkers : Std.TreeSet String
  callsignWhitelist : Std.TreeSet String
  airlines : Std.TreeSet String

namespace SkipPolicy

/-- Whether a word is framed by underscores, the mark of words that a grammar
does not know. -/
def isMarked (observation : String) : Bool :=
  let cs := observation.toList
  2 ≤ cs.length && cs.head? == some '_' && cs.getLast? == some '_'

/-- The cost of skipping a word, if it may be skipped. -/
def skipCost? (policy : SkipPolicy) (observation : String) (inCallsign : Bool) : Option Nat :=
  let isNoise := policy.noiseMarkers.contains observation
  if !(policy.allowSkip || isNoise) || policy.airlines.contains observation then none
  else if inCallsign && !isNoise && !isMarked observation &&
      !policy.callsignWhitelist.contains observation then none
  else some (if isNoise then 0 else 1)

end SkipPolicy

end Phraseology
