import Phraseology.Search.Parse
import Phraseology.Search.Policy

/-!
# Watching a search

A search reports its progress after each word of the sentence, and it can be
interrupted: by a flag that its caller may raise in answer to the reports, and
by limits of time.  Time is read off a clock that gives the milliseconds since a
phase began at each look; a search looks at the clock before each word and after
every `lookInterval` states.
-/

namespace Phraseology

/-- What a search reports after a word. -/
structure Report where
  phase : Phase
  /-- Words worked off so far; one more than there are at the end. -/
  position : Nat
  length : Nat
  percent : Nat
  best : Option Parse
deriving DecidableEq, Repr

/-- How far a search is, in percent. -/
def percentDone (position length : Nat) : Nat :=
  min 100 (position * 100 / length + 1)

/-- How a caller watches a search. -/
structure Watch where
  /-- Milliseconds since the phase began, at each look at the clock. -/
  elapsed : Phase → Nat → Nat := fun _ _ => 0
  /-- Whether a flag is raised after the reports so far, if there is a flag. -/
  cancelled? : Option (List Report → Bool) := none

/-- The limits of time for a phase, in milliseconds. -/
structure Limits where
  soft : Option Nat
  hard : Option Nat
deriving DecidableEq, Repr

/-- What a look at the clock leads to. -/
inductive Verdict where
  | goOn
  | stop
  | fail (limit : Nat)
deriving DecidableEq, Repr

namespace Watch

/-- Whether the flag is raised. -/
def isCancelled (watch : Watch) (reports : List Report) : Bool :=
  watch.cancelled?.any (· reports)

/-- Whether a limit has been reached. -/
def isOver (now : Nat) (limit : Option Nat) : Bool :=
  limit.any (· ≤ now)

/-- What a look at the clock leads to.  A search that can be cancelled stops at its
hard limit, any other fails. -/
def verdict (watch : Watch) (limits : Limits) (phase : Phase) (look : Nat) : Verdict :=
  let now := watch.elapsed phase look
  match limits.hard with
  | some limit =>
    if limit ≤ now then
      if watch.cancelled?.isSome then .stop else .fail limit
    else if isOver now limits.soft then .stop
    else .goOn
  | none => if isOver now limits.soft then .stop else .goOn

end Watch

/-- States between two looks at the clock. -/
def lookInterval : Nat := 256

end Phraseology
