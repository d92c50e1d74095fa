import Std.Data.TreeSet
import Phraseology.Error
import Phraseology.Search.Queue
import Phraseology.Search.State
import Phraseology.Search.Watch

/-!
# Running a search

The states of a search are worked off word by word: first all that have read no
word, then all that have read one, and so on, in each round in the order in which
they were found.  A state is passed over if it skips more words than some way to
a terminal node leaves unexplained, or if a state with the same key has been
worked off before.

In a grammar in which no circle of arcs without words opens a tag, only finitely
many keys occur, and `keyBound` bounds their number.  Along such a circle there are
keys without end, and nothing but the clock would ever end a round that comes to one.
Here such a round ends all the same, and is reported, once more than `keyBound` keys
have been met: that is no part of the search but what makes `Task.drain` end on every
grammar.  A task without such circles always has room.
-/

namespace Phraseology

/-- What a search has found out so far. -/
structure Ledger where
  /-- The keys of the states worked off. -/
  seen : Std.TreeSet StateKey StateKey.order
  /-- The fewest words that some way to a terminal node leaves unexplained. -/
  fewest : Option Nat
  /-- The complete parses in the order in which they were found. -/
  complete : Array Parse
  /-- How many states were taken from the queues. -/
  expanded : Nat

namespace Ledger

/-- A ledger without entries. -/
def empty : Ledger where
  seen := ∅
  fewest := none
  complete := #[]
  expanded := 0

/-- Whether a state skips more words than some way to a terminal node. -/
def prunes (ledger : Ledger) (state : State) : Bool :=
  ledger.fewest.any (· < state.skips)

/-- Whether a state is passed over. -/
def passesOver (ledger : Ledger) (state : State) : Bool :=
  ledger.prunes state || ledger.seen.contains (StateKey.ofState state)

/-- Notes that a state has been taken from a queue. -/
def count (ledger : Ledger) : Ledger :=
  { ledger with expanded := ledger.expanded + 1 }

/-- Notes the key of a state. -/
def note (ledger : Ledger) (state : State) : Ledger :=
  { ledger with seen := ledger.seen.insert (StateKey.ofState state) }

/-- The smaller of a number and one that may be missing. -/
def lowest (n : Nat) : Option Nat → Nat
  | some m => min m n
  | none => n

/-- Notes a state at a terminal node. -/
def finish (ledger : Ledger) (policy : SkipPolicy) (state : State) : Ledger :=
  { ledger with
    fewest := some (lowest (state.skips + state.unread.length) ledger.fewest)
    complete :=
      match state.complete? policy with
      | some parse => ledger.complete.push parse
      | none => ledger.complete }

end Ledger

/-- A bound on the number of keys.  With `l` words and `a` arcs, a state is at one
of `a + 1` nodes.  Its skipped words and its output are made of the words, the
texts of the arcs and their closing tags.  It skips at most `l` words, and its
output holds at most `l` words, `a` opening tags before and behind each of them,
and as many closing tags.  Where a circle of arcs without words opens a tag, nothing bounds
the keys, and this number has no meaning but to end a round that would not end. -/
def keyBound (task : Task) : Nat :=
  let l := task.sentence.length
  let a := task.grammar.arcs.length
  (a + 1) * Nat.pow (l + 2 * a + 1) (l + (l + 2 * ((l + 1) * a)))

/-- How a round ends. -/
inductive Round where
  /-- All states were worked off; those that have read one word more follow. -/
  | done (ledger : Ledger) (ahead : Queue State)
  /-- The time was over, with some states pending. -/
  | stopped (ledger : Ledger) (pending : List State)
  | failed (limit : Nat)

namespace Task

/-- The states that follow a state: those that have read no further word, and
those that have. -/
def successors (task : Task) (state : State) : List State × List State :=
  if task.grammar.isTerminal state.node then ([], [])
  else (state.staying task, state.advancing task)

/-- Notes a state that has not been met before. -/
def enter (task : Task) (ledger : Ledger) (state : State) : Ledger :=
  let noted := ledger.note state
  if task.grammar.isTerminal state.node then noted.finish task.policy state else noted

theorem seen_enter (task : Task) (ledger : Ledger) (state : State) :
    (task.enter ledger state).seen = ledger.seen.insert (StateKey.ofState state) := by
  unfold enter
  simp only
  split <;> rfl

/-- What the clock says after a state of a round. -/
def verdictAfter (task : Task) (watch : Watch) (limits : Limits) (position : Nat)
    (ledger : Ledger) : Verdict :=
  if ledger.expanded % lookInterval == 0 then
    watch.verdict limits task.phase (position + ledger.expanded / lookInterval)
  else .goOn

theorem size_lt_size_insert {ledger : Ledger} {state : State}
    (new : ¬ledger.passesOver state = true) :
    ledger.seen.size < (ledger.seen.insert (StateKey.ofState state)).size := by
  have unseen : ¬ledger.seen.contains (StateKey.ofState state) = true := by
    intro h
    exact new (by rw [Ledger.passesOver, h, Bool.or_true])
  rw [Std.TreeSet.size_insert, if_neg unseen]
  exact Nat.lt_succ_self _

/-- Works off the states of a round.  A round that has no room for another key is given up as
if nothing were left to do, which only happens on grammars where it would go on for ever. -/
def drain (task : Task) (bound : Nat) (watch : Watch) (limits : Limits) (position : Nat)
    (ledger : Ledger) (queue ahead : Queue State) : Round :=
  match hpop : queue.pop? with
  | none => .done ledger ahead
  | some (state, rest) =>
    have := Queue.length_of_pop? hpop
    if hpass : ledger.passesOver state then
      match task.verdictAfter watch limits position ledger.count with
      | .fail limit => .failed limit
      | .stop => .stopped ledger.count (rest.toList ++ ahead.toList)
      | .goOn => drain task bound watch limits position ledger.count rest ahead
    else if hroom : ledger.seen.size < bound then
      let entered := task.enter ledger.count state
      let queue := rest.pushAll (task.successors state).1
      let ahead := ahead.pushAll (task.successors state).2
      match task.verdictAfter watch limits position entered with
      | .fail limit => .failed limit
      | .stop => .stopped entered (queue.toList ++ ahead.toList)
      | .goOn =>
        have hsize : bound - (task.enter ledger.count state).seen.size <
            bound - ledger.seen.size := by
          have hgrow := size_lt_size_insert hpass
          have hentered : (task.enter ledger.count state).seen.size =
              (ledger.seen.insert (StateKey.ofState state)).size := by
            rw [seen_enter]
            rfl
          omega
        drain task bound watch limits position entered queue ahead
    else .done ledger ahead
termination_by (bound - ledger.seen.size, queue.length)
decreasing_by
  · exact Prod.Lex.right _ (by omega)
  · exact Prod.Lex.left _ _ hsize

end Task

/-- How a phase of a search ends: with parses, best first, or with a failure; and
everything reported up to then. -/
structure Outcome (α : Type) where
  result : Except Failure α
  reports : List Report

namespace Task

/-- The ranking when a search is interrupted with some states pending. -/
def interrupted (ledger : Ledger) (pending : List State) : List Parse :=
  Parse.rank ledger.complete.toList (pending.map State.forceClose)

/-- The report after a word, with the states that have read it. -/
def report (task : Task) (position : Nat) (ledger : Ledger) (ahead : Queue State) : Report where
  phase := task.phase
  position := position
  length := task.sentence.length
  percent := percentDone position task.sentence.length
  best := (interrupted ledger ahead.toList).head?

/-- Works off the remaining rounds. -/
def rounds (task : Task) (bound : Nat) (watch : Watch) (limits : Limits) :
    Nat → Nat → Ledger → Queue State → List Report → Outcome (List Parse)
  | 0, _, ledger, _, reports => ⟨.ok (Parse.rank ledger.complete.toList []), reports⟩
  | remaining + 1, position, ledger, queue, reports =>
    if watch.isCancelled reports then
      ⟨.ok (interrupted ledger queue.toList), reports⟩
    else
      match watch.verdict limits task.phase (position + ledger.expanded / lookInterval) with
      | .fail limit => ⟨.error (.deadlineExceeded limit), reports⟩
      | .stop => ⟨.ok (interrupted ledger queue.toList), reports⟩
      | .goOn =>
        match task.drain bound watch limits position ledger queue .empty with
        | .failed limit => ⟨.error (.deadlineExceeded limit), reports⟩
        | .stopped ledger pending => ⟨.ok (interrupted ledger pending), reports⟩
        | .done ledger ahead =>
          rounds task bound watch limits remaining (position + 1) ledger ahead
            (reports ++ [task.report (position + 1) ledger ahead])

/-- Runs a search, behind the reports of an earlier one. -/
def run (task : Task) (watch : Watch) (limits : Limits) (earlier : List Report) :
    Outcome (List Parse) :=
  task.rounds (keyBound task) watch limits (task.sentence.length + 1) 0 .empty
    (Queue.empty.pushAll [State.initial task.sentence]) earlier

end Task

end Phraseology
