import Mathlib.Logic.Relation
import Phraseology.Proofs.Search.Moves
import Phraseology.Proofs.Search.Ranking

/-!
# A search, snapshot by snapshot

`Task.run` nests a loop over the states of a round in a loop over the rounds.
Here both are taken apart into the steps of one relation between snapshots, so
that what holds of all snapshots needs one induction with four cases:

* `pass`: the next state is passed over,
* `enter`: the next state is worked off,
* `turn`: a round is over, and the states ahead are next,
* `cut`: there is no room for another key, and the round is given up.

How much room there is, is left open (`Snapshot.StepIn`).  `Task.run` has room for `keyBound` keys,
which is its own affair: on a grammar in which a loop of silent arcs opens a tag it cuts a round
that otherwise would have no end.  With room for every key nothing is ever cut, and what holds
however much room there is holds of such a search as well.

`run_ending` says that every run of a search is a sequence of such steps, and what
it gives back in the snapshot where it ends.
-/

namespace Phraseology

open Relation

/-- What a search holds between two states: the ledger, the states that wait in
this round, and those that wait in the next. -/
structure Snapshot where
  position : Nat
  ledger : Ledger
  queue : List State
  ahead : List State

namespace Snapshot

/-- The snapshot before the first state. -/
def start (task : Task) : Snapshot where
  position := 0
  ledger := .empty
  queue := [State.initial task.sentence]
  ahead := []

/-- One step of a search, where `Room n` says whether there is room for another key beside `n`. -/
inductive StepIn (Room : Nat → Prop) (task : Task) : Snapshot → Snapshot → Prop
  | pass {position : Nat} {ledger : Ledger} {state : State} {queue ahead : List State}
      (passed : ledger.passesOver state = true) :
      StepIn Room task ⟨position, ledger, state :: queue, ahead⟩
        ⟨position, ledger.count, queue, ahead⟩
  | enter {position : Nat} {ledger : Ledger} {state : State} {queue ahead : List State}
      (kept : ¬ledger.passesOver state = true) (room : Room ledger.seen.size) :
      StepIn Room task ⟨position, ledger, state :: queue, ahead⟩
        ⟨position, task.enter ledger.count state, queue ++ (task.successors state).1,
          ahead ++ (task.successors state).2⟩
  | turn {position : Nat} {ledger : Ledger} {ahead : List State} :
      StepIn Room task ⟨position, ledger, [], ahead⟩ ⟨position + 1, ledger, ahead, []⟩
  | cut {position : Nat} {ledger : Ledger} {state : State} {queue ahead : List State}
      (kept : ¬ledger.passesOver state = true) (full : ¬Room ledger.seen.size) :
      StepIn Room task ⟨position, ledger, state :: queue, ahead⟩ ⟨position, ledger, [], ahead⟩

/-- One step of a search that has room for as many keys as `Task.run` gives it. -/
abbrev Step (task : Task) : Snapshot → Snapshot → Prop :=
  StepIn (· < keyBound task) task

/-- The snapshots that follow one another. -/
abbrev StepsIn (Room : Nat → Prop) (task : Task) : Snapshot → Snapshot → Prop :=
  ReflTransGen (StepIn Room task)

/-- The snapshots that follow one another in `Task.run`. -/
abbrev Steps (task : Task) : Snapshot → Snapshot → Prop :=
  StepsIn (· < keyBound task) task

/-- What holds at the start and is kept by each step holds in every snapshot. -/
theorem StepsIn.keeps {Room : Nat → Prop} {task : Task} {Holds : Snapshot → Prop}
    {first last : Snapshot} (hsteps : StepsIn Room task first last) (hfirst : Holds first)
    (hkept : ∀ {now next}, Holds now → StepIn Room task now next → Holds next) : Holds last := by
  induction hsteps with
  | refl => exact hfirst
  | tail _ hstep ih => exact hkept ih hstep

end Snapshot

open Snapshot

/-- Why a search can stop before its end: the flag was raised, or the time was over. -/
def Watch.Stops (watch : Watch) (limits : Limits) (phase : Phase) : Prop :=
  (∃ reports, watch.isCancelled reports = true) ∨ ∃ look, watch.verdict limits phase look = .stop

/-- How a search that starts from a snapshot can end.  At its end the position is
`final` and there are `due` reports; a search that stops before has fewer. -/
inductive Ending (task : Task) (watch : Watch) (limits : Limits) (first : Snapshot)
    (final due : Nat) : Outcome (List Parse) → Prop
  | finished {last : Snapshot} {reports : List Report} (steps : Steps task first last)
      (position : last.position = final) (ahead : last.ahead = []) (all : reports.length = due) :
      Ending task watch limits first final due
        ⟨.ok (Parse.rank last.ledger.complete.toList []), reports⟩
  | interrupted {last : Snapshot} {reports : List Report} (steps : Steps task first last)
      (stops : watch.Stops limits task.phase) (few : reports.length < due) :
      Ending task watch limits first final due
        ⟨.ok (Task.interrupted last.ledger (last.queue ++ last.ahead)), reports⟩
  | failed {limit look : Nat} {reports : List Report}
      (fails : watch.verdict limits task.phase look = .fail limit) (few : reports.length < due) :
      Ending task watch limits first final due ⟨.error (.deadlineExceeded limit), reports⟩

variable {task : Task} {watch : Watch} {limits : Limits}

/-- A search that starts from a later snapshot ends as one that started earlier. -/
theorem Ending.of_steps {first now : Snapshot} {final due : Nat} {outcome : Outcome (List Parse)}
    (hsteps : Steps task first now) (hending : Ending task watch limits now final due outcome) :
    Ending task watch limits first final due outcome := by
  cases hending with
  | finished hlater hposition hahead hall =>
      exact .finished (hsteps.trans hlater) hposition hahead hall
  | interrupted hlater hstops hfew => exact .interrupted (hsteps.trans hlater) hstops hfew
  | failed hfails hfew => exact .failed hfails hfew

/-- A search can be interrupted where a round begins. -/
theorem Ending.interrupted_here {now : Snapshot} {final due : Nat} {reports : List Report}
    (hahead : now.ahead = []) (hstops : watch.Stops limits task.phase)
    (hfew : reports.length < due) :
    Ending task watch limits now final due
      ⟨.ok (Task.interrupted now.ledger now.queue), reports⟩ := by
  have hpending : now.queue = now.queue ++ now.ahead := by rw [hahead, List.append_nil]
  rw [hpending]
  exact .interrupted ReflTransGen.refl hstops hfew

/-! ## A round -/

theorem Task.exists_verdict {position : Nat} {ledger : Ledger} {verdict : Verdict}
    (hverdict : task.verdictAfter watch limits position ledger = verdict)
    (hnew : verdict ≠ .goOn) : ∃ look, watch.verdict limits task.phase look = verdict := by
  unfold Task.verdictAfter at hverdict
  split at hverdict
  · exact ⟨_, hverdict⟩
  · exact absurd hverdict.symm hnew

/-- What a round says of the snapshots between its start and its end. -/
def Round.Follows (task : Task) (watch : Watch) (limits : Limits) (first : Snapshot) :
    Round → Prop
  | .done ledger ahead => Steps task first ⟨first.position, ledger, [], ahead.toList⟩
  | .stopped ledger pending =>
      watch.Stops limits task.phase ∧
        ∃ queue ahead, pending = queue ++ ahead ∧
          Steps task first ⟨first.position, ledger, queue, ahead⟩
  | .failed limit => ∃ look, watch.verdict limits task.phase look = .fail limit

theorem Round.Follows.of_step {first now : Snapshot} {round : Round}
    (hstep : Step task first now) (hposition : now.position = first.position)
    (hfollows : round.Follows task watch limits now) : round.Follows task watch limits first := by
  cases round with
  | done ledger ahead =>
      unfold Round.Follows at hfollows ⊢
      rw [hposition] at hfollows
      exact ReflTransGen.head hstep hfollows
  | stopped ledger pending =>
      obtain ⟨hstops, queue, ahead, hpending, hsteps⟩ := hfollows
      rw [hposition] at hsteps
      exact ⟨hstops, queue, ahead, hpending, ReflTransGen.head hstep hsteps⟩
  | failed limit => exact hfollows

theorem Task.drain_follows (task : Task) (watch : Watch) (limits : Limits) (position : Nat)
    (ledger : Ledger) (queue ahead : Queue State) :
    (task.drain (keyBound task) watch limits position ledger queue ahead).Follows task watch limits
      ⟨position, ledger, queue.toList, ahead.toList⟩ := by
  have hstop : ∀ {ledger : Ledger},
      task.verdictAfter watch limits position ledger = .stop → watch.Stops limits task.phase :=
    fun hverdict => Or.inr (Task.exists_verdict hverdict (by simp))
  have hfail : ∀ {ledger : Ledger} {limit : Nat},
      task.verdictAfter watch limits position ledger = .fail limit →
        ∃ look, watch.verdict limits task.phase look = .fail limit :=
    fun hverdict => Task.exists_verdict hverdict (by simp)
  fun_induction Task.drain task (keyBound task) watch limits position ledger queue ahead with
  | case1 ledger queue ahead hpop =>
      -- nothing waits any more
      rw [Queue.pop?_eq_none_iff.mp hpop]
      exact ReflTransGen.refl
  | case2 ledger queue ahead state rest hpop _ hpass limit hverdict => exact hfail hverdict
  | case3 ledger queue ahead state rest hpop _ hpass hverdict =>
      -- a state is passed over, and then the time is over
      rw [Queue.toList_of_pop? hpop]
      exact ⟨hstop hverdict, _, _, rfl, ReflTransGen.single (.pass hpass)⟩
  | case4 ledger queue ahead state rest hpop _ hpass hverdict ih =>
      rw [Queue.toList_of_pop? hpop]
      exact Round.Follows.of_step (.pass hpass) rfl ih
  | case5 ledger queue ahead state rest hpop _ hpass hroom entered limit hverdict =>
      exact hfail hverdict
  | case6 ledger queue ahead state rest hpop _ hpass hroom entered queue' ahead' hverdict =>
      -- the time is over when a state has been worked off; its successors wait as well
      rw [Queue.toList_of_pop? hpop]
      have hstep : Step task ⟨position, ledger, state :: rest.toList, ahead.toList⟩ _ :=
        .enter hpass hroom
      refine ⟨hstop hverdict, _, _, rfl, ReflTransGen.single ?_⟩
      simpa [queue', ahead'] using hstep
  | case7 ledger queue ahead state rest hpop _ hpass hroom entered queue' ahead' hverdict _ ih =>
      rw [Queue.toList_of_pop? hpop]
      refine Round.Follows.of_step (.enter hpass hroom) rfl ?_
      simpa [queue', ahead'] using ih
  | case8 ledger queue ahead state rest hpop _ hpass hfull =>
      -- no key has room any more
      rw [Queue.toList_of_pop? hpop]
      exact ReflTransGen.single (.cut hpass hfull)

/-! ## All rounds -/

theorem Task.rounds_ending (task : Task) (watch : Watch) (limits : Limits)
    (remaining position : Nat) (ledger : Ledger) (queue : Queue State) (reports : List Report) :
    Ending task watch limits ⟨position, ledger, queue.toList, []⟩ (position + remaining)
      (reports.length + remaining)
      (task.rounds (keyBound task) watch limits remaining position ledger queue reports) := by
  induction remaining generalizing position ledger queue reports with
  | zero => exact .finished ReflTransGen.refl rfl rfl rfl
  | succ remaining ih =>
      have hfew : reports.length < reports.length + (remaining + 1) := by omega
      unfold Task.rounds
      split
      · next hcancelled => exact .interrupted_here rfl (Or.inl ⟨reports, hcancelled⟩) hfew
      · split
        · next limit hverdict => exact .failed hverdict hfew
        · next hverdict => exact .interrupted_here rfl (Or.inr ⟨_, hverdict⟩) hfew
        · have hround := Task.drain_follows task watch limits position ledger queue .empty
          split
          · next limit hdrain =>
              rw [hdrain] at hround
              obtain ⟨look, hlook⟩ := hround
              exact .failed hlook hfew
          · next ledger' pending hdrain =>
              rw [hdrain] at hround
              obtain ⟨hstops, queue', ahead', rfl, hsteps⟩ := hround
              exact .interrupted hsteps hstops hfew
          · next ledger' ahead' hdrain =>
              rw [hdrain] at hround
              -- the states ahead make up the next round
              refine Ending.of_steps (ReflTransGen.tail hround .turn) ?_
              have hlater := ih (position + 1) ledger' ahead'
                (reports ++ [task.report (position + 1) ledger' ahead'])
              rwa [List.length_append, List.length_singleton, Nat.add_right_comm,
                Nat.add_right_comm reports.length] at hlater

/-- Every run of a search goes from snapshot to snapshot until it ends. -/
theorem Task.run_ending (task : Task) (watch : Watch) (limits : Limits) (earlier : List Report) :
    Ending task watch limits (start task) (task.sentence.length + 1)
      (earlier.length + (task.sentence.length + 1)) (task.run watch limits earlier) := by
  have hrounds := Task.rounds_ending task watch limits (task.sentence.length + 1) 0 .empty
    (Queue.empty.pushAll [State.initial task.sentence]) earlier
  rw [Queue.toList_pushAll, Queue.toList_empty, Nat.zero_add] at hrounds
  exact hrounds

/-- A run is not interrupted, but reports every round, also the one behind the last
word. -/
def Task.RunsThrough (task : Task) (watch : Watch) (limits : Limits) (earlier : List Report) : Prop :=
  (task.run watch limits earlier).reports.length = earlier.length + (task.sentence.length + 1)

/-- It gives back the parses that are complete in the snapshot behind the last word. -/
theorem Task.RunsThrough.exists_end {earlier : List Report}
    (hthrough : task.RunsThrough watch limits earlier) :
    ∃ last : Snapshot, Steps task (start task) last ∧
      last.position = task.sentence.length + 1 ∧ last.ahead = [] ∧
      (task.run watch limits earlier).result =
        .ok (Parse.rank last.ledger.complete.toList []) := by
  have hending := Task.run_ending task watch limits earlier
  unfold RunsThrough at hthrough
  generalize task.run watch limits earlier = outcome at hthrough hending ⊢
  cases hending with
  | failed _ hfew => exact absurd hthrough (Nat.ne_of_lt hfew)
  | interrupted _ _ hfew => exact absurd hthrough (Nat.ne_of_lt hfew)
  | @finished last _ hsteps hposition hahead _ => exact ⟨last, hsteps, hposition, hahead, rfl⟩

/-- A run goes through if no flag is raised and no time is over. -/
theorem Task.runsThrough_of_calm {earlier : List Report}
    (hflag : ∀ reports, watch.isCancelled reports = false)
    (htime : ∀ look, watch.verdict limits task.phase look = .goOn) :
    task.RunsThrough watch limits earlier := by
  have hending := Task.run_ending task watch limits earlier
  unfold Task.RunsThrough
  generalize task.run watch limits earlier = outcome at hending ⊢
  cases hending with
  | finished _ _ _ hall => exact hall
  | interrupted _ hstops _ =>
      rcases hstops with ⟨reports, hcancelled⟩ | ⟨look, hverdict⟩
      · rw [hflag] at hcancelled
        exact absurd hcancelled (by decide)
      · rw [htime] at hverdict
        exact absurd hverdict (by simp)
  | failed hfails _ =>
      rw [htime] at hfails
      exact absurd hfails (by simp)

/-- If no flag is ever raised, the earlier reports do not matter. -/
theorem Task.result_rounds_eq (hflag : ∀ reports, watch.isCancelled reports = false)
    (bound remaining position : Nat) (ledger : Ledger) (queue : Queue State)
    (earlier later : List Report) :
    (task.rounds bound watch limits remaining position ledger queue earlier).result =
      (task.rounds bound watch limits remaining position ledger queue later).result := by
  induction remaining generalizing position ledger queue earlier later with
  | zero => rfl
  | succ remaining ih =>
      unfold Task.rounds
      rw [if_neg (by simp [hflag]), if_neg (by simp [hflag])]
      split
      · rfl
      · rfl
      · split
        · rfl
        · rfl
        · exact ih ..

/-! ## What a search gives back -/

/-- Parses of runs that end at a terminal node. -/
def Task.Completes (task : Task) (state : State) (parse : Parse) : Prop :=
  task.Reached state ∧ task.grammar.isTerminal state.node = true ∧
    state.complete? task.policy = some parse

/-- All states that wait have been reached, all keys are keys of reached states, and
all complete parses are parses of runs. -/
structure Snapshot.Sound (task : Task) (snapshot : Snapshot) : Prop where
  queue : ∀ state ∈ snapshot.queue, task.Reached state
  ahead : ∀ state ∈ snapshot.ahead, task.Reached state
  seen : ∀ key ∈ snapshot.ledger.seen, ∃ state, task.Reached state ∧ StateKey.ofState state = key
  complete : ∀ parse ∈ snapshot.ledger.complete.toList, ∃ state, task.Completes state parse

theorem Snapshot.sound_start : (start task).Sound task where
  queue := by simpa [start] using Task.Reached.initial
  ahead := by simp [start]
  seen := by simp [start, Ledger.empty]
  complete := by simp [start, Ledger.empty]

theorem Task.mem_seen_enter {ledger : Ledger} {state : State} {key : StateKey} :
    key ∈ (task.enter ledger state).seen ↔
      key = StateKey.ofState state ∨ key ∈ ledger.seen := by
  rw [Task.seen_enter, Std.TreeSet.mem_insert, Std.LawfulEqCmp.compare_eq_iff_eq]
  exact or_congr_left eq_comm

theorem Task.mem_complete_enter {ledger : Ledger} {state : State} {parse : Parse} :
    parse ∈ (task.enter ledger state).complete.toList ↔
      parse ∈ ledger.complete.toList ∨
        task.grammar.isTerminal state.node = true ∧ state.complete? task.policy = some parse := by
  unfold Task.enter Ledger.note Ledger.finish
  simp only
  split
  · next hterminal =>
      simp only [hterminal, true_and]
      split
      · next found hfound => simp [hfound, eq_comm]
      · next hnone => simp [hnone]
  · next hterminal => simp [hterminal]

theorem Snapshot.Sound.step {Room : Nat → Prop} {now next : Snapshot} (hsound : now.Sound task)
    (hstep : StepIn Room task now next) : next.Sound task := by
  cases hstep with
  | pass hpassed =>
      exact ⟨fun state hstate => hsound.queue state (List.mem_cons_of_mem _ hstate),
        hsound.ahead, hsound.seen, hsound.complete⟩
  | @enter position ledger state queue ahead hkept hroom =>
      have hreached := hsound.queue state (List.mem_cons_self ..)
      have hmoves : ∀ next, next ∈ (task.successors state).1 ∨ next ∈ (task.successors state).2 →
          task.Reached next :=
        fun next hnext => hreached.move (mem_successors_iff.mp hnext)
      refine ⟨?_, ?_, ?_, ?_⟩
      · intro other hother
        rcases List.mem_append.mp hother with hold | hnew
        · exact hsound.queue other (List.mem_cons_of_mem _ hold)
        · exact hmoves other (Or.inl hnew)
      · intro other hother
        rcases List.mem_append.mp hother with hold | hnew
        · exact hsound.ahead other hold
        · exact hmoves other (Or.inr hnew)
      · intro key hkey
        rcases Task.mem_seen_enter.mp hkey with rfl | hold
        · exact ⟨state, hreached, rfl⟩
        · exact hsound.seen key hold
      · intro parse hparse
        rcases Task.mem_complete_enter.mp hparse with hold | ⟨hterminal, hcomplete⟩
        · exact hsound.complete parse hold
        · exact ⟨state, hreached, hterminal, hcomplete⟩
  | turn => exact ⟨hsound.ahead, by simp, hsound.seen, hsound.complete⟩
  | cut _ _ => exact ⟨by simp, hsound.ahead, hsound.seen, hsound.complete⟩

theorem Snapshot.Steps.sound {last : Snapshot} (hsteps : Steps task (start task) last) :
    last.Sound task :=
  StepsIn.keeps hsteps Snapshot.sound_start Snapshot.Sound.step

/-- What a search gives back are parses of runs that end at a terminal node, and
states of runs closed by force. -/
theorem Task.complete_or_forced_of_mem_run {earlier : List Report} {parses : List Parse}
    {parse : Parse} (hrun : (task.run watch limits earlier).result = .ok parses)
    (hparse : parse ∈ parses) :
    (∃ state, task.Completes state parse) ∨
      ∃ state, task.Reached state ∧ parse = state.forceClose := by
  have hending := Task.run_ending task watch limits earlier
  generalize task.run watch limits earlier = outcome at hrun hending
  cases hending with
  | finished hsteps _ _ _ =>
      obtain rfl := Except.ok.inj hrun
      rcases Parse.mem_of_mem_rank hparse with hcomplete | hnone
      · exact Or.inl (hsteps.sound.complete parse hcomplete)
      · simp at hnone
  | failed _ _ => exact absurd hrun (by simp)
  | interrupted hsteps _ _ =>
      obtain rfl := Except.ok.inj hrun
      rcases Parse.mem_of_mem_rank hparse with hcomplete | hforced
      · exact Or.inl (hsteps.sound.complete parse hcomplete)
      · obtain ⟨state, hstate, rfl⟩ := List.mem_map.mp hforced
        refine Or.inr ⟨state, ?_, rfl⟩
        rcases List.mem_append.mp hstate with hqueue | hahead
        · exact hsteps.sound.queue state hqueue
        · exact hsteps.sound.ahead state hahead

/-- What a run that goes through gives back are parses of runs that end at a terminal node. -/
theorem Task.RunsThrough.completes_of_mem {earlier : List Report} {parses : List Parse}
    {parse : Parse} (hthrough : task.RunsThrough watch limits earlier)
    (hrun : (task.run watch limits earlier).result = .ok parses) (hparse : parse ∈ parses) :
    ∃ state, task.Completes state parse := by
  obtain ⟨last, hsteps, -, -, hresult⟩ := hthrough.exists_end
  obtain rfl := Except.ok.inj (hresult.symm.trans hrun)
  rcases Parse.mem_of_mem_rank hparse with hcomplete | hnone
  · exact hsteps.sound.complete parse hcomplete
  · cases hnone

end Phraseology
