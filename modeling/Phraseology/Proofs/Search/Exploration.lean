import Phraseology.Proofs.Search.KeyBound

/-!
# What a search has explored

A search passes over a state if its key has been met, and if it is pruned.

* Of keys, `Snapshot.Explored` says no more than that each key which has been met belongs
  to some state that was worked off.  What becomes of other states with this key is left
  open.
* States with few skips are never pruned.  Let `bound` be a number that no run to a
  terminal node falls short of.  The fewest skips that a search has met are never below
  `bound`, so a state with at most `bound` skips is kept.

As skips only grow along a run, each state with at most `bound` skips is reached through
such states.  If keys tell how to go on from a state (`Task.KeysDecide`), then the parses
of all these states are complete at the end of a search (`Snapshot.Steps.mem_complete`).
-/

namespace Phraseology

open Snapshot

variable {task : Task} {state : State} {parse : Parse} {bound : Nat}

/-! ## Skips and places -/

/-- Skips only grow along a run. -/
theorem Task.Move.skips_le {next : State} (hmove : task.Move state next) :
    state.skips ≤ next.skips := by
  cases hmove with
  | pass _ _ => exact Nat.le_refl _
  | openTag _ _ _ => exact Nat.le_refl _
  | closeTag _ _ => exact Nat.le_refl _
  | readWord _ _ _ => exact Nat.le_refl _
  | skipWord _ _ _ => exact Nat.le_add_right ..

/-- The states of the same round have as many words left. -/
theorem State.length_unread_of_mem_staying {next : State} (hnext : next ∈ state.staying task) :
    next.unread.length = state.unread.length := by
  obtain ⟨target, arc, -, hstay⟩ := State.mem_staying_iff.mp hnext
  unfold State.stay? at hstay
  split at hstay
  · obtain rfl := Option.some.inj hstay
    rfl
  · split at hstay
    · simp at hstay
    · obtain rfl := Option.some.inj hstay
      rfl
  · obtain rfl := Option.some.inj hstay
    rfl
  · simp at hstay

/-- The states of the next round have one word less left. -/
theorem State.length_unread_of_mem_advancing {next : State}
    (hnext : next ∈ state.advancing task) :
    next.unread.length + 1 = state.unread.length := by
  rcases State.mem_advancing_iff.mp hnext with ⟨target, arc, -, hread⟩ | hskip
  · obtain ⟨heard, rest, -, hunread, rfl⟩ := State.read?_eq_some_iff.mp hread
    rw [hunread]
    rfl
  · obtain ⟨heard, rest, cost, -, hunread, -, rfl⟩ := State.skip?_eq_some_iff.mp hskip
    rw [hunread]
    rfl

/-- In a snapshot each state is at the place that its queue is for. -/
structure Snapshot.Level (task : Task) (snapshot : Snapshot) : Prop where
  queue : ∀ state ∈ snapshot.queue,
    snapshot.position + state.unread.length = task.sentence.length
  ahead : ∀ state ∈ snapshot.ahead,
    snapshot.position + 1 + state.unread.length = task.sentence.length

theorem Snapshot.level_start (task : Task) : (start task).Level task where
  queue := by simp [start, State.initial]
  ahead := by simp [start]

theorem Snapshot.Level.step {Room : Nat → Prop} {now next : Snapshot} (hlevel : now.Level task)
    (hstep : StepIn Room task now next) : next.Level task := by
  cases hstep with
  | pass _ =>
      exact ⟨fun state hstate => hlevel.queue state (List.mem_cons_of_mem _ hstate), hlevel.ahead⟩
  | @enter position ledger state queue ahead _ _ =>
      have hhere := hlevel.queue state (List.mem_cons_self ..)
      constructor
      · intro other hother
        rcases List.mem_append.mp hother with hold | hnew
        · exact hlevel.queue other (List.mem_cons_of_mem _ hold)
        · unfold Task.successors at hnew
          split at hnew
          · simp at hnew
          · rw [State.length_unread_of_mem_staying hnew]
            exact hhere
      · intro other hother
        rcases List.mem_append.mp hother with hold | hnew
        · exact hlevel.ahead other hold
        · unfold Task.successors at hnew
          split at hnew
          · simp at hnew
          · have hlength := State.length_unread_of_mem_advancing hnew
            show position + 1 + other.unread.length = task.sentence.length
            simp only at hhere
            omega
  | turn => exact ⟨hlevel.ahead, by simp⟩
  | cut _ _ => exact ⟨by simp, hlevel.ahead⟩

/-! ## States that are worked off -/

/-- A snapshot knows a state if it has worked it off or if the state waits. -/
def Snapshot.Knows (snapshot : Snapshot) (state : State) : Prop :=
  StateKey.ofState state ∈ snapshot.ledger.seen ∨ state ∈ snapshot.queue ∨ state ∈ snapshot.ahead

/-- No run to a terminal node leaves fewer words unexplained. -/
def Task.BoundsSkips (task : Task) (bound : Nat) : Prop :=
  ∀ state, task.Reached state → task.grammar.isTerminal state.node = true →
    bound ≤ state.skips + state.unread.length

/-- A search has gone on from a state: it knows what moves lead to, as far as these states
have few skips, and has noted the parse of the state. -/
structure Snapshot.Worked (task : Task) (bound : Nat) (snapshot : Snapshot) (state : State) :
    Prop where
  reached : task.Reached state
  moves : ∀ next, task.Move state next → next.skips ≤ bound → snapshot.Knows next
  complete : ∀ parse, task.Completes state parse → parse ∈ snapshot.ledger.complete.toList

/-- What a search has found of the states with at most `bound` skips: it knows the first
one, and each key that it has met is that of a state from which it has gone on. -/
structure Snapshot.Explored (task : Task) (bound : Nat) (snapshot : Snapshot) : Prop where
  sound : snapshot.Sound task
  level : snapshot.Level task
  fewest : ∀ skips, snapshot.ledger.fewest = some skips → bound ≤ skips
  initial : snapshot.Knows (State.initial task.sentence)
  worked : ∀ key ∈ snapshot.ledger.seen,
    ∃ state, StateKey.ofState state = key ∧ snapshot.Worked task bound state

theorem Snapshot.explored_start (task : Task) (bound : Nat) : (start task).Explored task bound where
  sound := sound_start
  level := level_start task
  fewest := by simp [start, Ledger.empty]
  initial := Or.inr (Or.inl (List.mem_cons_self ..))
  worked := by simp [start, Ledger.empty]

/-- A state with few skips is passed over only if its key has been met. -/
theorem Snapshot.Explored.mem_seen_of_passesOver {snapshot : Snapshot}
    (hexplored : snapshot.Explored task bound) (hskips : state.skips ≤ bound)
    (hpassed : snapshot.ledger.passesOver state = true) :
    StateKey.ofState state ∈ snapshot.ledger.seen := by
  rw [Ledger.passesOver, Bool.or_eq_true] at hpassed
  rcases hpassed with hprunes | hseen
  · -- a state is pruned only if it has more skips than `bound`
    exfalso
    unfold Ledger.prunes at hprunes
    cases hfewest : snapshot.ledger.fewest with
    | none =>
        rw [hfewest] at hprunes
        exact absurd hprunes (by simp)
    | some fewest =>
        have hleast := hexplored.fewest fewest hfewest
        rw [hfewest, Option.any_some, decide_eq_true_eq] at hprunes
        omega
  · exact Std.TreeSet.mem_iff_contains.mpr hseen

/-- A state with few skips stays known. -/
theorem Snapshot.Explored.knows_step {now next : Snapshot} (hexplored : now.Explored task bound)
    (hloops : task.grammar.NoOpeningLoop) (hstep : Step task now next)
    (hskips : state.skips ≤ bound) (hknows : now.Knows state) : next.Knows state := by
  cases hstep with
  | @pass position ledger first queue ahead hpassed =>
      -- a state with few skips is passed over only if its key has been met
      rcases hknows with hseen | hqueue | hahead
      · exact Or.inl hseen
      · rcases List.mem_cons.mp hqueue with rfl | hqueue
        · exact Or.inl (hexplored.mem_seen_of_passesOver hskips hpassed)
        · exact Or.inr (Or.inl hqueue)
      · exact Or.inr (Or.inr hahead)
  | @enter position ledger first queue ahead hkept hroom =>
      rcases hknows with hseen | hqueue | hahead
      · exact Or.inl (Task.mem_seen_enter.mpr (Or.inr hseen))
      · rcases List.mem_cons.mp hqueue with rfl | hqueue
        · exact Or.inl (Task.mem_seen_enter.mpr (Or.inl rfl))
        · exact Or.inr (Or.inl (List.mem_append_left _ hqueue))
      · exact Or.inr (Or.inr (List.mem_append_left _ hahead))
  | turn =>
      rcases hknows with hseen | hqueue | hahead
      · exact Or.inl hseen
      · exact absurd hqueue (by simp)
      · exact Or.inr (Or.inl hahead)
  | @cut position ledger first queue ahead hkept hfull =>
      -- without opening loops there is always room
      have hreached := hexplored.sound.queue first (List.mem_cons_self ..)
      have hroom := hexplored.sound.room hloops hreached hkept
      exact absurd hroom hfull

theorem Task.fewest_enter {ledger : Ledger} {skips : Nat}
    (hfewest : (task.enter ledger state).fewest = some skips) :
    ledger.fewest = some skips ∨
      task.grammar.isTerminal state.node = true ∧
        (skips = state.skips + state.unread.length ∨
          ∃ old, ledger.fewest = some old ∧ skips = min old (state.skips + state.unread.length)) := by
  unfold Task.enter at hfewest
  simp only at hfewest
  split at hfewest
  · next hterminal =>
      refine Or.inr ⟨hterminal, ?_⟩
      have hlowest := Option.some.inj hfewest
      cases hold : ledger.fewest with
      | none =>
          left
          simpa [Ledger.note, hold, Ledger.lowest] using hlowest.symm
      | some old =>
          right
          exact ⟨old, rfl, by simpa [Ledger.note, hold, Ledger.lowest] using hlowest.symm⟩
  · exact Or.inl hfewest

/-- A parse stays noted. -/
theorem Snapshot.mem_complete_of_step {now next : Snapshot} (hstep : Step task now next)
    (hparse : parse ∈ now.ledger.complete.toList) : parse ∈ next.ledger.complete.toList := by
  cases hstep with
  | pass _ => exact hparse
  | enter _ _ => exact Task.mem_complete_enter.mpr (Or.inl hparse)
  | turn => exact hparse
  | cut _ _ => exact hparse

theorem Snapshot.Explored.step {now next : Snapshot} (hloops : task.grammar.NoOpeningLoop)
    (hbound : task.BoundsSkips bound) (hexplored : now.Explored task bound)
    (hstep : Step task now next) : next.Explored task bound := by
  have hsound := hexplored.sound.step hstep
  have hlevel := hexplored.level.step hstep
  have hinitial : next.Knows (State.initial task.sentence) :=
    hexplored.knows_step hloops hstep (Nat.zero_le _) hexplored.initial
  -- from where the search has gone on before, nothing is lost
  have hworked : ∀ key ∈ now.ledger.seen,
      ∃ state, StateKey.ofState state = key ∧ next.Worked task bound state := by
    intro key hkey
    obtain ⟨state, hstate, hworked⟩ := hexplored.worked key hkey
    refine ⟨state, hstate, hworked.reached, ?_, ?_⟩
    · intro other hmove hskips
      exact hexplored.knows_step hloops hstep hskips (hworked.moves other hmove hskips)
    · intro parse hparse
      exact mem_complete_of_step hstep (hworked.complete parse hparse)
  cases hstep with
  | pass hpassed => exact ⟨hsound, hlevel, hexplored.fewest, hinitial, hworked⟩
  | @enter position ledger first queue ahead hkept hroom =>
      have hfirst := hexplored.sound.queue first (List.mem_cons_self ..)
      refine ⟨hsound, hlevel, ?_, hinitial, ?_⟩
      · intro skips hskips
        rcases Task.fewest_enter hskips with hold | ⟨hterminal, rfl | ⟨old, hold, rfl⟩⟩
        · exact hexplored.fewest skips hold
        · exact hbound first hfirst hterminal
        · exact Nat.le_min.mpr ⟨hexplored.fewest old hold, hbound first hfirst hterminal⟩
      · intro key hkey
        rcases Task.mem_seen_enter.mp hkey with rfl | hkey
        · -- the new key is that of the state whose moves have just been queued
          refine ⟨first, rfl, hfirst, fun other hmove _ => ?_, fun parse hparse => ?_⟩
          · rcases mem_successors_iff.mpr hmove with hqueue | hahead
            · exact Or.inr (Or.inl (List.mem_append_right _ hqueue))
            · exact Or.inr (Or.inr (List.mem_append_right _ hahead))
          · exact Task.mem_complete_enter.mpr (Or.inr hparse.2)
        · exact hworked key hkey
  | turn => exact ⟨hsound, hlevel, hexplored.fewest, hinitial, hworked⟩
  | cut hkept hfull => exact ⟨hsound, hlevel, hexplored.fewest, hinitial, hworked⟩

/-! ## The end of a search -/

/-- At the end of a search nothing waits. -/
theorem Snapshot.Level.queue_eq_nil {last : Snapshot} (hlevel : last.Level task)
    (hposition : last.position = task.sentence.length + 1) : last.queue = [] := by
  cases hqueue : last.queue with
  | nil => rfl
  | cons state rest =>
      have hplace := hlevel.queue state (hqueue ▸ List.mem_cons_self ..)
      omega

/-- Keys tell how to go on with at most `bound` skips: what can be done from a state can be
done from each other one with its key. -/
structure Task.KeysDecide (task : Task) (bound : Nat) : Prop where
  moves : ∀ state other next, task.Reached state → task.Reached other →
    StateKey.ofState state = StateKey.ofState other → task.Move other next → next.skips ≤ bound →
    ∃ twin, task.Move state twin ∧ twin.skips ≤ bound ∧
      StateKey.ofState twin = StateKey.ofState next
  complete : ∀ state other parse, task.Reached state →
    StateKey.ofState state = StateKey.ofState other → task.Completes other parse →
    task.Completes state parse

/-- At the end of a search the key of each state with few skips has been met. -/
theorem Snapshot.Explored.mem_seen {last : Snapshot} (hexplored : last.Explored task bound)
    (hkeys : task.KeysDecide bound) (hposition : last.position = task.sentence.length + 1)
    (hahead : last.ahead = []) (hreached : task.Reached state) (hskips : state.skips ≤ bound) :
    StateKey.ofState state ∈ last.ledger.seen := by
  have hqueue := hexplored.level.queue_eq_nil hposition
  have hmet : ∀ {other : State}, last.Knows other →
      StateKey.ofState other ∈ last.ledger.seen := by
    intro other hknows
    rw [Knows, hqueue, hahead] at hknows
    simpa using hknows
  induction hreached with
  | initial => exact hmet hexplored.initial
  | @move state next hstate hmove ih =>
      have hseen := ih (Nat.le_trans hmove.skips_le hskips)
      obtain ⟨worked, hkey, hworked⟩ := hexplored.worked _ hseen
      obtain ⟨twin, htwin, hfew, hsame⟩ :=
        hkeys.moves worked state next hworked.reached hstate hkey hmove hskips
      rw [← hsame]
      exact hmet (hworked.moves twin htwin hfew)

/-- At the end of a search the parses of the states with few skips are complete. -/
theorem Snapshot.Steps.mem_complete {last : Snapshot} (hsteps : Steps task (start task) last)
    (hloops : task.grammar.NoOpeningLoop) (hbound : task.BoundsSkips bound)
    (hkeys : task.KeysDecide bound) (hposition : last.position = task.sentence.length + 1)
    (hahead : last.ahead = []) (hparse : task.Completes state parse)
    (hskips : state.skips ≤ bound) : parse ∈ last.ledger.complete.toList := by
  have hexplored : last.Explored task bound :=
    StepsIn.keeps hsteps (explored_start task bound) (Explored.step hloops hbound)
  have hseen := hexplored.mem_seen hkeys hposition hahead hparse.1 hskips
  obtain ⟨worked, hkey, hworked⟩ := hexplored.worked _ hseen
  exact hworked.complete parse (hkeys.complete worked state parse hworked.reached hkey hparse)

end Phraseology
