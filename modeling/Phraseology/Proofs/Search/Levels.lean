import Mathlib.Data.List.Range
import Phraseology.Proofs.Search.Exploration

/-!
# The levels of a search

The states that wait in a search stand on levels, one for each number of words that a state can
have used up, and one more.  `Task.run` holds only two of them, that of the round and the next
one.  Here all of them are laid out on a board, and a step that reads or writes a level which is
not there has no result (`Board.step?`).

* In every snapshot the levels behind the round are empty, and those beyond the next one as
  well.  So a board is nothing but a snapshot (`Snapshot.board`), and each step on it is one of
  the search (`Snapshot.Sound.exists_step?`).
* Without loops that open tags there is room for every key.  Each step takes a state away, and
  adds states only with a new key, or it goes to the next level.  So `Snapshot.remaining` falls.
* A state on a level has used up as many words, so none stands on the level behind the last
  word (`Snapshot.Level`).

Together these say that a search ends, and stays within its levels (`Task.search_ends`).
-/

namespace Phraseology

open Relation Snapshot

/-- A search with all levels.  On a level stand states that have used up as many words. -/
structure Board where
  position : Nat
  ledger : Ledger
  levels : List (List State)

namespace Board

/-- The board before the first state. -/
def start (task : Task) : Board where
  position := 0
  ledger := .empty
  levels := (List.replicate (task.sentence.length + 2) []).set 0 [State.initial task.sentence]

/-- Puts a state behind those that wait on a level, if there is this level. -/
def push? (level : Nat) (levels : List (List State)) (state : State) : Option (List (List State)) :=
  levels[level]?.map fun waiting => levels.set level (waiting ++ [state])

/-- Works off the next state of a level, or goes on to the next level and looks at what waits
there. -/
def step? (task : Task) (board : Board) : Option Board :=
  match board.levels[board.position]? with
  | none => none
  | some [] =>
    board.levels[board.position + 1]?.map fun _ => { board with position := board.position + 1 }
  | some (state :: rest) =>
    let left := board.levels.set board.position rest
    if board.ledger.passesOver state then
      some { board with ledger := board.ledger.count, levels := left }
    else
      ((task.successors state).1.foldlM (push? board.position) left).bind fun staying =>
        ((task.successors state).2.foldlM (push? (board.position + 1)) staying).map fun levels =>
          { board with ledger := task.enter board.ledger.count state, levels := levels }

/-- Until the level behind the last word, one step follows the other. -/
def Next (task : Task) (board next : Board) : Prop :=
  board.position ≤ task.sentence.length ∧ board.step? task = some next

/-- The boards of a search. -/
abbrev Reached (task : Task) (board : Board) : Prop :=
  ReflTransGen (Next task) (start task) board

/-- A search comes to its end in a number of steps. -/
inductive Runs (task : Task) : Nat → Board → Board → Prop
  | done {board : Board} (behind : task.sentence.length < board.position) : Runs task 0 board board
  | step {n : Nat} {board next last : Board} (first : Next task board next)
      (rest : Runs task n next last) : Runs task (n + 1) board last

end Board

variable {task : Task} {now next last : Snapshot} {level size : Nat} {f : Nat → List State}

/-! ## Snapshots on the board -/

/-- Levels by their numbers. -/
def Board.table (size : Nat) (f : Nat → List State) : List (List State) :=
  (List.range size).map f

theorem Board.getElem?_table (hlevel : level < size) :
    (Board.table size f)[level]? = some (f level) := by
  rw [table, List.getElem?_map, List.getElem?_range hlevel]
  rfl

theorem Board.set_table (waiting : List State) :
    (Board.table size f).set level waiting =
      Board.table size fun other => if other = level then waiting else f other := by
  apply List.ext_getElem?
  intro other
  rw [List.getElem?_set]
  by_cases hother : other < size
  · rw [getElem?_table hother, getElem?_table hother]
    by_cases hsame : level = other
    · simp [hsame, table, hother]
    · simp [hsame, Ne.symm hsame]
  · have hbeyond : ∀ g : Nat → List State, (Board.table size g)[other]? = none := by
      intro g
      simpa [table] using hother
    rw [hbeyond, hbeyond]
    split
    · next hsame =>
        subst hsame
        simpa [table] using hother
    · rfl

theorem Board.foldlM_push?_table (hlevel : level < size) (states : List State) :
    states.foldlM (Board.push? level) (Board.table size f) =
      some (Board.table size fun other => if other = level then f other ++ states else f other) := by
  induction states generalizing f with
  | nil => simp
  | cons state states ih =>
      have hpush : Board.push? level (Board.table size f) state =
          some (Board.table size fun other =>
            if other = level then f level ++ [state] else f other) := by
        rw [push?, getElem?_table hlevel, Option.map_some, set_table]
      rw [List.foldlM_cons, hpush, Option.bind_eq_bind, Option.bind_some, ih]
      congr 2
      funext other
      by_cases hother : other = level
      · simp [hother]
      · simp [hother]

/-- What waits on a level in a snapshot. -/
def Snapshot.waiting (now : Snapshot) (level : Nat) : List State :=
  if level = now.position then now.queue
  else if level = now.position + 1 then now.ahead
  else []

/-- A snapshot on the board. -/
def Snapshot.board (task : Task) (now : Snapshot) : Board where
  position := now.position
  ledger := now.ledger
  levels := Board.table (task.sentence.length + 2) now.waiting

/-- A state waits on the level of the words that it has used up. -/
theorem Snapshot.Level.of_mem_waiting {state : State} (hlevel : now.Level task)
    (hstate : state ∈ now.waiting level) : level + state.unread.length = task.sentence.length := by
  unfold waiting at hstate
  split at hstate
  · next hhere =>
      rw [hhere]
      exact hlevel.queue state hstate
  · split at hstate
    · next hnext =>
        rw [hnext]
        exact hlevel.ahead state hstate
    · cases hstate

/-- Behind the last word nothing waits. -/
theorem Snapshot.Level.waiting_eq_nil (hlevel : now.Level task)
    (hend : now.position = task.sentence.length + 1) (level : Nat) : now.waiting level = [] := by
  rw [List.eq_nil_iff_forall_not_mem]
  intro state hstate
  have hplace := hlevel.of_mem_waiting hstate
  unfold waiting at hstate
  rw [if_neg (by omega), if_neg (by omega)] at hstate
  cases hstate

theorem Snapshot.board_start (task : Task) : (start task).board task = Board.start task := by
  have hempty : List.replicate (task.sentence.length + 2) [] =
      Board.table (task.sentence.length + 2) fun _ => [] := by
    simp [Board.table]
  rw [Board.start, hempty, Board.set_table]
  unfold Snapshot.board
  congr 2
  funext level
  simp [waiting, start]

/-! ## What is left to be done -/

theorem Grammar.length_transitions_le (grammar : Grammar) (source : Nat) :
    (grammar.transitions source).length ≤ grammar.arcs.length := by
  cases htransitions : grammar.transitions source with
  | nil => exact Nat.zero_le _
  | cons first rest =>
      -- a node that some arc leaves is listed
      have hfirst : (source, first.1, first.2) ∈ grammar.arcs :=
        Grammar.mem_arcs.mpr (by rw [htransitions]; exact List.mem_cons_self)
      obtain ⟨listed, hlisted, hleaves⟩ := List.mem_flatMap.mp hfirst
      obtain ⟨_, _, hsame⟩ := List.mem_map.mp hleaves
      obtain rfl : listed = source := (Prod.mk.inj hsame).1
      have hpart : ((grammar.transitions listed).map fun move =>
          (listed, move.1, move.2)).Sublist grammar.arcs :=
        List.sublist_flatten_of_mem (List.mem_map_of_mem hlisted)
      have hlength := hpart.length_le
      rw [List.length_map, htransitions] at hlength
      exact hlength

theorem length_filterMap_add_le {α β : Type} {f g : α → Option β} {xs : List α}
    (honly : ∀ x ∈ xs, f x = none ∨ g x = none) :
    (xs.filterMap f).length + (xs.filterMap g).length ≤ xs.length := by
  induction xs with
  | nil => exact Nat.le_refl 0
  | cons x xs ih =>
      obtain ⟨hx, hxs⟩ := List.forall_mem_cons.mp honly
      have hcons : ∀ h : α → Option β, ((x :: xs).filterMap h).length =
          (h x).toList.length + (xs.filterMap h).length := by
        intro h
        rw [List.filterMap_cons]
        cases h x with
        | none => exact (Nat.zero_add _).symm
        | some y => exact Nat.add_comm _ 1
      have hrest := ih hxs
      have hf : (f x).toList.length ≤ 1 := Option.length_toList_le
      have hg : (g x).toList.length ≤ 1 := Option.length_toList_le
      rw [hcons f, hcons g, List.length_cons]
      rcases hx with hx | hx <;> rw [hx, Option.toList_none, List.length_nil] <;> omega

/-- An arc leads to one state at most, and the next word is skipped once. -/
theorem Task.length_successors_le (task : Task) (state : State) :
    (task.successors state).1.length + (task.successors state).2.length ≤
      task.grammar.arcs.length + 1 := by
  unfold successors
  split
  · exact Nat.zero_le _
  · have honly : ∀ move ∈ task.grammar.transitions state.node,
        state.stay? task.pruned move.1 move.2 = none ∨ state.read? move.1 move.2 = none := by
      rintro ⟨target, arc⟩ -
      unfold State.stay? State.read?
      cases arc.label <;> simp
    have harcs := task.grammar.length_transitions_le state.node
    have hmoves := length_filterMap_add_le honly
    have hskip : (state.skip? task.policy (task.grammar.transitions state.node)).toList.length ≤ 1 :=
      Option.length_toList_le
    simp only [State.staying, State.advancing, List.length_append]
    omega

/-- A bound on the steps that are left. -/
def Snapshot.remaining (task : Task) (now : Snapshot) : Nat :=
  (task.sentence.length + 1 - now.position) + (now.queue.length + now.ahead.length) +
    (keyBound task - now.ledger.seen.size) * (task.grammar.arcs.length + 1)

theorem Snapshot.remaining_start (task : Task) : (start task).remaining task =
    task.sentence.length + 2 + keyBound task * (task.grammar.arcs.length + 1) := by
  have hsize : Ledger.empty.seen.size = 0 := by
    rw [Ledger.empty]
    exact Std.TreeSet.size_emptyc
  simp only [remaining, start, hsize, List.length_singleton, List.length_nil, Nat.sub_zero]

/-- Working off a state uses up a key, and so makes up for the states that are added. -/
theorem Snapshot.remaining_enter_lt {position : Nat} {ledger : Ledger} {state : State}
    {queue ahead : List State} (hkept : ¬ledger.passesOver state = true)
    (hroom : ledger.seen.size < keyBound task) :
    Snapshot.remaining task ⟨position, task.enter ledger.count state,
        queue ++ (task.successors state).1, ahead ++ (task.successors state).2⟩ <
      Snapshot.remaining task ⟨position, ledger, state :: queue, ahead⟩ := by
  have hgrow : ledger.seen.size < (task.enter ledger.count state).seen.size := by
    rw [Task.seen_enter]
    exact Task.size_lt_size_insert hkept
  obtain ⟨left, hleft⟩ := Nat.exists_eq_add_of_lt hroom
  have hkeys : keyBound task - (task.enter ledger.count state).seen.size ≤ left := by omega
  have hmul : (keyBound task - (task.enter ledger.count state).seen.size) *
      (task.grammar.arcs.length + 1) ≤ left * (task.grammar.arcs.length + 1) :=
    Nat.mul_le_mul_right _ hkeys
  have hhere : keyBound task - ledger.seen.size = left + 1 := by omega
  have hnew := task.length_successors_le state
  simp only [remaining, List.length_append, List.length_cons, hhere, Nat.add_mul left 1]
  omega

/-! ## Steps on the board -/

section Steps

variable {position : Nat} {ledger : Ledger} {state : State} {queue ahead : List State}

theorem Snapshot.waiting_here (position : Nat) (ledger : Ledger) (queue ahead : List State) :
    (Snapshot.waiting ⟨position, ledger, queue, ahead⟩) position = queue :=
  if_pos rfl

theorem Snapshot.step?_turn (hwithin : position ≤ task.sentence.length) :
    (Snapshot.board task ⟨position, ledger, [], ahead⟩).step? task =
      some (Snapshot.board task ⟨position + 1, ledger, ahead, []⟩) := by
  have hlevel : position < task.sentence.length + 2 := by omega
  have hahead : position + 1 < task.sentence.length + 2 := by omega
  have hsame : Snapshot.waiting ⟨position, ledger, [], ahead⟩ =
      Snapshot.waiting ⟨position + 1, ledger, ahead, []⟩ := by
    funext level
    simp only [waiting]
    split_ifs <;> first | rfl | omega
  simp only [Board.step?, board, Board.getElem?_table hlevel, waiting_here,
    Board.getElem?_table hahead, Option.map_some]
  rw [hsame]

theorem Snapshot.step?_pass (hwithin : position ≤ task.sentence.length)
    (hpass : ledger.passesOver state = true) :
    (Snapshot.board task ⟨position, ledger, state :: queue, ahead⟩).step? task =
      some (Snapshot.board task ⟨position, ledger.count, queue, ahead⟩) := by
  have hlevel : position < task.sentence.length + 2 := by omega
  simp only [Board.step?, board, Board.getElem?_table hlevel, waiting_here, if_pos hpass,
    Board.set_table]
  congr 3
  funext level
  simp only [waiting]
  split_ifs <;> rfl

theorem Snapshot.step?_enter (hwithin : position ≤ task.sentence.length)
    (hkept : ¬ledger.passesOver state = true) :
    (Snapshot.board task ⟨position, ledger, state :: queue, ahead⟩).step? task =
      some (Snapshot.board task ⟨position, task.enter ledger.count state,
        queue ++ (task.successors state).1, ahead ++ (task.successors state).2⟩) := by
  have hlevel : position < task.sentence.length + 2 := by omega
  have hahead : position + 1 < task.sentence.length + 2 := by omega
  simp only [Board.step?, board, Board.getElem?_table hlevel, waiting_here, if_neg hkept,
    Board.set_table, Board.foldlM_push?_table hlevel, Board.foldlM_push?_table hahead,
    Option.bind_some, Option.map_some]
  congr 3
  funext level
  simp only [waiting]
  by_cases hhere : level = position
  · simp [hhere]
  · by_cases hnext : level = position + 1
    · simp [hnext]
    · simp [hhere, hnext]

end Steps

/-- Until the level behind the last word a step on the board is a step of the search, and
brings it closer to its end. -/
theorem Snapshot.Sound.exists_step? (hsound : now.Sound task) (hloops : task.grammar.NoOpeningLoop)
    (hposition : now.position ≤ task.sentence.length) :
    ∃ next : Snapshot, Step task now next ∧
      (now.board task).step? task = some (next.board task) ∧
      next.position ≤ task.sentence.length + 1 ∧ next.remaining task < now.remaining task := by
  obtain ⟨position, ledger, queue, ahead⟩ := now
  have hwithin : position ≤ task.sentence.length := hposition
  cases queue with
  | nil =>
      refine ⟨_, .turn, step?_turn hwithin, Nat.succ_le_succ hwithin, ?_⟩
      simp only [remaining, List.length_nil]
      omega
  | cons state rest =>
      by_cases hpass : ledger.passesOver state = true
      · refine ⟨_, .pass hpass, step?_pass hwithin hpass, Nat.le_succ_of_le hwithin, ?_⟩
        simp only [remaining, List.length_cons, Ledger.count]
        omega
      · have hroom := hsound.room hloops (hsound.queue state List.mem_cons_self) hpass
        exact ⟨_, .enter hpass hroom, step?_enter hwithin hpass, Nat.le_succ_of_le hwithin,
          remaining_enter_lt hpass hroom⟩

/-- Each board of a search is that of a snapshot. -/
theorem Board.Reached.exists_snapshot {board : Board} (hloops : task.grammar.NoOpeningLoop)
    (hreached : Board.Reached task board) :
    ∃ now, Steps task (Snapshot.start task) now ∧ board = now.board task := by
  induction hreached with
  | refl => exact ⟨Snapshot.start task, ReflTransGen.refl, (board_start task).symm⟩
  | @tail board later _ hnext ih =>
      obtain ⟨now, hsteps, rfl⟩ := ih
      obtain ⟨hposition, hstep⟩ := hnext
      obtain ⟨next, hfollows, hboard, -, -⟩ := hsteps.sound.exists_step? hloops hposition
      refine ⟨next, hsteps.tail hfollows, ?_⟩
      rw [hboard] at hstep
      exact (Option.some.inj hstep).symm

/-- From every snapshot up to the last word a search comes to its end. -/
theorem Snapshot.exists_runs (hloops : task.grammar.NoOpeningLoop)
    (hsteps : Steps task (start task) now) (hposition : now.position ≤ task.sentence.length + 1) :
    ∃ n last, n ≤ now.remaining task ∧ Board.Runs task n (now.board task) (last.board task) ∧
      Steps task (start task) last ∧ last.position = task.sentence.length + 1 := by
  induction hremaining : now.remaining task using Nat.strong_induction_on generalizing now with
  | _ remaining ih =>
      by_cases hover : task.sentence.length < now.position
      · exact ⟨0, now, Nat.zero_le _, .done hover, hsteps, by omega⟩
      · have hwithin : now.position ≤ task.sentence.length := Nat.le_of_not_lt hover
        obtain ⟨next, hstep, hboard, hnext, hless⟩ := hsteps.sound.exists_step? hloops hwithin
        rw [hremaining] at hless
        obtain ⟨n, last, hn, hruns, hlast⟩ := ih _ hless (hsteps.tail hstep) hnext rfl
        exact ⟨n + 1, last, by omega, .step ⟨hwithin, hboard⟩ hruns, hlast⟩

/-! ## The end of a search -/

/-- A search has no choice. -/
theorem Snapshot.step_unique (hnext : Step task now next) (hlast : Step task now last) :
    next = last := by
  cases hnext with
  | pass hpassed =>
      cases hlast with
      | pass _ => rfl
      | enter hkept _ => exact absurd hpassed hkept
      | cut hkept _ => exact absurd hpassed hkept
  | enter hkept hroom =>
      cases hlast with
      | pass hpassed => exact absurd hpassed hkept
      | enter _ _ => rfl
      | cut _ hfull => exact absurd hroom hfull
  | turn =>
      cases hlast with
      | turn => rfl
  | cut hkept hfull =>
      cases hlast with
      | pass hpassed => exact absurd hpassed hkept
      | enter _ hroom => exact absurd hroom hfull
      | cut _ _ => rfl

theorem Snapshot.Steps.position_le (hsteps : Steps task now last) :
    now.position ≤ last.position := by
  induction hsteps with
  | refl => exact Nat.le_refl _
  | tail _ hstep ih =>
      cases hstep with
      | turn => exact Nat.le_succ_of_le ih
      | _ => exact ih

/-- When nothing waits, the next step goes to another level. -/
theorem Snapshot.Steps.eq_of_queue_eq_nil (hsteps : Steps task now last)
    (hqueue : now.queue = []) (hposition : last.position = now.position) : last = now := by
  rcases ReflTransGen.cases_head hsteps with hsame | ⟨next, hstep, hrest⟩
  · exact hsame.symm
  · have hlater := Snapshot.Steps.position_le hrest
    cases hstep with
    | turn =>
        simp only at hlater hposition
        omega
    | _ => cases hqueue

/-- There is one snapshot behind the last word. -/
theorem Snapshot.Steps.unique_end (hnow : Steps task (start task) now)
    (hlast : Steps task (start task) last) (hposition : now.position = task.sentence.length + 1)
    (hend : last.position = task.sentence.length + 1) : now = last := by
  have hlevel : ∀ {other : Snapshot}, Steps task (start task) other → other.Level task :=
    fun hsteps => StepsIn.keeps hsteps (level_start task) Level.step
  have hqueue := (hlevel hnow).queue_eq_nil hposition
  have hnone := (hlevel hlast).queue_eq_nil hend
  have hsame := hposition.trans hend.symm
  have hunique : Relator.RightUnique (Step task) := fun _ _ _ => step_unique
  rcases ReflTransGen.total_of_right_unique hunique hnow hlast with hforth | hback
  · exact (Steps.eq_of_queue_eq_nil hforth hqueue hsame.symm).symm
  · exact Steps.eq_of_queue_eq_nil hback hnone hsame

/-- What is not interrupted gives back the parses on the board behind the last word. -/
theorem Task.RunsThrough.result_eq {watch : Watch} {limits : Limits} {earlier : List Report}
    (hthrough : task.RunsThrough watch limits earlier) (hsteps : Steps task (start task) last)
    (hend : last.position = task.sentence.length + 1) :
    (task.run watch limits earlier).result = .ok (Parse.rank last.ledger.complete.toList []) := by
  obtain ⟨finished, hfinished, hposition, -, hresult⟩ := hthrough.exists_end
  rw [hresult, Steps.unique_end hfinished hsteps hposition hend]

/-! ## Reports -/

/-- Whether a report is made behind a word of a task, of all its words at most, or behind its
last word. -/
structure Report.Within (task : Task) (report : Report) : Prop where
  length : report.length = task.sentence.length
  position_pos : 0 < report.position
  position_le : report.position ≤ task.sentence.length + 1
  percent : report.percent = percentDone report.position report.length

theorem percentDone_bounds (position length : Nat) :
    1 ≤ percentDone position length ∧ percentDone position length ≤ 100 := by
  unfold percentDone
  generalize position * 100 / length = part
  omega

theorem Task.exists_reports_rounds (task : Task) (bound : Nat) (watch : Watch) (limits : Limits)
    {remaining position : Nat} (hposition : position + remaining = task.sentence.length + 1)
    (ledger : Ledger) (queue : Queue State) (earlier : List Report) :
    ∃ new, (task.rounds bound watch limits remaining position ledger queue earlier).reports =
        earlier ++ new ∧ ∀ report ∈ new, report.Within task := by
  have hnone : ∃ new, earlier = earlier ++ new ∧ ∀ report ∈ new, report.Within task :=
    ⟨[], by simp, by simp⟩
  induction remaining generalizing position ledger queue earlier with
  | zero => exact hnone
  | succ remaining ih =>
      unfold rounds
      split
      · exact hnone
      · split
        · exact hnone
        · exact hnone
        · split
          · exact hnone
          · exact hnone
          · next ledger ahead _ =>
              have hnext : position + 1 + remaining = task.sentence.length + 1 := by omega
              obtain ⟨new, hreports, hnew⟩ := ih hnext ledger ahead
                (earlier ++ [task.report (position + 1) ledger ahead]) ⟨[], by simp, by simp⟩
              have hreport : (task.report (position + 1) ledger ahead).Within task :=
                ⟨rfl, Nat.succ_pos _, by simp only [report]; omega, rfl⟩
              refine ⟨task.report (position + 1) ledger ahead :: new, ?_,
                List.forall_mem_cons.mpr ⟨hreport, hnew⟩⟩
              rw [hreports, List.append_assoc]
              rfl

/-- **A search ends, and stays within its levels.**  Let no loop open tags, and let there be a
word.  Then after a bounded number of steps every level is worked off, and a run that is not
interrupted gives back the parses that are found by then.  On every board up to there each
level that a step reads or writes is one of those laid out, and a state stands on the level of
the words it has used up, so none beyond the last word.  The percentage of a report is a
quotient by the number of words, which is not zero, and lies between 1 and 100. -/
theorem Task.search_ends (task : Task) (hloops : task.grammar.NoOpeningLoop)
    (hsentence : task.sentence ≠ []) :
    (∃ n last, n ≤ task.sentence.length + 2 + keyBound task * (task.grammar.arcs.length + 1) ∧
        Board.Runs task n (Board.start task) last ∧
        (∀ waiting ∈ last.levels, waiting = []) ∧
        ∀ watch limits earlier, task.RunsThrough watch limits earlier →
          (task.run watch limits earlier).result =
            .ok (Parse.rank last.ledger.complete.toList [])) ∧
      (∀ board, Board.Reached task board →
        board.levels.length = task.sentence.length + 2 ∧
        (board.position ≤ task.sentence.length → (board.step? task).isSome = true) ∧
        ∀ level waiting, board.levels[level]? = some waiting → ∀ state ∈ waiting,
          level + state.unread.length = task.sentence.length) ∧
      ∀ watch limits earlier, ∃ new,
        (task.run watch limits earlier).reports = earlier ++ new ∧
          ∀ report ∈ new, report.Within task ∧ report.length ≠ 0 ∧
            1 ≤ report.percent ∧ report.percent ≤ 100 := by
  have hlevel : ∀ {now : Snapshot}, Steps task (start task) now → now.Level task :=
    fun hsteps => StepsIn.keeps hsteps (level_start task) Level.step
  refine ⟨?_, ?_, ?_⟩
  · obtain ⟨n, last, hn, hruns, hsteps, hend⟩ :=
      Snapshot.exists_runs hloops ReflTransGen.refl (Nat.zero_le _)
    rw [remaining_start] at hn
    rw [board_start] at hruns
    refine ⟨n, last.board task, hn, hruns, ?_, fun watch limits earlier hthrough => ?_⟩
    · intro waiting hwaiting
      obtain ⟨level, -, rfl⟩ := List.mem_map.mp hwaiting
      exact (hlevel hsteps).waiting_eq_nil hend level
    · exact hthrough.result_eq hsteps hend
  · intro board hreached
    obtain ⟨now, hsteps, rfl⟩ := hreached.exists_snapshot hloops
    refine ⟨by simp [Snapshot.board, Board.table], fun hposition => ?_, ?_⟩
    · obtain ⟨next, -, hboard, -, -⟩ := hsteps.sound.exists_step? hloops hposition
      rw [hboard]
      rfl
    · intro level waiting hwaiting state hstate
      have hplace : level < task.sentence.length + 2 := by
        obtain ⟨hplace, -⟩ := List.getElem?_eq_some_iff.mp hwaiting
        simpa [Snapshot.board, Board.table] using hplace
      have hsame : now.waiting level = waiting :=
        Option.some.inj ((Board.getElem?_table hplace).symm.trans hwaiting)
      rw [← hsame] at hstate
      exact (hlevel hsteps).of_mem_waiting hstate
  · intro watch limits earlier
    obtain ⟨new, hreports, hnew⟩ := task.exists_reports_rounds (keyBound task) watch limits
      (Nat.zero_add (task.sentence.length + 1)) .empty
      (Queue.empty.pushAll [State.initial task.sentence]) earlier
    refine ⟨new, hreports, fun report hreport => ?_⟩
    have hwithin := hnew report hreport
    have hbounds := percentDone_bounds report.position report.length
    refine ⟨hwithin, ?_, ?_⟩
    · rw [hwithin.length]
      exact fun hzero => hsentence (List.eq_nil_of_length_eq_zero hzero)
    · rw [hwithin.percent]
      exact hbounds

/-- A greeting that is closed as often as one likes. -/
def Grammar.closingLoop : Grammar :=
  Grammar.greeting.addArc 2 2 (Arc.saying Tag.sentenceClose)

theorem Task.search_ends_closingLoop :
    Grammar.closingLoop.NoOpeningLoop ∧ Grammar.closingLoop.Quiet 2 2 ∧
      ∃ n last, Board.Runs { Task.greeting with grammar := .closingLoop } n
        (Board.start { Task.greeting with grammar := .closingLoop }) last := by
  have harcs : ∀ source target arc, (target, arc) ∈ Grammar.closingLoop.transitions source →
      (source, target, arc) ∈ [(0, 1, Arc.saying Tag.sentenceOpen), (1, 2, Arc.saying "hello"),
        (2, 2, Arc.saying Tag.sentenceClose), (2, 3, Arc.saying Tag.sentenceClose)] :=
    fun _ _ _ hleaves => Grammar.mem_arcs.mpr hleaves
  have hclose : (Arc.saying Tag.sentenceClose).label = .closing Tag.sentenceClose "s" := by decide
  have hloops : Grammar.closingLoop.NoOpeningLoop := by
    apply Grammar.noOpeningLoop_of_levels id
    · rintro source target ⟨arc, hleaves, -⟩
      have harc := harcs source target arc hleaves
      simp only [List.mem_cons, List.not_mem_nil, or_false, Prod.mk.injEq] at harc
      simp only [id]
      omega
    · rintro source target ⟨arc, text, name, hleaves, hopens⟩
      have harc := harcs source target arc hleaves
      simp only [List.mem_cons, List.not_mem_nil, or_false, Prod.mk.injEq] at harc
      obtain ⟨rfl, rfl, rfl⟩ | ⟨rfl, rfl, rfl⟩ | ⟨rfl, rfl, rfl⟩ | ⟨rfl, rfl, rfl⟩ := harc
      · decide
      · decide
      · simp [hclose] at hopens
      · simp [hclose] at hopens
  have hquiet : Grammar.closingLoop.Quiet 2 2 :=
    ⟨Arc.saying Tag.sentenceClose, List.mem_cons_self, by simp [hclose]⟩
  obtain ⟨⟨n, last, -, hruns, -⟩, -⟩ :=
    Task.search_ends { Task.greeting with grammar := .closingLoop } hloops (by decide)
  exact ⟨hloops, hquiet, n, last, hruns⟩

end Phraseology
