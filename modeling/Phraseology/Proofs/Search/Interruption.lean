import Phraseology.Proofs.Search.Evaluation
import Phraseology.Proofs.Search.Exploration
import Phraseology.Proofs.Search.Split

/-!
# An interrupted search keeps its word

A search that is interrupted closes by force what is still pending.  The report after a word
promises the best of what this would give, so a search that is cancelled by a report gives
back the parse which the report promised.  Two things have to be seen for this:

* up to the report the search does what it would have done without a flag
  (`exists_drain_eq_done`), and the report is about just the states that are pending when
  the flag is looked at (`Task.rounds_cancelled`);
* behind the last report the flag is not looked at any more, but then no state is pending
  (`Snapshot.Level.queue_eq_nil`), and the report spoke of complete parses only.

Wherever a search is interrupted, its first parse has no more skips than anything that it
had found or left pending (`Snapshot.keepsWord`).
-/

namespace Phraseology

open Relation Snapshot

/-- A watch that never raises a flag, with the same clock. -/
def Watch.unflagged (watch : Watch) : Watch :=
  { watch with cancelled? := none }

/-- Whether a flag is raised first by the report at a place among those behind earlier ones. -/
def Watch.RaisedBy (watch : Watch) (earlier reports : List Report) (place : Nat) : Prop :=
  (∀ before < place, watch.isCancelled (earlier ++ reports.take before) = false) ∧
    watch.isCancelled (earlier ++ reports.take place) = true

variable {task : Task} {watch other : Watch} {limits : Limits}

/-! ## Any interruption -/

/-- What the parses that are given back for a snapshot owe to the complete parses and to the
pending states in it. -/
structure Snapshot.KeepsWord (snapshot : Snapshot) (parses : List Parse) : Prop where
  nonempty : snapshot.ledger.complete.toList ≠ [] ∨ snapshot.queue ++ snapshot.ahead ≠ [] →
    parses ≠ []
  complete : ∀ best ∈ parses.head?, ∀ parse ∈ snapshot.ledger.complete.toList,
    best.cost.skips ≤ parse.cost.skips
  pending : ∀ best ∈ parses.head?, ∀ state ∈ snapshot.queue ++ snapshot.ahead,
    best.cost.skips ≤ state.skips + state.unread.length

/-- Where a search is interrupted, no more words are skipped than is owed. -/
theorem Snapshot.keepsWord (snapshot : Snapshot) :
    snapshot.KeepsWord (Task.interrupted snapshot.ledger (snapshot.queue ++ snapshot.ahead)) := by
  have hforced : ∀ state ∈ snapshot.queue ++ snapshot.ahead,
      state.forceClose ∈ (snapshot.queue ++ snapshot.ahead).map State.forceClose :=
    fun state hstate => List.mem_map_of_mem hstate
  unfold Task.interrupted
  by_cases hsome : snapshot.ledger.complete.toList ≠ [] ∨ snapshot.queue ++ snapshot.ahead ≠ []
  · obtain ⟨best, rest, hrank, hcomplete, hpending⟩ :=
      Parse.exists_best_of_rank
        (hsome.imp_right fun hstates hnone => hstates (List.map_eq_nil_iff.mp hnone))
    rw [hrank]
    refine ⟨fun _ => List.cons_ne_nil _ _, ?_, ?_⟩
    · intro first hfirst
      obtain rfl := Option.some.inj hfirst
      exact hcomplete
    · intro first hfirst state hstate
      obtain rfl := Option.some.inj hfirst
      rw [← state.skips_forceClose]
      exact hpending _ (hforced state hstate)
  · obtain ⟨hnone, hnothing⟩ := not_or.mp hsome
    rw [not_not] at hnone hnothing
    refine ⟨fun h => absurd h hsome, fun _ _ parse hparse => ?_, fun _ _ state hstate => ?_⟩
    · rw [hnone] at hparse
      cases hparse
    · rw [hnothing] at hstate
      cases hstate

/-! ## Up to a report -/

/-- With time left, a round ends in the same way whoever watches it. -/
theorem Task.exists_drain_eq_done
    (htime : ∀ look, watch.verdict limits task.phase look = .goOn)
    (hother : ∀ look, other.verdict limits task.phase look = .goOn)
    (position : Nat) (ledger : Ledger) (queue : Queue State) :
    ∃ ledger' ahead,
      task.drain (keyBound task) watch limits position ledger queue .empty =
        .done ledger' ahead ∧
      task.drain (keyBound task) other limits position ledger queue .empty =
        .done ledger' ahead := by
  obtain ⟨fuel, ledger', ahead, hdrain⟩ := task.exists_drainWithin ledger queue .empty
  exact ⟨ledger', ahead, drain_of_drainWithin htime hdrain, drain_of_drainWithin hother hdrain⟩

/-- A watch that leaves its flag alone has as much time left. -/
theorem Watch.verdict_unflagged {phase : Phase} {look : Nat}
    (htime : watch.verdict limits phase look = .goOn) :
    watch.unflagged.verdict limits phase look = .goOn := by
  have hclock : watch.unflagged.elapsed = watch.elapsed := rfl
  simp only [Watch.verdict] at htime ⊢
  rw [hclock]
  cases hhard : limits.hard with
  | none =>
      rw [hhard] at htime
      exact htime
  | some limit =>
      rw [hhard] at htime
      simp only at htime ⊢
      by_cases hover : limit ≤ watch.elapsed phase look
      · rw [if_pos hover] at htime
        split at htime <;> cases htime
      · rw [if_neg hover] at htime ⊢
        exact htime

/-- The reports of the remaining rounds if no flag is raised. -/
def Task.reportsFrom (task : Task) (watch : Watch) (limits : Limits) (remaining position : Nat)
    (ledger : Ledger) (queue : Queue State) : List Report :=
  (task.rounds (keyBound task) watch.unflagged limits remaining position ledger queue []).reports

/-- Without a flag, reports are only added to earlier ones. -/
theorem Task.reports_rounds_append (hflag : ∀ reports, watch.isCancelled reports = false)
    (bound remaining position : Nat) (ledger : Ledger) (queue : Queue State)
    (earlier later : List Report) :
    (task.rounds bound watch limits remaining position ledger queue (earlier ++ later)).reports =
      earlier ++
        (task.rounds bound watch limits remaining position ledger queue later).reports := by
  induction remaining generalizing position ledger queue later with
  | zero => rfl
  | succ remaining ih =>
      unfold Task.rounds
      rw [if_neg (by simp [hflag]), if_neg (by simp [hflag])]
      split
      · rfl
      · rfl
      · split
        · rfl
        · rfl
        · rw [List.append_assoc]
          exact ih ..

/-- With time left, there is a report after each round. -/
theorem Task.reportsFrom_succ (htime : ∀ look, watch.verdict limits task.phase look = .goOn)
    {remaining position : Nat} {ledger ledger' : Ledger} {queue ahead : Queue State}
    (hdrain : task.drain (keyBound task) watch.unflagged limits position ledger queue .empty =
      .done ledger' ahead) :
    task.reportsFrom watch limits (remaining + 1) position ledger queue =
      task.report (position + 1) ledger' ahead ::
        task.reportsFrom watch limits remaining (position + 1) ledger' ahead := by
  have hflag : ∀ reports, watch.unflagged.isCancelled reports = false := fun _ => rfl
  have hcalm : ∀ look, watch.unflagged.verdict limits task.phase look = .goOn :=
    fun look => Watch.verdict_unflagged (htime look)
  rw [reportsFrom, rounds_of_drain_eq_done hcalm (hflag _) hdrain, List.nil_append,
    ← List.append_nil [task.report (position + 1) ledger' ahead], reports_rounds_append hflag]
  rfl

/-- How the remaining rounds end if the flag is raised by the last of some reports: what was
pending at this report is closed by force, unless there are no more rounds. -/
def Task.CancelledBy (task : Task) (first : Snapshot) (remaining : Nat)
    (earlier reports : List Report) (outcome : Outcome (List Parse)) : Prop :=
  ∃ (ledger : Ledger) (ahead : Queue State),
    Steps task first ⟨first.position + reports.length, ledger, ahead.toList, []⟩ ∧
    reports.getLast? = some (task.report (first.position + reports.length) ledger ahead) ∧
    outcome.reports = earlier ++ reports ∧
    (outcome.result = .ok (interrupted ledger ahead.toList) ∨
      reports.length = remaining ∧ outcome.result = .ok (Parse.rank ledger.complete.toList []))

/-- Where the flag is raised when a round begins, the search ends, unless it was over. -/
theorem Task.rounds_of_isCancelled (task : Task) (limits : Limits) {reports : List Report}
    (hcancelled : watch.isCancelled reports = true) (bound remaining position : Nat)
    (ledger : Ledger) (queue : Queue State) :
    (task.rounds bound watch limits remaining position ledger queue reports).reports = reports ∧
      ((task.rounds bound watch limits remaining position ledger queue reports).result =
          .ok (interrupted ledger queue.toList) ∨
        remaining = 0 ∧
          (task.rounds bound watch limits remaining position ledger queue reports).result =
            .ok (Parse.rank ledger.complete.toList [])) := by
  cases remaining with
  | zero => exact ⟨rfl, .inr ⟨rfl, rfl⟩⟩
  | succ remaining =>
      rw [rounds, if_pos hcancelled]
      exact ⟨rfl, .inl rfl⟩

/-- A search of which some report raises the flag ends there. -/
theorem Task.rounds_cancelled (htime : ∀ look, watch.verdict limits task.phase look = .goOn)
    {remaining position place : Nat} {ledger : Ledger} {queue : Queue State}
    {earlier : List Report} (hfirst : 1 ≤ place) (hlast : place ≤ remaining)
    (hraised : watch.RaisedBy earlier
      (task.reportsFrom watch limits remaining position ledger queue) place) :
    ((task.reportsFrom watch limits remaining position ledger queue).take place).length = place ∧
    task.CancelledBy ⟨position, ledger, queue.toList, []⟩ remaining earlier
      ((task.reportsFrom watch limits remaining position ledger queue).take place)
      (task.rounds (keyBound task) watch limits remaining position ledger queue earlier) := by
  have hcalm : ∀ look, watch.unflagged.verdict limits task.phase look = .goOn :=
    fun look => Watch.verdict_unflagged (htime look)
  induction remaining generalizing position place ledger queue earlier with
  | zero => omega
  | succ remaining ih =>
      obtain ⟨ledger', ahead, hdrain, hother⟩ :=
        exists_drain_eq_done htime hcalm position ledger queue
      have hround : Steps task ⟨position, ledger, queue.toList, []⟩
          ⟨position + 1, ledger', ahead.toList, []⟩ := by
        have hfollows := drain_follows task watch limits position ledger queue .empty
        rw [hdrain] at hfollows
        exact ReflTransGen.tail hfollows .turn
      rw [reportsFrom_succ htime hother] at hraised ⊢
      obtain ⟨hbefore, hthen⟩ := hraised
      -- the flag is not raised yet when the round begins
      have hnotyet : watch.isCancelled earlier = false := by
        have hnone := hbefore 0 (by omega)
        rwa [List.take_zero, List.append_nil] at hnone
      rw [rounds_of_drain_eq_done htime hnotyet hdrain]
      obtain ⟨later, rfl⟩ : ∃ later, place = later + 1 := ⟨place - 1, by omega⟩
      rw [List.take_succ_cons]
      cases later with
      | zero =>
          -- this report raises it
          rw [List.take_succ_cons, List.take_zero] at hthen
          obtain ⟨hreports, hresult⟩ := task.rounds_of_isCancelled limits hthen (keyBound task)
            remaining (position + 1) ledger' ahead
          refine ⟨rfl, ledger', ahead, hround, rfl, hreports, ?_⟩
          exact hresult.imp_right fun ⟨hnone, hrank⟩ => ⟨by simp [hnone], hrank⟩
      | succ later =>
          -- a later report does
          have hlater : watch.RaisedBy (earlier ++ [task.report (position + 1) ledger' ahead])
              (task.reportsFrom watch limits remaining (position + 1) ledger' ahead)
              (later + 1) := by
            refine ⟨fun before hlt => ?_, ?_⟩
            · have hnone := hbefore (before + 1) (by omega)
              rwa [List.take_succ_cons, List.append_cons] at hnone
            · rwa [List.take_succ_cons, List.append_cons] at hthen
          obtain ⟨hlength, last, pending, hsteps, hreport, hreports, hresult⟩ :=
            ih (by omega) (by omega) hlater
          have hplace : position + 1 + (later + 1) = position + (later + 1 + 1) := by omega
          rw [hlength, hplace] at hsteps hreport
          rw [List.append_assoc, List.singleton_append] at hreports
          refine ⟨by rw [List.length_cons, hlength], last, pending, ?_⟩
          rw [List.length_cons, hlength]
          refine ⟨hround.trans hsteps, by rw [List.getLast?_cons, hreport]; rfl, hreports, ?_⟩
          exact hresult.imp_right fun ⟨hall, hrank⟩ => ⟨by omega, hrank⟩

/-! ## The promise -/

/-- A search that is cancelled by a report gives back what the report promised. -/
theorem Task.run_cancelled (htime : ∀ look, watch.verdict limits task.phase look = .goOn)
    {earlier : List Report} {place : Nat} (hfirst : 1 ≤ place)
    (hlast : place ≤ task.sentence.length + 1)
    (hraised : watch.RaisedBy earlier (task.run watch.unflagged limits []).reports place) :
    (task.run watch limits earlier).reports =
        earlier ++ (task.run watch.unflagged limits []).reports.take place ∧
      ∃ report parses, (task.run watch limits earlier).reports.getLast? = some report ∧
        report.position = place ∧ (task.run watch limits earlier).result = .ok parses ∧
        parses.head? = report.best := by
  obtain ⟨hlength, ledger, ahead, hsteps, hreport, hreports, hresult⟩ :=
    rounds_cancelled htime hfirst hlast hraised
  have hstart : Steps task (start task)
      ⟨0 + place, ledger, ahead.toList, []⟩ := by
    rw [hlength] at hsteps
    exact hsteps
  rw [hlength] at hreport hresult
  refine ⟨hreports, task.report (0 + place) ledger ahead, interrupted ledger ahead.toList, ?_,
    Nat.zero_add place, ?_, rfl⟩
  · have hjoined : (task.run watch limits earlier).reports = earlier ++ _ := hreports
    rw [hjoined, List.getLast?_append, hreport]
    rfl
  · rcases hresult with hpending | ⟨hall, hrank⟩
    · exact hpending
    · -- behind the last word nothing is pending any more
      have hlevel := StepsIn.keeps hstart (level_start task) Level.step
      have hnone : ahead.toList = [] :=
        hlevel.queue_eq_nil (by rw [hall, Nat.zero_add])
      rw [interrupted, hnone]
      exact hrank

/-- **An interrupted search keeps its word.**  If the flag is raised first by the report of a
position, and the time is never over, then the search ends with this report, and the parses
that it gives back start with the one which the report carried as the best; there are none if
the report carried none.  Wherever else a search is interrupted, however many keys it has room
for, it gives back some parse if it had found one or some state was pending at the position or
the next, and the first parse has no more skips than any that was found, and than the skips and
the unread words of any pending state. -/
theorem Task.keeps_word (task : Task) (earlier : List Report) :
    (∀ (watch : Watch) (limits : Limits) (place : Nat),
      (∀ look, watch.verdict limits task.phase look = .goOn) →
      1 ≤ place → place ≤ task.sentence.length + 1 →
      watch.RaisedBy earlier (task.run watch.unflagged limits []).reports place →
      (task.run watch limits earlier).reports =
          earlier ++ (task.run watch.unflagged limits []).reports.take place ∧
        ∃ report parses, (task.run watch limits earlier).reports.getLast? = some report ∧
          report.position = place ∧ (task.run watch limits earlier).result = .ok parses ∧
          parses.head? = report.best ∧ (parses = [] ↔ report.best = none)) ∧
    (∀ Room last, StepsIn Room task (start task) last → last.Level task ∧
      last.KeepsWord (interrupted last.ledger (last.queue ++ last.ahead))) ∧
    ∀ (watch : Watch) (limits : Limits) (parses : List Parse),
      (task.run watch limits earlier).result = .ok parses →
      (task.run watch limits earlier).reports.length < earlier.length + (task.sentence.length + 1) →
      ∃ last, Steps task (start task) last ∧
        parses = interrupted last.ledger (last.queue ++ last.ahead) := by
  refine ⟨?promise, ?anywhere, ?interrupted⟩
  case promise =>
    intro watch limits place htime hfirst hlast hraised
    obtain ⟨hreports, report, parses, hreport, hplace, hresult, hbest⟩ :=
      run_cancelled htime hfirst hlast hraised
    refine ⟨hreports, report, parses, hreport, hplace, hresult, hbest, ?_⟩
    rw [← hbest, List.head?_eq_none_iff]
  case anywhere =>
    intro Room last hsteps
    exact ⟨StepsIn.keeps hsteps (level_start task) Level.step, last.keepsWord⟩
  case interrupted =>
    intro watch limits parses hresult hfew
    have hending := run_ending task watch limits earlier
    generalize task.run watch limits earlier = outcome at hresult hfew hending
    cases hending with
    | finished _ _ _ hall => exact absurd hfew (by rw [hall]; omega)
    | @interrupted last reports hsteps _ _ => exact ⟨last, hsteps, (Except.ok.inj hresult).symm⟩
    | failed _ _ => cases hresult

/-- A watch that raises the flag at the first report. -/
def Watch.hasty : Watch where
  cancelled? := some fun reports => !reports.isEmpty

theorem Task.keeps_word_greeting :
    ∃ report parses last, (Task.greeting.run .hasty ⟨none, none⟩ []).reports = [report] ∧
      report.position = 1 ∧
      (Task.greeting.run .hasty ⟨none, none⟩ []).result = .ok parses ∧
      parses.head? = report.best ∧ Steps .greeting (start .greeting) last ∧
      last.KeepsWord parses := by
  have htime : ∀ look, Watch.hasty.verdict ⟨none, none⟩ Task.greeting.phase look = .goOn :=
    fun _ => rfl
  obtain ⟨first, later, hcalm⟩ : ∃ first later,
      (Task.greeting.run Watch.hasty.unflagged ⟨none, none⟩ []).reports = first :: later := by
    have hall : Task.greeting.RunsThrough Watch.hasty.unflagged ⟨none, none⟩ [] :=
      runsThrough_of_calm (fun _ => rfl) fun _ => rfl
    exact List.exists_cons_of_length_pos (by rw [hall]; decide)
  have hraised : Watch.hasty.RaisedBy []
      (Task.greeting.run Watch.hasty.unflagged ⟨none, none⟩ []).reports 1 := by
    rw [hcalm]
    refine ⟨fun before hbefore => ?_, rfl⟩
    obtain rfl : before = 0 := by omega
    rfl
  obtain ⟨hpromise, hanywhere, hinterrupted⟩ := Task.keeps_word .greeting []
  obtain ⟨hreports, report, parses, hlast, hplace, hresult, hbest, -⟩ :=
    hpromise .hasty ⟨none, none⟩ 1 htime (by decide) (by decide) hraised
  have hone : (Task.greeting.run .hasty ⟨none, none⟩ []).reports = [first] := by
    rw [hreports, hcalm]
    rfl
  have hfew : (Task.greeting.run .hasty ⟨none, none⟩ []).reports.length <
      ([] : List Report).length + (Task.greeting.sentence.length + 1) := by
    rw [hone, List.length_singleton]
    decide
  obtain ⟨last, hsteps, hparses⟩ := hinterrupted .hasty ⟨none, none⟩ parses hresult hfew
  rw [hone] at hlast
  obtain rfl := Option.some.inj hlast
  exact ⟨first, parses, last, hone, hplace, hresult, hbest, hsteps,
    hparses ▸ (hanywhere _ last hsteps).2⟩

end Phraseology
