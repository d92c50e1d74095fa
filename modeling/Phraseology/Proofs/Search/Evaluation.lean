import Phraseology.Search.Run

/-!
# Searches on concrete sentences

`Task.drain` goes on as long as there is a state left, which no evaluation by the
definitions can follow.  `Task.ledgerWithin` does the same work within a number of
states that is given in advance, so that the result of a search for a concrete sentence
can be computed (`Task.result_of_ledgerWithin`).  Some such number is always large enough
(`Task.exists_drainWithin`).
-/

namespace Phraseology.Task

/-- The round of a search that nobody interrupts, if it takes fewer states than `fuel`. -/
def drainWithin (task : Task) : Nat → Ledger → Queue State → Queue State →
    Option (Ledger × Queue State)
  | 0, _, _, _ => none
  | fuel + 1, ledger, queue, ahead =>
    match queue.pop? with
    | none => some (ledger, ahead)
    | some (state, rest) =>
      if ledger.passesOver state then drainWithin task fuel ledger.count rest ahead
      else if ledger.seen.size < keyBound task then
        drainWithin task fuel (task.enter ledger.count state)
          (rest.pushAll (task.successors state).1) (ahead.pushAll (task.successors state).2)
      else some (ledger, ahead)

/-- The ledger at the end of the remaining rounds. -/
def ledgerFrom (task : Task) (fuel : Nat) : Nat → Ledger → Queue State → Option Ledger
  | 0, ledger, _ => some ledger
  | remaining + 1, ledger, queue =>
    (task.drainWithin fuel ledger queue .empty).bind fun (ledger, ahead) =>
      ledgerFrom task fuel remaining ledger ahead

/-- The ledger at the end of a search that nobody interrupts, if each of its rounds
takes fewer states than `fuel`. -/
def ledgerWithin (task : Task) (fuel : Nat) : Option Ledger :=
  task.ledgerFrom fuel (task.sentence.length + 1) .empty
    (Queue.empty.pushAll [State.initial task.sentence])

variable {task : Task} {watch : Watch} {limits : Limits} {fuel : Nat}

theorem verdictAfter_eq_goOn (htime : ∀ look, watch.verdict limits task.phase look = .goOn)
    (position : Nat) (ledger : Ledger) :
    task.verdictAfter watch limits position ledger = .goOn := by
  unfold verdictAfter
  split
  · exact htime _
  · rfl

theorem drain_of_drainWithin {position : Nat} {ledger ledger' : Ledger}
    {queue ahead ahead' : Queue State}
    (htime : ∀ look, watch.verdict limits task.phase look = .goOn)
    (hdrain : task.drainWithin fuel ledger queue ahead = some (ledger', ahead')) :
    task.drain (keyBound task) watch limits position ledger queue ahead = .done ledger' ahead' := by
  have hgo := verdictAfter_eq_goOn htime position
  induction fuel generalizing ledger queue ahead with
  | zero => exact absurd hdrain (by simp [drainWithin])
  | succ fuel ih =>
      unfold drainWithin at hdrain
      unfold drain
      split
      · next hpop =>
          rw [hpop] at hdrain
          obtain ⟨rfl, rfl⟩ := Prod.mk.inj (Option.some.inj hdrain)
          rfl
      · next state rest hpop =>
          rw [hpop] at hdrain
          simp only at hdrain
          by_cases hpass : ledger.passesOver state = true
          · rw [if_pos hpass] at hdrain
            simp only [hpass, hgo, dif_pos]
            exact ih hdrain
          · rw [if_neg hpass] at hdrain
            by_cases hroom : ledger.seen.size < keyBound task
            · rw [if_pos hroom] at hdrain
              simp only [hpass, hroom, hgo, dif_pos]
              exact ih hdrain
            · rw [if_neg hroom] at hdrain
              obtain ⟨rfl, rfl⟩ := Prod.mk.inj (Option.some.inj hdrain)
              simp only [hpass, hroom]
              rfl

/-- A round that nobody interrupts takes only so many states. -/
theorem exists_drainWithin (task : Task) (ledger : Ledger) (queue ahead : Queue State) :
    ∃ fuel ledger' ahead', task.drainWithin fuel ledger queue ahead = some (ledger', ahead') := by
  have hgo : ∀ ledger, task.verdictAfter {} ⟨none, none⟩ 0 ledger = .goOn :=
    verdictAfter_eq_goOn (fun _ => rfl) 0
  fun_induction Task.drain task (keyBound task) {} ⟨none, none⟩ 0 ledger queue ahead with
  | case1 ledger queue ahead hpop => exact ⟨1, ledger, ahead, by simp [drainWithin, hpop]⟩
  | case2 ledger queue ahead state rest hpop _ hpass limit hverdict => simp [hgo] at hverdict
  | case3 ledger queue ahead state rest hpop _ hpass hverdict => simp [hgo] at hverdict
  | case4 ledger queue ahead state rest hpop _ hpass hverdict ih =>
      obtain ⟨fuel, ledger', ahead', hrest⟩ := ih
      exact ⟨fuel + 1, ledger', ahead', by simp [drainWithin, hpop, hpass, hrest]⟩
  | case5 ledger queue ahead state rest hpop _ hpass hroom entered limit hverdict =>
      simp [hgo] at hverdict
  | case6 ledger queue ahead state rest hpop _ hpass hroom entered queue' ahead' hverdict =>
      simp [hgo] at hverdict
  | case7 ledger queue ahead state rest hpop _ hpass hroom entered queue' ahead' hverdict _ ih =>
      obtain ⟨fuel, ledger', ahead', hrest⟩ := ih
      exact ⟨fuel + 1, ledger', ahead', by simpa [drainWithin, hpop, hpass, hroom] using hrest⟩
  | case8 ledger queue ahead state rest hpop _ hpass hfull =>
      exact ⟨1, ledger, ahead, by simp [drainWithin, hpop, hpass, hfull]⟩

/-- With time left and no flag raised, a round leads to a report and to the next round. -/
theorem rounds_of_drain_eq_done
    (htime : ∀ look, watch.verdict limits task.phase look = .goOn) {bound remaining position : Nat}
    {ledger ledger' : Ledger} {queue ahead : Queue State} {earlier : List Report}
    (hflag : watch.isCancelled earlier = false)
    (hdrain : task.drain bound watch limits position ledger queue .empty = .done ledger' ahead) :
    task.rounds bound watch limits (remaining + 1) position ledger queue earlier =
      task.rounds bound watch limits remaining (position + 1) ledger' ahead
        (earlier ++ [task.report (position + 1) ledger' ahead]) := by
  rw [rounds, if_neg (by simp [hflag]), htime]
  simp only [hdrain]

theorem result_of_ledgerFrom {remaining position : Nat} {ledger last : Ledger}
    {queue : Queue State} {reports : List Report}
    (hflag : ∀ reports, watch.isCancelled reports = false)
    (htime : ∀ look, watch.verdict limits task.phase look = .goOn)
    (hlast : task.ledgerFrom fuel remaining ledger queue = some last) :
    (task.rounds (keyBound task) watch limits remaining position ledger queue reports).result =
      .ok (Parse.rank last.complete.toList []) := by
  induction remaining generalizing position ledger queue reports with
  | zero =>
      obtain rfl := Option.some.inj hlast
      rfl
  | succ remaining ih =>
      obtain ⟨⟨next, ahead⟩, hdrain, hlater⟩ := Option.bind_eq_some_iff.mp hlast
      rw [rounds_of_drain_eq_done htime (hflag _) (drain_of_drainWithin htime hdrain)]
      exact ih hlater

/-- A search that nobody interrupts gives back the complete parses in its last ledger. -/
theorem result_of_ledgerWithin (watch : Watch) (limits : Limits) (earlier : List Report)
    {last : Ledger}
    (hflag : ∀ reports, watch.isCancelled reports = false)
    (htime : ∀ look, watch.verdict limits task.phase look = .goOn)
    (hlast : task.ledgerWithin fuel = some last) :
    (task.run watch limits earlier).result = .ok (Parse.rank last.complete.toList []) :=
  result_of_ledgerFrom hflag htime hlast

end Phraseology.Task
