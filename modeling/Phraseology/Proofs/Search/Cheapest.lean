import Phraseology.Proofs.Search.Exploration
import Phraseology.Proofs.Search.Keys

/-!
# A search finds the cheapest parse

The parses that a task derives are those of its plain runs (`Task.Derives`): no queue,
no keys, no fewest skips.  In a regular task a search that goes to its end gives back
derived parses only, gives back some if there are any, and its first one stands after
none of them (`Task.Regular.cheapest`).

Keys do no harm, since they stand for single states.  Pruning does no harm either: if the
fewest skips of all runs to a terminal node are taken as the bound, then the states that
complete the cheapest parses are never pruned.
-/

namespace Phraseology

open Snapshot

/-! ## What is derived -/

/-- The parses of the plain runs to a terminal node.  Where no word may be skipped, all
words have to be read; otherwise the open tags are closed, and each word that is left
unread counts in both costs. -/
inductive Task.Derives (task : Task) : Parse → Prop
  | allRead {state : State} (reached : task.Reached state)
      (terminal : task.grammar.isTerminal state.node = true)
      (strict : task.policy.allowSkip = false) (read : state.unread = []) :
      Derives task
        { tokens := state.output
          cost := { skips := state.skips, tags := state.tagCost }
          skipped := state.skipped }
  | restSkipped {state : State} (reached : task.Reached state)
      (terminal : task.grammar.isTerminal state.node = true)
      (skipping : task.policy.allowSkip = true) :
      Derives task
        { tokens := state.output ++ state.openTags.map Tag.closingTag
          cost :=
            { skips := state.skips + state.unread.length
              tags := state.tagCost + state.unread.length }
          skipped := state.skipped ++ state.unreadTokens }

variable {task : Task} {state : State} {parse : Parse} {bound : Nat}

theorem Task.derives_iff : task.Derives parse ↔ ∃ state, task.Completes state parse := by
  constructor
  · intro hderives
    cases hderives with
    | @allRead state hreached hterminal hstrict hread =>
        exact ⟨state, hreached, hterminal, by simp [State.complete?, hstrict, hread]⟩
    | @restSkipped state hreached hterminal hskipping =>
        exact ⟨state, hreached, hterminal, by simp [State.complete?, hskipping]⟩
  · rintro ⟨state, hreached, hterminal, hcomplete⟩
    unfold State.complete? at hcomplete
    split at hcomplete
    · next hskipping =>
        obtain rfl := Option.some.inj hcomplete
        exact .restSkipped hreached hterminal hskipping
    · next hstrict =>
        split at hcomplete
        · next hread =>
            obtain rfl := Option.some.inj hcomplete
            exact .allRead hreached hterminal (by simpa using hstrict) (List.isEmpty_iff.mp hread)
        · simp at hcomplete

/-! ## The result of a search -/

/-- As keys stand for single states, they tell how to go on. -/
theorem Task.Regular.keysDecide (hregular : task.Regular) (bound : Nat) : task.KeysDecide bound where
  moves := by
    intro state other next hreached hother hkey hmove hskips
    obtain rfl := hreached.eq_of_key_eq hother hregular hkey
    exact ⟨next, hmove, hskips, rfl⟩
  complete := by
    intro state other parse hreached hkey hparse
    obtain rfl := hreached.eq_of_key_eq hparse.1 hregular hkey
    exact hparse

/-- The parses of the states with few skips are complete at the end of a search. -/
theorem Task.Regular.mem_complete {last : Snapshot} (hregular : task.Regular)
    (hbound : task.BoundsSkips bound) (hsteps : Steps task (start task) last)
    (hposition : last.position = task.sentence.length + 1) (hahead : last.ahead = [])
    (hparse : task.Completes state parse) (hskips : state.skips ≤ bound) :
    parse ∈ last.ledger.complete.toList :=
  hsteps.mem_complete hregular.noOpeningLoop hbound (hregular.keysDecide bound) hposition hahead
    hparse hskips

/-- Some complete parse has the fewest skips of all. -/
theorem Task.exists_fewest (hparse : task.Completes state parse) :
    ∃ first best, task.Completes first best ∧
      ∀ other found, task.Completes other found → best.cost.skips ≤ found.cost.skips := by
  induction hskips : parse.cost.skips using Nat.strongRecOn generalizing state parse with
  | _ skips ih =>
      by_cases hless : ∃ other found, task.Completes other found ∧ found.cost.skips < skips
      · obtain ⟨other, found, hfound, hlt⟩ := hless
        exact ih found.cost.skips hlt hfound rfl
      · refine ⟨state, parse, hparse, fun other found hfound => ?_⟩
        by_contra hlt
        exact hless ⟨other, found, hfound, by omega⟩

/-- At the end of a search each derived parse stands behind one that was found. -/
theorem Task.Regular.exists_complete_notAfter {last : Snapshot} (hregular : task.Regular)
    (hsteps : Steps task (start task) last)
    (hposition : last.position = task.sentence.length + 1) (hahead : last.ahead = [])
    (hparse : task.Completes state parse) :
    ∃ found ∈ last.ledger.complete.toList, found.notAfter parse = true := by
  by_cases hskip : task.policy.allowSkip = true
  · -- the bound is the fewest skips of all, and is met by `best`
    obtain ⟨first, best, hbest, hfewest⟩ := Task.exists_fewest hparse
    have hcost : ∀ {other : State} {found : Parse}, task.Completes other found →
        found.cost.skips = other.skips + other.unread.length := by
      intro other found hfound
      rw [hfound.skips_eq.2, hfound.1.skips_eq]
    have hbound : task.BoundsSkips best.cost.skips := by
      intro other hother hterminal
      have hcomplete : other.complete? task.policy = some _ := if_pos hskip
      have hderived : task.Completes other _ := ⟨hother, hterminal, hcomplete⟩
      rw [← hcost hderived]
      exact hfewest other _ hderived
    have hfirst : first.skips ≤ best.cost.skips := by
      rw [hcost hbest]
      exact Nat.le_add_right ..
    by_cases hsame : parse.cost.skips = best.cost.skips
    · -- a parse with as few skips has been found itself
      have hstate : state.skips ≤ best.cost.skips := by
        rw [← hsame, hcost hparse]
        exact Nat.le_add_right ..
      exact ⟨parse, hregular.mem_complete hbound hsteps hposition hahead hparse hstate,
        Parse.notAfter_refl parse⟩
    · -- any other one has more skips than `best`
      have hless := hfewest state parse hparse
      exact ⟨best, hregular.mem_complete hbound hsteps hposition hahead hbest hfirst,
        Parse.notAfter_of_skips_lt (by omega)⟩
  · -- without skips the bound is zero, and all states are worked off
    have hnone : state.skips = 0 :=
      hparse.1.skips_eq_zero_of_strict (by simpa using hskip)
    have hbound : task.BoundsSkips 0 := fun _ _ _ => Nat.zero_le _
    exact ⟨parse, hregular.mem_complete hbound hsteps hposition hahead hparse (by omega),
      Parse.notAfter_refl parse⟩

/-- The first parse that a search gives back stands behind no derived one. -/
theorem Task.RunsThrough.exists_best {watch : Watch} {limits : Limits} {earlier : List Report}
    {parses : List Parse} (hthrough : task.RunsThrough watch limits earlier)
    (hregular : task.Regular) (hrun : (task.run watch limits earlier).result = .ok parses)
    (hparse : task.Completes state parse) :
    ∃ best ∈ parses.head?, best.notAfter parse = true := by
  obtain ⟨last, hsteps, hposition, hahead, hresult⟩ := hthrough.exists_end
  obtain rfl := Except.ok.inj (hresult.symm.trans hrun)
  obtain ⟨found, hfound, hbehind⟩ :=
    hregular.exists_complete_notAfter hsteps hposition hahead hparse
  obtain ⟨best, rest, hrank, hbest⟩ := Parse.exists_best_of_mem hfound
  rw [hrank]
  exact ⟨best, rfl, Parse.notAfter_trans hbest hbehind⟩

/-- **A search finds the cheapest parse.**  A search in a regular task that is not
interrupted gives back parses of plain runs only, and if there are any, then the first
one that it gives back costs least: it stands after no other one in the order of skips,
tags and tokens. -/
theorem Task.Regular.cheapest (hregular : task.Regular) {watch : Watch} {limits : Limits}
    {earlier : List Report} (hthrough : task.RunsThrough watch limits earlier) :
    ∃ parses, (task.run watch limits earlier).result = .ok parses ∧
      (∀ parse ∈ parses, task.Derives parse) ∧
      ∀ parse, task.Derives parse → ∃ best rest, parses = best :: rest ∧
        (best.cost.skips < parse.cost.skips ∨
          best.cost.skips = parse.cost.skips ∧ best.cost.tags ≤ parse.cost.tags) ∧
        best.notAfter parse = true := by
  have hending := Task.run_ending task watch limits earlier
  unfold Task.RunsThrough at hthrough
  generalize task.run watch limits earlier = outcome at hthrough hending ⊢
  cases hending with
  | failed _ hfew => exact absurd hthrough (Nat.ne_of_lt hfew)
  | interrupted _ _ hfew => exact absurd hthrough (Nat.ne_of_lt hfew)
  | @finished last reports hsteps hposition hahead _ =>
      refine ⟨_, rfl, ?_, ?_⟩
      · intro parse hparse
        rcases Parse.mem_of_mem_rank hparse with hcomplete | hnone
        · exact Task.derives_iff.mpr (hsteps.sound.complete parse hcomplete)
        · exact absurd hnone (by simp)
      · intro parse hderives
        obtain ⟨state, hparse⟩ := Task.derives_iff.mp hderives
        obtain ⟨found, hfound, hbehind⟩ :=
          hregular.exists_complete_notAfter hsteps hposition hahead hparse
        obtain ⟨best, rest, hrank, hbest⟩ := Parse.exists_best_of_mem hfound
        have hfirst := Parse.notAfter_trans hbest hbehind
        exact ⟨best, rest, hrank, Parse.cost_le_of_notAfter hfirst, hfirst⟩

theorem Task.cheapest_greeting :
    Task.greeting.Regular ∧ Task.greeting.RunsThrough {} ⟨none, none⟩ [] ∧
      ∃ best rest, (Task.greeting.run {} ⟨none, none⟩ []).result = .ok (best :: rest) ∧
        best.cost = { skips := 0, tags := 0 } := by
  have hthrough : Task.greeting.RunsThrough {} ⟨none, none⟩ [] :=
    Task.runsThrough_of_calm (fun _ => rfl) fun _ => rfl
  have hgreeted : Task.greeting.Derives _ :=
    .allRead Task.reached_greeted (by decide) rfl rfl
  obtain ⟨parses, hresult, -, hleast⟩ := Task.Regular.cheapest Task.regular_greeting hthrough
  obtain ⟨best, rest, rfl, hcost, -⟩ := hleast _ hgreeted
  refine ⟨Task.regular_greeting, hthrough, best, rest, hresult, ?_⟩
  obtain ⟨tokens, ⟨skips, tags⟩, skipped⟩ := best
  simp only [State.greeted] at hcost
  have hzero : skips = 0 ∧ tags = 0 := by omega
  rw [hzero.1, hzero.2]

end Phraseology
