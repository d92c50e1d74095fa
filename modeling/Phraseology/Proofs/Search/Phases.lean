import Phraseology.Proofs.Search.Alike
import Phraseology.Proofs.Search.Exploration

/-!
# The two phases agree on what costs no skip

`Task.withoutSkips` is the search over the same sentence in which nothing but noise may be
skipped.  It reaches the states that the search itself reaches without a skip
(`Task.reached_withoutSkips_iff`), and completes the same parses from them, but for the
closing tags of what is left open (`Task.Completes.exists_strict`,
`Task.Completes.exists_skipping`).

That both searches find these parses does not need `Task.Regular`.  A key may stand for two
states here, but the states are alike, and a move without skips from one of them can be
made from the other (`Task.keysDecide_zero`).  Which of the two is worked off first does not
matter then.  `Task.agrees_withoutSkips` compares the first parses of both searches.
-/

namespace Phraseology

open Snapshot

/-! ## Parses of the two phases -/

/-- Two parses cost the same, and have the same tokens if no tag was left open. -/
structure Parse.Agrees (first second : Parse) : Prop where
  cost : first.cost = second.cost
  tokens : second.cost.tags = 0 → first.tokens = second.tokens

/-- Two parses agree if neither stands behind what agrees with the other. -/
theorem Parse.agrees_of_notAfter {first first' second second' : Parse}
    (hfirst : first.notAfter second' = true) (hsecond' : second'.Agrees second)
    (hsecond : second.notAfter first' = true) (hfirst' : first'.Agrees first) :
    first.Agrees second := by
  have hcost : first.cost = second.cost := by
    have hle := Parse.cost_le_of_notAfter hfirst
    have hge := Parse.cost_le_of_notAfter hsecond
    rw [hsecond'.cost] at hle
    rw [hfirst'.cost] at hge
    calc first.cost = ⟨first.cost.skips, first.cost.tags⟩ := rfl
      _ = ⟨second.cost.skips, second.cost.tags⟩ := by
        rw [ParseCost.mk.injEq]
        omega
      _ = second.cost := rfl
  refine ⟨hcost, fun htags => ?_⟩
  rw [Parse.notAfter_congr_right hsecond'.cost (hsecond'.tokens htags)] at hfirst
  rw [Parse.notAfter_congr_right hfirst'.cost (hfirst'.tokens (hcost ▸ htags))] at hsecond
  exact (Parse.eq_of_notAfter hfirst hsecond).2

/-! ## Searches in which only noise is skipped -/

/-- The search over the same sentence in which nothing but noise may be skipped. -/
def Task.withoutSkips (task : Task) : Task :=
  { task with
    policy := { task.policy with allowSkip := false }
    phase := .strict }

/-- Where words may not be skipped, what is noise still may. -/
theorem SkipPolicy.skipCost?_withoutSkips (policy : SkipPolicy) {observation : String}
    {inCallsign : Bool} {cost : Nat} :
    SkipPolicy.skipCost? { policy with allowSkip := false } observation inCallsign = some cost ↔
      cost = 0 ∧ policy.skipCost? observation inCallsign = some 0 := by
  rw [skipCost?_eq_some_zero_iff]
  unfold skipCost?
  cases hnoise : policy.noiseMarkers.contains observation <;>
    cases hairline : policy.airlines.contains observation <;> simp [eq_comm]

variable {task : Task} {state next : State} {parse : Parse}

/-- The moves without skips are the same in both phases. -/
theorem Task.move_withoutSkips_iff :
    task.withoutSkips.Move state next ↔ task.Move state next ∧ next.skips = state.skips := by
  constructor
  · intro hmove
    cases hmove with
    | pass hleaves hsilent => exact ⟨.pass hleaves hsilent, rfl⟩
    | openTag hleaves hopens hkept => exact ⟨.openTag hleaves hopens hkept, rfl⟩
    | closeTag hleaves hcloses => exact ⟨.closeTag hleaves hcloses, rfl⟩
    | readWord hleaves hreads hnext => exact ⟨.readWord hleaves hreads hnext, rfl⟩
    | skipWord hreading hnext hallowed =>
        obtain ⟨rfl, hfree⟩ := (SkipPolicy.skipCost?_withoutSkips task.policy).mp hallowed
        exact ⟨.skipWord hreading hnext hfree, rfl⟩
  · rintro ⟨hmove, hskips⟩
    cases hmove with
    | pass hleaves hsilent => exact .pass hleaves hsilent
    | openTag hleaves hopens hkept => exact .openTag hleaves hopens hkept
    | closeTag hleaves hcloses => exact .closeTag hleaves hcloses
    | readWord hleaves hreads hnext => exact .readWord hleaves hreads hnext
    | skipWord hreading hnext hallowed =>
        obtain rfl := Nat.add_eq_left.mp hskips
        have hfree := (SkipPolicy.skipCost?_withoutSkips task.policy).mpr ⟨rfl, hallowed⟩
        exact .skipWord hreading hnext hfree

/-- The strict phase reaches what can be reached without skips. -/
theorem Task.reached_withoutSkips_iff :
    task.withoutSkips.Reached state ↔ task.Reached state ∧ state.skips = 0 := by
  constructor
  · intro hreached
    induction hreached with
    | initial => exact ⟨.initial, rfl⟩
    | move _ hmove ih =>
        obtain ⟨hreached, hskips⟩ := ih
        obtain ⟨hmove, hsame⟩ := Task.move_withoutSkips_iff.mp hmove
        exact ⟨hreached.move hmove, hsame.trans hskips⟩
  · rintro ⟨hreached, hskips⟩
    induction hreached with
    | initial => exact .initial
    | @move state next _ hmove ih =>
        have hbefore : state.skips = 0 := Nat.le_zero.mp (hskips ▸ hmove.skips_le)
        exact (ih hbefore).move (Task.move_withoutSkips_iff.mpr ⟨hmove, hskips.trans hbefore.symm⟩)

/-- What is closed in the end is nothing if no tag was left open. -/
theorem Task.Reached.map_closingTag_openTags (hreached : task.Reached state)
    (htags : state.tagCost = 0) : state.openTags.map Tag.closingTag = [] := by
  rw [hreached.tagCost_eq, List.length_eq_zero_iff] at htags
  rw [htags, List.map_nil]

/-- A parse without skips has a counterpart in the strict phase. -/
theorem Task.Completes.exists_strict (hparse : task.Completes state parse)
    (hskipping : task.policy.allowSkip = true) (hskips : parse.cost.skips = 0) :
    ∃ strict, task.withoutSkips.Completes state strict ∧ strict.Agrees parse := by
  obtain ⟨hreached, hterminal, hcomplete⟩ := hparse
  rcases State.complete?_eq_some hcomplete with ⟨-, htokens, hcount, htags, -⟩ | ⟨hstrict, -⟩
  · rw [hcount, Nat.add_eq_zero_iff, List.length_eq_zero_iff] at hskips
    obtain ⟨hnone, hread⟩ := hskips
    rw [hread, List.length_nil, Nat.add_zero] at hcount htags
    refine ⟨{ tokens := state.output, cost := ⟨state.skips, state.tagCost⟩, skipped := state.skipped },
      ⟨Task.reached_withoutSkips_iff.mpr ⟨hreached, hnone⟩, hterminal, ?_⟩, ?_, ?_⟩
    · simp [State.complete?, Task.withoutSkips, hread]
    · rw [← hcount, ← htags]
    · intro hopen
      rw [htokens, hreached.map_closingTag_openTags (htags ▸ hopen), List.append_nil]
  · rw [hskipping] at hstrict
    exact absurd hstrict (by decide)

/-- A parse of the strict phase has a counterpart where words may be skipped. -/
theorem Task.Completes.exists_skipping (hparse : task.withoutSkips.Completes state parse)
    (hskipping : task.policy.allowSkip = true) :
    ∃ found, task.Completes state found ∧ state.skips = 0 ∧ found.Agrees parse := by
  obtain ⟨hreached, hterminal, hcomplete⟩ := hparse
  obtain ⟨hreached, hnone⟩ := Task.reached_withoutSkips_iff.mp hreached
  rcases State.complete?_eq_some hcomplete with ⟨hallowed, -⟩ | ⟨-, hread, htokens, hskips, htags, -⟩
  · exact absurd hallowed (by simp [Task.withoutSkips])
  · refine ⟨_, ⟨hreached, hterminal, if_pos hskipping⟩, hnone, ?_, ?_⟩
    · rw [hread, List.length_nil, Nat.add_zero, Nat.add_zero, ← hskips, ← htags]
    · intro hopen
      show state.output ++ state.openTags.map Tag.closingTag = parse.tokens
      rw [hreached.map_closingTag_openTags (htags ▸ hopen), List.append_nil, htokens]

/-! ## What a search finds without skips -/

/-- Without skips, keys tell how to go on. -/
theorem Task.keysDecide_zero (htags : task.grammar.SolidTags)
    (hwords : ∀ heard ∈ task.sentence, Text.IsWord heard.token) : task.KeysDecide 0 where
  moves := by
    intro state other next hreached hother hkey hmove hskips
    have halike := hreached.alike_of_key_eq hother htags hwords hkey
    obtain ⟨twin, htwin, hsame⟩ := hmove.alike halike (Nat.le_zero.mp hskips)
    refine ⟨twin, htwin, ?_, hsame.key_eq⟩
    obtain ⟨inside, rfl⟩ := hsame
    exact hskips
  complete := by
    intro state other parse hreached hkey hparse
    exact hparse.alike hreached (hreached.alike_of_key_eq hparse.1 htags hwords hkey)

/-- A search that goes to its end gives back parses of plain runs, and its first one stands
behind none of the parses that states without skips complete. -/
theorem Task.RunsThrough.exists_parses {watch : Watch} {limits : Limits} {earlier : List Report}
    (hthrough : task.RunsThrough watch limits earlier) (hloops : task.grammar.NoOpeningLoop)
    (htags : task.grammar.SolidTags) (hwords : ∀ heard ∈ task.sentence, Text.IsWord heard.token) :
    ∃ parses, (task.run watch limits earlier).result = .ok parses ∧
      (∀ parse ∈ parses, ∃ state, task.Completes state parse) ∧
      ∀ state parse, task.Completes state parse → state.skips = 0 →
        ∃ best ∈ parses.head?, best.notAfter parse = true := by
  obtain ⟨last, hsteps, hposition, hahead, hresult⟩ := hthrough.exists_end
  refine ⟨_, hresult, fun parse hparse => hthrough.completes_of_mem hresult hparse, ?_⟩
  intro state parse hparse hskips
  have hbound : task.BoundsSkips 0 := fun _ _ _ => Nat.zero_le _
  have hfound := Steps.mem_complete hsteps hloops hbound (Task.keysDecide_zero htags hwords)
    hposition hahead hparse (Nat.le_zero.mpr hskips)
  obtain ⟨best, rest, hrank, hbest⟩ := Parse.exists_best_of_mem hfound
  rw [hrank]
  exact ⟨best, rfl, hbest⟩

/-! ## Both searches -/

/-- **The two phases agree on what costs no skip.**  The strict search finds a parse exactly
if the best one of the search in which words may be skipped has no skips, and then their
first parses agree. -/
theorem Task.agrees_withoutSkips {watch : Watch} {limits : Limits} {earlier later : List Report}
    (hskipping : task.policy.allowSkip = true)
    (hstrictThrough : task.withoutSkips.RunsThrough watch limits earlier)
    (hthrough : task.RunsThrough watch limits later) (hloops : task.grammar.NoOpeningLoop)
    (htags : task.grammar.SolidTags) (hwords : ∀ heard ∈ task.sentence, Text.IsWord heard.token) :
    ∃ strict skipping, (task.withoutSkips.run watch limits earlier).result = .ok strict ∧
      (task.run watch limits later).result = .ok skipping ∧
      (strict ≠ [] ↔ ∃ best ∈ skipping.head?, best.cost.skips = 0) ∧
      ∀ first ∈ strict.head?, ∀ best ∈ skipping.head?, first.Agrees best := by
  obtain ⟨strict, hstrict, hstrictMem, hstrictLeast⟩ :=
    hstrictThrough.exists_parses hloops htags hwords
  obtain ⟨skipping, hresult, hmem, hleast⟩ := hthrough.exists_parses hloops htags hwords
  -- the first parse of the strict search has a counterpart that the best one is compared with
  have hforth : ∀ first ∈ strict.head?, ∃ found : Parse, found.Agrees first ∧
      ∃ best ∈ skipping.head?, best.notAfter found = true ∧ best.cost.skips = 0 := by
    intro first hfirst
    obtain ⟨state, hparse⟩ := hstrictMem first (List.mem_of_head? hfirst)
    have hzero : first.cost.skips = 0 := (hparse.of_strict rfl).2
    obtain ⟨found, hfound, hskips, hagree⟩ := hparse.exists_skipping hskipping
    obtain ⟨best, hbest, hbehind⟩ := hleast state found hfound hskips
    have hcost := Parse.cost_le_of_notAfter hbehind
    rw [hagree.cost, hzero] at hcost
    exact ⟨found, hagree, best, hbest, hbehind, by omega⟩
  -- and the other way round
  have hback : ∀ best ∈ skipping.head?, best.cost.skips = 0 → ∃ found : Parse,
      found.Agrees best ∧ ∃ first ∈ strict.head?, first.notAfter found = true := by
    intro best hbest hzero
    obtain ⟨state, hparse⟩ := hmem best (List.mem_of_head? hbest)
    obtain ⟨found, hfound, hagree⟩ := hparse.exists_strict hskipping hzero
    have hskips : state.skips = 0 := (Task.reached_withoutSkips_iff.mp hfound.1).2
    exact ⟨found, hagree, hstrictLeast state found hfound hskips⟩
  refine ⟨strict, skipping, hstrict, hresult, ⟨fun hsome => ?_, ?_⟩, ?_⟩
  · obtain ⟨first, rest, hcons⟩ := List.exists_cons_of_ne_nil hsome
    obtain ⟨-, -, best, hbest, -, hzero⟩ := hforth first (by rw [hcons]; rfl)
    exact ⟨best, hbest, hzero⟩
  · rintro ⟨best, hbest, hzero⟩ hnone
    obtain ⟨-, -, first, hfirst, -⟩ := hback best hbest hzero
    rw [hnone] at hfirst
    exact absurd hfirst (by simp)
  · intro first hfirst best hbest
    obtain ⟨found, hagree, best', hbest', hbehind, hzero⟩ := hforth first hfirst
    obtain rfl := Option.some.inj (hbest.symm.trans hbest')
    obtain ⟨strictFound, hstrictAgree, first', hfirst', hstrictBehind⟩ := hback best hbest hzero
    obtain rfl := Option.some.inj (hfirst.symm.trans hfirst')
    exact Parse.agrees_of_notAfter hstrictBehind hstrictAgree hbehind hagree

end Phraseology
