import Phraseology.Proofs.Search.Cheapest

/-!
# Words that no arc reads

A word that no arc of the grammar reads is skipped in every run of a search, or left unread at
its end.  So it can as well be dropped before the search: without it, each state that is
reached is reached with the same output, and with those of the skipped and of the unread words
that are kept (`Task.Reached.keeping`).  The move that skips the word is no move at all then.
Whether it stands in a callsign, is noise or could not be skipped makes no difference.

What is dropped is not counted, so a parse has no more skips than before, and a search in which
words may be skipped finds one with no more skips (`Task.exists_best_keeping`).
-/

namespace Phraseology

/-- A task without some of its words. -/
def Task.keeping (task : Task) (keeps : String → Bool) : Task :=
  { task with sentence := task.sentence.filter (keeps ·.token) }

/-- A state without some of the words. -/
def State.keeping (policy : SkipPolicy) (keeps : String → Bool) (state : State) : State :=
  { state with
    skips := policy.countSpoken (state.skipped.filter keeps)
    skipped := state.skipped.filter keeps
    unread := state.unread.filter (keeps ·.token) }

/-- Whether all words that some arc reads are kept. -/
def Task.KeepsReadable (task : Task) (keeps : String → Bool) : Prop :=
  ∀ heard ∈ task.sentence, ∀ source target arc, (target, arc) ∈ task.grammar.transitions source →
    arc.label = .word heard.observation → keeps heard.token = true

variable {task : Task} {keeps : String → Bool} {state : State} {parse : Parse}

/-- A run without the words that no arc reads. -/
theorem Task.Reached.keeping (hreached : task.Reached state) (hreadable : task.KeepsReadable keeps) :
    (task.keeping keeps).Reached (state.keeping task.policy keeps) := by
  induction hreached with
  | initial => exact .initial
  | @move state _ hstate hmove ih =>
      have hheard : ∀ {heard : Heard} {rest : List Heard}, state.unread = heard :: rest →
          heard ∈ task.sentence := by
        intro heard rest hnext
        apply hstate.mem_sentence_of_mem_unread
        rw [hnext]
        exact List.mem_cons_self
      cases hmove with
      | pass hleaves hsilent => exact ih.move (.pass hleaves hsilent)
      | openTag hleaves hopens hkept => exact ih.move (.openTag hleaves hopens hkept)
      | closeTag hleaves hcloses => exact ih.move (.closeTag hleaves hcloses)
      | @readWord target arc heard rest hleaves hreads hnext =>
          have hkept := hreadable heard (hheard hnext) _ _ _ hleaves hreads
          refine ih.move (.readWord hleaves hreads ?_)
          show state.unread.filter _ = _
          rw [hnext]
          exact List.filter_cons_of_pos hkept
      | @skipWord cost heard rest hreading hnext hallowed =>
          by_cases hkept : keeps heard.token = true
          · have hunread : (state.keeping task.policy keeps).unread =
                heard :: rest.filter (keeps ·.token) := by
              show state.unread.filter _ = _
              rw [hnext]
              exact List.filter_cons_of_pos hkept
            have hskipped : (state.skipWord cost heard rest).keeping task.policy keeps =
                (state.keeping task.policy keeps).skipWord cost heard
                  (rest.filter (keeps ·.token)) := by
              have hskips : (state.skipped ++ [heard.token]).filter keeps =
                  state.skipped.filter keeps ++ [heard.token] := by
                simp [hkept]
              simp only [State.keeping, State.skipWord, hskips, SkipPolicy.countSpoken_append,
                ← SkipPolicy.cost_eq_of_skipCost? hallowed]
            rw [hskipped]
            exact ih.move (.skipWord hreading hunread hallowed)
          · -- nothing is left of the word, neither unread nor skipped
            have hsame : (state.skipWord cost heard rest).keeping task.policy keeps =
                state.keeping task.policy keeps := by
              simp [State.keeping, State.skipWord, hnext, hkept]
            rw [hsame]
            exact ih

/-- A parse without the words that no arc reads. -/
theorem Task.Completes.exists_keeping (hparse : task.Completes state parse)
    (hskipping : task.policy.allowSkip = true) (hreadable : task.KeepsReadable keeps) :
    ∃ kept, (task.keeping keeps).Completes (state.keeping task.policy keeps) kept ∧
      kept.cost.skips ≤ parse.cost.skips := by
  obtain ⟨-, hskips⟩ := hparse.skips_eq
  obtain ⟨hreached, hterminal, -⟩ := hparse
  have hcomplete : (state.keeping task.policy keeps).complete? task.policy = some _ :=
    if_pos hskipping
  refine ⟨_, ⟨hreached.keeping hreadable, hterminal, hcomplete⟩, ?_⟩
  have hcounted : task.policy.countSpoken (state.skipped.filter keeps) ≤
      task.policy.countSpoken state.skipped :=
    List.filter_sublist.countP_le
  have hunread : (state.unread.filter (keeps ·.token)).length ≤ state.unread.length :=
    List.length_filter_le _ _
  rw [hskips]
  exact Nat.add_le_add hcounted hunread

/-- Where words may be skipped, the search without the words that no arc reads gives back a
parse if the search with them does, and its first one has no more skips. -/
theorem Task.exists_best_keeping {watch : Watch} {limits : Limits} {earlier later : List Report}
    (hskipping : task.policy.allowSkip = true) (hreadable : task.KeepsReadable keeps)
    (hregular : (task.keeping keeps).Regular) (hthrough : task.RunsThrough watch limits earlier)
    (hkept : (task.keeping keeps).RunsThrough watch limits later) :
    ∃ all kept, (task.run watch limits earlier).result = .ok all ∧
      ((task.keeping keeps).run watch limits later).result = .ok kept ∧
      ∀ best ∈ all.head?, ∃ least ∈ kept.head?, least.cost.skips ≤ best.cost.skips := by
  obtain ⟨_, -, -, -, hall⟩ := hthrough.exists_end
  obtain ⟨_, -, -, -, hresult⟩ := hkept.exists_end
  refine ⟨_, _, hall, hresult, fun best hbest => ?_⟩
  obtain ⟨state, hparse⟩ := hthrough.completes_of_mem hall (List.mem_of_head? hbest)
  obtain ⟨found, hfound, hfewer⟩ := hparse.exists_keeping hskipping hreadable
  obtain ⟨least, hleast, hbehind⟩ := hkept.exists_best hregular hresult hfound
  refine ⟨least, hleast, ?_⟩
  have hcost := Parse.cost_le_of_notAfter hbehind
  omega

end Phraseology
