import Phraseology.Proofs.Search.Split
import Phraseology.Proofs.Tag.Replay

/-!
# The open tags are those that the output leaves open

The output of a reached state replays to exactly its open tags
(`Task.Reached.replay?_output`), whatever the closing arcs of the grammar are called:
an arc may close several tags or none, but each closing tag that is put out is made
from the name it closes.

`Task.nesting` adds what follows for parses: where open tags are closed in the end,
nothing stays open, and a parse of the strict phase leaves open as many tags as it
costs.
-/

namespace Phraseology

variable {task : Task} {state : State}

/-! ## States -/

/-- The output of a reached state replays to its open tags. -/
theorem Task.Reached.replay?_output (hreached : task.Reached state) :
    Tag.replay? state.output [] = some state.openTags := by
  induction hreached with
  | initial => rfl
  | @move state _ hstate hmove ih =>
      cases hmove with
      | pass _ _ => exact ih
      | @openTag _ _ text name _ hopens _ =>
          -- the name is pushed
          obtain ⟨hname, hopening⟩ := Arc.tag_of_opening hopens
          rw [State.openTag, Tag.replay?_append, ih, Option.bind_some,
            Tag.replay?_cons_opening hname hopening, Tag.replay?_nil]
      | @closeTag _ _ text name _ _ =>
          -- the names that are closed are the front part of the open tags
          have hnames : ∀ open' ∈ state.openTags.take (State.closedBy name state.openTags),
              '\n' ∉ open'.toList :=
            fun open' hopen => hstate.newline_notMem_openTags open' (List.mem_of_mem_take hopen)
          have hclosed := Tag.replay?_map_closingTag hnames
            (state.openTags.drop (State.closedBy name state.openTags))
          rw [List.take_append_drop] at hclosed
          rw [State.closeTag, Tag.replay?_append, ih, Option.bind_some, hclosed]
      | readWord _ hreads _ =>
          rw [State.readWord, Tag.replay?_append, ih, Option.bind_some,
            Tag.replay?_cons_word (Arc.untagged_of_reads hreads), Tag.replay?_nil]
      | skipWord _ _ _ => exact ih

/-- The tag cost of a reached state is the number of its open tags. -/
theorem Task.Reached.tagCost_eq (hreached : task.Reached state) :
    state.tagCost = state.openTags.length := by
  induction hreached with
  | initial => rfl
  | move _ hmove ih =>
      cases hmove with
      | pass _ _ => exact ih
      | openTag _ _ _ => simp [State.openTag, ih]
      | closeTag _ _ =>
          simp only [State.closeTag, List.length_drop, List.length_take, ih]
          omega
      | readWord _ _ _ => exact ih
      | skipWord _ _ _ => exact ih

/-- A closing arc closes no more tags than the tag cost counts. -/
theorem Task.Reached.closed_le_tagCost (hreached : task.Reached state) (name : String) :
    (state.openTags.take (State.closedBy name state.openTags)).length ≤ state.tagCost := by
  rw [hreached.tagCost_eq]
  exact List.length_take_le' ..

/-! ## Parses -/

/-- Closing the tags of a stack one by one pops them all, wherever the words go. -/
theorem State.replay?_closing {names : List String} (hnames : ∀ name ∈ names, '\n' ∉ name.toList)
    (closing : State.Closing) (hwords : ∀ token ∈ closing.unread, Tag.tagName? token = none)
    (hopen : Tag.replay? closing.tokens [] = some names) :
    Tag.replay? (names.foldl State.Closing.close closing).tokens [] = some [] := by
  induction names generalizing closing with
  | nil => exact hopen
  | cons name names ih =>
      have hname := hnames name (List.mem_cons_self ..)
      rw [List.foldl_cons]
      refine ih (fun other hother => hnames other (List.mem_cons_of_mem _ hother)) _ ?_ ?_
      · unfold State.Closing.close
        split
        · simp
        · exact hwords
      · unfold State.Closing.close
        split
        · simp only [Tag.replay?_append, hopen, Option.bind_some, Tag.replay?_words hwords,
            Tag.replay?_cons_closingTag hname, Tag.replay?_nil]
        · simp only [Tag.replay?_append, hopen, Option.bind_some,
            Tag.replay?_cons_closingTag hname, Tag.replay?_nil]

theorem Task.Reached.wellNested_forceClose (hreached : task.Reached state)
    (hwords : ∀ heard ∈ task.sentence, Tag.tagName? heard.token = none) :
    Tag.WellNested state.forceClose.tokens := by
  refine State.replay?_closing hreached.newline_notMem_openTags _ ?_ hreached.replay?_output
  intro token htoken
  obtain ⟨heard, hheard, rfl⟩ := List.mem_map.mp htoken
  exact hwords heard (hreached.mem_sentence_of_mem_unread hheard)

/-- Where words may be skipped, a complete parse leaves nothing open. -/
theorem Task.Completes.wellNested {parse : Parse} (hparse : task.Completes state parse)
    (hskip : task.policy.allowSkip = true) : Tag.WellNested parse.tokens := by
  obtain ⟨hreached, -, hcomplete⟩ := hparse
  rcases State.complete?_eq_some hcomplete with ⟨-, htokens, -⟩ | ⟨hstrict, -⟩
  · have hclosed := Tag.replay?_map_closingTag hreached.newline_notMem_openTags []
    rw [List.append_nil] at hclosed
    rw [Tag.WellNested, htokens, Tag.replay?_append, hreached.replay?_output, Option.bind_some,
      hclosed]
  · rw [hskip] at hstrict
    exact absurd hstrict (by decide)

/-- In the strict phase a complete parse costs as many tags as it leaves open. -/
theorem Task.Completes.wellNested_iff {parse : Parse} (hparse : task.Completes state parse)
    (hstrict : task.policy.allowSkip = false) :
    Tag.WellNested parse.tokens ↔ parse.cost.tags = 0 := by
  obtain ⟨hreached, -, hcomplete⟩ := hparse
  rcases State.complete?_eq_some hcomplete with ⟨hskip, -⟩ | ⟨-, -, htokens, -, htags, -⟩
  · rw [hstrict] at hskip
    exact absurd hskip (by decide)
  · rw [Tag.WellNested, htokens, hreached.replay?_output, htags, hreached.tagCost_eq]
    simp

/-- **The open tags are those that the output leaves open.**  The output of each
reached state replays to its open tags, the tag cost counts them, and no closing
arc takes more from the cost than there is.  So what a search gives back for a
sentence without tags is well nested with nothing left open, if it was closed by
force or if words may be skipped, and in the strict phase exactly if it costs no
tags. -/
theorem Task.nesting (task : Task) :
    (∀ state, task.Reached state →
      Tag.replay? state.output [] = some state.openTags ∧
      state.tagCost = state.openTags.length ∧
      ∀ name, (state.openTags.take (State.closedBy name state.openTags)).length ≤ state.tagCost) ∧
    ((∀ heard ∈ task.sentence, Tag.tagName? heard.token = none) →
      (∀ state, task.Reached state → Tag.WellNested state.forceClose.tokens) ∧
      (∀ state parse, task.Completes state parse →
        (task.policy.allowSkip = true → Tag.WellNested parse.tokens) ∧
        (task.policy.allowSkip = false → (Tag.WellNested parse.tokens ↔ parse.cost.tags = 0))) ∧
      ∀ watch limits earlier parses, (task.run watch limits earlier).result = .ok parses →
        ∀ parse ∈ parses,
          (task.policy.allowSkip = true → Tag.WellNested parse.tokens) ∧
          (task.policy.allowSkip = false →
            (Tag.WellNested parse.tokens ↔ parse.cost.tags = 0))) := by
  refine ⟨fun state hreached =>
    ⟨hreached.replay?_output, hreached.tagCost_eq, hreached.closed_le_tagCost⟩, ?_⟩
  intro hwords
  refine ⟨fun state hreached => hreached.wellNested_forceClose hwords,
    fun state parse hparse => ⟨hparse.wellNested, hparse.wellNested_iff⟩, ?_⟩
  intro watch limits earlier parses hrun parse hparse
  rcases Task.complete_or_forced_of_mem_run hrun hparse with
    ⟨state, hcomplete⟩ | ⟨state, hreached, rfl⟩
  · exact ⟨hcomplete.wellNested, hcomplete.wellNested_iff⟩
  · have hnested := hreached.wellNested_forceClose hwords
    exact ⟨fun _ => hnested, fun _ => iff_of_true hnested rfl⟩

theorem Task.nesting_greeting :
    Tag.replay? State.greeted.output [] = some [] ∧
      Tag.WellNested State.greeted.forceClose.tokens := by
  obtain ⟨hstates, hparses⟩ := Task.nesting Task.greeting
  have hwords : ∀ heard ∈ Task.greeting.sentence, Tag.tagName? heard.token = none := by decide
  exact ⟨(hstates _ Task.reached_greeted).1, (hparses hwords).1 _ Task.reached_greeted⟩

end Phraseology
