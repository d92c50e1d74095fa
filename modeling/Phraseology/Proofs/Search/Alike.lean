import Phraseology.Proofs.Search.Nesting
import Phraseology.Proofs.Tag.Plain
import Phraseology.Proofs.Text.Words

/-!
# What a key leaves open

A key holds the node of a state, and its output and its skipped words as text.  If no tag
of the grammar and no word of the sentence holds a blank character, these texts can be cut
into tokens again, and tell

* the open tags and their cost, by replaying the output,
* the skips, by counting the skipped words,
* the unread words, by the number of the words in front of them.

One part of a state is left open, which is whether a callsign is
(`Task.Reached.alike_of_key_eq`).  It matters only to the skipping of words that are no
noise.  Hence of two states with the same key, each can make the moves of the other that
cost no skip (`Task.Move.alike`), and they complete the same parses
(`Task.Completes.alike`).
-/

namespace Phraseology

/-! ## Tags without blanks -/

/-- No tag of a grammar holds a blank character. -/
def Grammar.SolidTags (grammar : Grammar) : Prop :=
  ∀ source target arc, (target, arc) ∈ grammar.transitions source →
    (Tag.tagName? arc.output).isSome → ∀ c ∈ arc.output.toList, Text.isBlank c = false

namespace Tag

variable {word name : String}

theorem isWord_of_tagName? (hname : tagName? word = some name)
    (hsolid : ∀ c ∈ word.toList, Text.isBlank c = false) : Text.IsWord word := by
  refine ⟨fun hempty => ?_, hsolid⟩
  obtain ⟨first, more, rest, hword, -⟩ := isSome_tagName?_iff.mp (Option.isSome_of_eq_some hname)
  rw [hempty] at hword
  exact absurd hword (by simp)

end Tag

variable {task : Task} {state other next : State} {parse : Parse}

/-- What has been put out are single words, and the names of the open tags hold no
blanks. -/
theorem Task.Reached.solid_output (hreached : task.Reached state)
    (htags : task.grammar.SolidTags) (hwords : ∀ heard ∈ task.sentence, Text.IsWord heard.token) :
    (∀ token ∈ state.output, Text.IsWord token) ∧
      ∀ name ∈ state.openTags, ∀ c ∈ name.toList, Text.isBlank c = false := by
  induction hreached with
  | initial => simp [State.initial]
  | @move state _ hstate hmove ih =>
      obtain ⟨houtput, hnames⟩ := ih
      cases hmove with
      | pass _ _ => exact ⟨houtput, hnames⟩
      | @openTag target arc text name hleaves hopens _ =>
          have hname := (Arc.tag_of_opening hopens).1
          have hsolid : ∀ c ∈ text.toList, Text.isBlank c = false := by
            have harc := htags state.node target arc hleaves
            rw [Arc.output_of_opening hopens] at harc
            exact harc (Option.isSome_of_eq_some hname)
          refine ⟨List.forall_mem_append.mpr ⟨houtput, ?_⟩, List.forall_mem_cons.mpr ⟨?_, hnames⟩⟩
          · exact List.forall_mem_singleton.mpr (Tag.isWord_of_tagName? hname hsolid)
          · exact fun c hc => hsolid c (Tag.subset_of_tagName? hname hc)
      | closeTag _ _ =>
          refine ⟨List.forall_mem_append.mpr ⟨houtput, ?_⟩,
            fun name hname => hnames name (List.mem_of_mem_drop hname)⟩
          intro token htoken
          obtain ⟨name, hname, rfl⟩ := List.mem_map.mp htoken
          exact Tag.isWord_closingTag (hnames name (List.mem_of_mem_take hname))
      | @readWord _ _ heard rest _ _ hnext =>
          have hheard := hstate.mem_sentence_of_mem_unread (hnext ▸ List.mem_cons_self ..)
          have hword := hwords heard hheard
          exact ⟨List.forall_mem_append.mpr ⟨houtput, List.forall_mem_singleton.mpr hword⟩, hnames⟩
      | skipWord _ _ _ => exact ⟨houtput, hnames⟩

theorem Task.Reached.isWord_of_mem_skipped (hreached : task.Reached state)
    (hwords : ∀ heard ∈ task.sentence, Text.IsWord heard.token) :
    ∀ token ∈ state.skipped, Text.IsWord token := by
  intro token htoken
  obtain ⟨past, hsentence, hsplit⟩ := hreached.interleaves
  obtain ⟨heard, hheard, rfl⟩ := List.mem_map.mp (hsplit.symm.sublist_left.subset htoken)
  exact hwords heard (hsentence ▸ List.mem_append_left _ hheard)

/-! ## States with the same key -/

/-- States that differ at most in whether a callsign is open. -/
def State.Alike (state other : State) : Prop :=
  ∃ inside, state = { other with inCallsign := inside }

theorem State.Alike.key_eq (halike : state.Alike other) :
    StateKey.ofState state = StateKey.ofState other := by
  obtain ⟨inside, rfl⟩ := halike
  rfl

/-- Two states that have put out and skipped the same words are at the same place. -/
theorem Task.Reached.unread_eq (hreached : task.Reached state) (hother : task.Reached other)
    (houtput : state.output = other.output) (hskipped : state.skipped = other.skipped) :
    state.unread = other.unread := by
  obtain ⟨past, hsentence, hsplit⟩ := hreached.interleaves
  obtain ⟨past', hsentence', hsplit'⟩ := hother.interleaves
  have hlength : past.length = past'.length := by
    have hcount := hsplit.length_eq
    have hcount' := hsplit'.length_eq
    rw [List.length_map] at hcount hcount'
    rw [hcount, hcount', houtput, hskipped]
  have hwhole : past ++ state.unread = past' ++ other.unread := by rw [← hsentence, hsentence']
  exact (List.append_inj hwhole hlength).2

/-- **What a key leaves open.**  If no tag of the grammar and no word of the sentence holds a
blank character, reached states with the same key differ at most in whether a callsign
is open. -/
theorem Task.Reached.alike_of_key_eq (hreached : task.Reached state) (hother : task.Reached other)
    (htags : task.grammar.SolidTags) (hwords : ∀ heard ∈ task.sentence, Text.IsWord heard.token)
    (hkey : StateKey.ofState state = StateKey.ofState other) : state.Alike other := by
  simp only [StateKey.ofState, StateKey.mk.injEq] at hkey
  obtain ⟨hnode, hskippedText, houtputText⟩ := hkey
  -- single words can be told apart in the joined texts
  have houtput : state.output = other.output :=
    Text.eq_of_unwords_eq (hreached.solid_output htags hwords).1
      (hother.solid_output htags hwords).1 houtputText
  have hskipped : state.skipped = other.skipped :=
    Text.eq_of_unwords_eq (hreached.isWord_of_mem_skipped hwords)
      (hother.isWord_of_mem_skipped hwords) hskippedText
  -- the other parts follow from these two
  have hopenTags : state.openTags = other.openTags := by
    have hreplay := hreached.replay?_output
    rw [houtput, hother.replay?_output] at hreplay
    exact (Option.some.inj hreplay).symm
  have htagCost : state.tagCost = other.tagCost := by
    rw [hreached.tagCost_eq, hother.tagCost_eq, hopenTags]
  have hskips : state.skips = other.skips := by
    rw [hreached.skips_eq, hother.skips_eq, hskipped]
  have hunread : state.unread = other.unread := hreached.unread_eq hother houtput hskipped
  refine ⟨state.inCallsign, ?_⟩
  cases state
  cases other
  simp only [State.mk.injEq]
  exact ⟨hnode, houtput, hopenTags, htagCost, hskips, hskipped, trivial, hunread⟩

/-! ## Moves without skips -/

namespace SkipPolicy

variable {policy : SkipPolicy} {observation : String} {inCallsign : Bool} {cost : Nat}

/-- What is skipped at no cost is noise and no airline, wherever it stands. -/
theorem skipCost?_eq_some_zero_iff :
    policy.skipCost? observation inCallsign = some 0 ↔
      policy.noiseMarkers.contains observation = true ∧
        policy.airlines.contains observation = false := by
  unfold skipCost?
  cases hnoise : policy.noiseMarkers.contains observation <;>
    cases hairline : policy.airlines.contains observation <;> simp

end SkipPolicy

/-- A move that skips nothing but noise can also be made from a state that is alike. -/
theorem Task.Move.alike (hmove : task.Move other next) (halike : state.Alike other)
    (hfree : next.skips = 0) : ∃ twin, task.Move state twin ∧ twin.Alike next := by
  obtain ⟨inside, rfl⟩ := halike
  cases hmove with
  | pass hleaves hsilent => exact ⟨_, .pass hleaves hsilent, inside, rfl⟩
  | openTag hleaves hopens hkept => exact ⟨_, .openTag hleaves hopens hkept, _, rfl⟩
  | closeTag hleaves hcloses => exact ⟨_, .closeTag hleaves hcloses, _, rfl⟩
  | readWord hleaves hreads hnext => exact ⟨_, .readWord hleaves hreads hnext, inside, rfl⟩
  | @skipWord cost heard rest hreading hnext hallowed =>
      -- noise may be skipped in a callsign as well as outside of it
      obtain rfl : cost = 0 := Nat.eq_zero_of_add_eq_zero_left hfree
      have hnoise := SkipPolicy.skipCost?_eq_some_zero_iff.mp hallowed
      have hallowed' : task.policy.skipCost? heard.observation inside = some 0 :=
        SkipPolicy.skipCost?_eq_some_zero_iff.mpr hnoise
      exact ⟨_, .skipWord hreading hnext hallowed', inside, rfl⟩

/-- Whether a callsign is open does not matter to a parse. -/
theorem Task.Completes.alike (hparse : task.Completes other parse) (hreached : task.Reached state)
    (halike : state.Alike other) : task.Completes state parse := by
  obtain ⟨-, hterminal, hcomplete⟩ := hparse
  obtain ⟨inside, rfl⟩ := halike
  exact ⟨hreached, hterminal, hcomplete⟩

end Phraseology
