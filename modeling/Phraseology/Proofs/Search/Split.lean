import Phraseology.Proofs.Search.Snapshots

/-!
# Every word is read or skipped

However a search gets to a state, the words up to its place in the sentence are
divided between its output and its skipped words, each of them in one of the two
and all in their order (`Interleaves`), and the skips count the skipped words that
are no noise.  Neither needs anything of the grammar.

`Task.Reached.splits_sentence` states this for states, for the parses they complete
and for the parses they are closed to by force.
-/

namespace Phraseology

/-! ## Two lists in one -/

/-- `whole` is made of the elements of `left` and of `right`, each in their order. -/
inductive Interleaves {α : Type} : List α → List α → List α → Prop
  | nil : Interleaves [] [] []
  | left {x : α} {left right whole : List α} :
      Interleaves left right whole → Interleaves (x :: left) right (x :: whole)
  | right {x : α} {left right whole : List α} :
      Interleaves left right whole → Interleaves left (x :: right) (x :: whole)

namespace Interleaves

variable {α : Type} {left right whole : List α}

theorem right_only (xs : List α) : Interleaves [] xs xs := by
  induction xs with
  | nil => exact .nil
  | cons x xs ih => exact .right ih

theorem append_right (hwhole : Interleaves left right whole) (xs : List α) :
    Interleaves left (right ++ xs) (whole ++ xs) := by
  induction hwhole with
  | nil => exact right_only xs
  | left _ ih => exact .left ih
  | right _ ih => exact .right ih

theorem symm (hwhole : Interleaves left right whole) : Interleaves right left whole := by
  induction hwhole with
  | nil => exact .nil
  | left _ ih => exact .right ih
  | right _ ih => exact .left ih

theorem append_left (hwhole : Interleaves left right whole) (xs : List α) :
    Interleaves (left ++ xs) right (whole ++ xs) :=
  (hwhole.symm.append_right xs).symm

theorem sublist_left (hwhole : Interleaves left right whole) : left.Sublist whole := by
  induction hwhole with
  | nil => exact .slnil
  | left _ ih => exact .cons_cons _ ih
  | right _ ih => exact .cons _ ih

theorem length_eq (hwhole : Interleaves left right whole) :
    whole.length = left.length + right.length := by
  induction hwhole with
  | nil => rfl
  | left _ ih => simp only [List.length_cons, ih]; omega
  | right _ ih => simp only [List.length_cons, ih]; omega

end Interleaves

/-! ## The price of skipping -/

namespace SkipPolicy

/-- Whether a token of the sentence is noise. -/
def isNoise (policy : SkipPolicy) (token : String) : Bool :=
  policy.noiseMarkers.contains (Token.observation token)

/-- How many of some tokens are no noise. -/
def countSpoken (policy : SkipPolicy) (tokens : List String) : Nat :=
  tokens.countP fun token => !policy.isNoise token

variable {policy : SkipPolicy} {heard : Heard} {inCallsign : Bool} {cost : Nat}

/-- Skipping a token costs one, or nothing if it is noise. -/
theorem cost_eq_of_skipCost? (hcost : policy.skipCost? heard.observation inCallsign = some cost) :
    cost = policy.countSpoken [heard.token] := by
  unfold skipCost? at hcost
  rw [← heard.observed] at hcost
  simp only at hcost
  split at hcost
  · simp at hcost
  · split at hcost
    · simp at hcost
    · obtain rfl := Option.some.inj hcost
      cases hnoise : policy.noiseMarkers.contains (Token.observation heard.token) <;>
        simp [countSpoken, isNoise, hnoise]

/-- Where words may not be skipped, only noise is. -/
theorem isNoise_of_skipCost? (hcost : policy.skipCost? heard.observation inCallsign = some cost)
    (hstrict : policy.allowSkip = false) : policy.isNoise heard.token = true := by
  unfold skipCost? at hcost
  rw [← heard.observed, hstrict] at hcost
  unfold isNoise
  cases hnoise : policy.noiseMarkers.contains (Token.observation heard.token) with
  | true => rfl
  | false => simp [hnoise] at hcost

theorem countSpoken_append (policy : SkipPolicy) (first second : List String) :
    policy.countSpoken (first ++ second) = policy.countSpoken first + policy.countSpoken second :=
  List.countP_append

theorem countSpoken_eq_zero {tokens : List String}
    (hnoise : ∀ token ∈ tokens, policy.isNoise token = true) : policy.countSpoken tokens = 0 := by
  refine List.countP_eq_zero.mpr fun token htoken => ?_
  rw [hnoise token htoken]
  decide

end SkipPolicy

/-! ## States -/

variable {task : Task} {state : State}

/-- How the words up to the place of a state are divided. -/
theorem Task.Reached.interleaves (hreached : task.Reached state) :
    ∃ past, task.sentence = past ++ state.unread ∧
      Interleaves (Tag.untagged state.output) state.skipped (past.map (·.token)) := by
  induction hreached with
  | initial => exact ⟨[], rfl, .nil⟩
  | @move state _ hstate hmove ih =>
      obtain ⟨past, hsentence, hsplit⟩ := ih
      cases hmove with
      | pass _ _ => exact ⟨past, hsentence, hsplit⟩
      | openTag _ hopens _ =>
          refine ⟨past, hsentence, ?_⟩
          -- the new token is a tag, and no word
          have htag := (Arc.tag_of_opening hopens).1
          simpa [State.openTag, Tag.untagged_append, Tag.untagged, htag] using hsplit
      | closeTag _ _ =>
          refine ⟨past, hsentence, ?_⟩
          -- so are all closing tags, however many of them there are
          have hnames := hstate.newline_notMem_openTags
          simp only [State.closeTag, Tag.untagged_append]
          rw [Tag.untagged_map_closingTag fun name hname => hnames name (List.mem_of_mem_take hname),
            List.append_nil]
          exact hsplit
      | @readWord _ _ heard rest _ hreads hnext =>
          refine ⟨past ++ [heard], by rw [hsentence, hnext]; simp [State.readWord], ?_⟩
          -- the output keeps the spelling of the sentence, which is no tag either
          have hword := Arc.untagged_of_reads hreads
          have hadd := hsplit.append_left [heard.token]
          simpa [State.readWord, Tag.untagged_append, Tag.untagged, hword] using hadd
      | @skipWord _ heard rest _ hnext _ =>
          refine ⟨past ++ [heard], by rw [hsentence, hnext]; simp [State.skipWord], ?_⟩
          have hadd := hsplit.append_right [heard.token]
          simpa [State.skipWord] using hadd

theorem Task.Reached.mem_sentence_of_mem_unread (hreached : task.Reached state) {heard : Heard}
    (hunread : heard ∈ state.unread) : heard ∈ task.sentence := by
  obtain ⟨past, hsentence, -⟩ := hreached.interleaves
  rw [hsentence]
  exact List.mem_append_right _ hunread

theorem Task.Reached.skips_eq (hreached : task.Reached state) :
    state.skips = task.policy.countSpoken state.skipped := by
  induction hreached with
  | initial => rfl
  | move _ hmove ih =>
      cases hmove with
      | pass _ _ => exact ih
      | openTag _ _ _ => exact ih
      | closeTag _ _ => exact ih
      | readWord _ _ _ => exact ih
      | skipWord _ _ hallowed =>
          simp only [State.skipWord]
          rw [SkipPolicy.countSpoken_append, ih, ← SkipPolicy.cost_eq_of_skipCost? hallowed]

/-- In the strict phase nothing but noise is skipped. -/
theorem Task.Reached.isNoise_of_strict (hreached : task.Reached state)
    (hstrict : task.policy.allowSkip = false) :
    ∀ token ∈ state.skipped, task.policy.isNoise token = true := by
  induction hreached with
  | initial => simp [State.initial]
  | move _ hmove ih =>
      cases hmove with
      | pass _ _ => exact ih
      | openTag _ _ _ => exact ih
      | closeTag _ _ => exact ih
      | readWord _ _ _ => exact ih
      | skipWord _ _ hallowed =>
          intro token htoken
          rcases List.mem_append.mp htoken with hold | hnew
          · exact ih token hold
          · rw [List.mem_singleton.mp hnew]
            exact SkipPolicy.isNoise_of_skipCost? hallowed hstrict

theorem Task.Reached.skips_eq_zero_of_strict (hreached : task.Reached state)
    (hstrict : task.policy.allowSkip = false) : state.skips = 0 := by
  rw [hreached.skips_eq]
  exact SkipPolicy.countSpoken_eq_zero (hreached.isNoise_of_strict hstrict)

/-! ## Parses -/

/-- What is in a complete parse, by the phase. -/
theorem State.complete?_eq_some {policy : SkipPolicy} {parse : Parse}
    (hcomplete : state.complete? policy = some parse) :
    (policy.allowSkip = true ∧
      parse.tokens = state.output ++ state.openTags.map Tag.closingTag ∧
      parse.cost.skips = state.skips + state.unread.length ∧
      parse.cost.tags = state.tagCost + state.unread.length ∧
      parse.skipped = state.skipped ++ state.unreadTokens) ∨
    (policy.allowSkip = false ∧ state.unread = [] ∧ parse.tokens = state.output ∧
      parse.cost.skips = state.skips ∧ parse.cost.tags = state.tagCost ∧
      parse.skipped = state.skipped) := by
  unfold State.complete? at hcomplete
  split at hcomplete
  · next hskip =>
      obtain rfl := Option.some.inj hcomplete
      exact Or.inl ⟨hskip, rfl, rfl, rfl, rfl⟩
  · next hstrict =>
      split at hcomplete
      · next hread =>
          obtain rfl := Option.some.inj hcomplete
          exact Or.inr ⟨by simpa using hstrict, List.isEmpty_iff.mp hread, rfl, rfl, rfl, rfl⟩
      · simp at hcomplete

/-- The unread words are counted once, wherever they are put. -/
theorem State.skips_closing (names : List String) (closing : State.Closing) :
    (names.foldl State.Closing.close closing).skips +
        (names.foldl State.Closing.close closing).unread.length =
      closing.skips + closing.unread.length := by
  induction names generalizing closing with
  | nil => rfl
  | cons name names ih =>
      rw [List.foldl_cons, ih]
      unfold State.Closing.close
      split <;> simp

theorem State.skips_forceClose (state : State) :
    state.forceClose.cost.skips = state.skips + state.unread.length := by
  have hcount := State.skips_closing state.openTags
    { tokens := state.output, unread := state.unreadTokens, skips := state.skips }
  simpa [State.forceClose, State.closing, State.unreadTokens] using hcount

/-- The words of a complete parse and its skipped words are the sentence. -/
theorem Task.Completes.interleaves {parse : Parse} (hparse : task.Completes state parse) :
    Interleaves (Tag.untagged parse.tokens) parse.skipped (task.sentence.map (·.token)) := by
  obtain ⟨hreached, -, hcomplete⟩ := hparse
  obtain ⟨past, hsentence, hsplit⟩ := hreached.interleaves
  rcases State.complete?_eq_some hcomplete with
    ⟨-, htokens, -, -, hskipped⟩ | ⟨-, hunread, htokens, -, -, hskipped⟩
  · rw [htokens, hskipped, hsentence, List.map_append, Tag.untagged_append,
      Tag.untagged_map_closingTag hreached.newline_notMem_openTags, List.append_nil]
    exact hsplit.append_right state.unreadTokens
  · rw [htokens, hskipped, hsentence, hunread, List.append_nil]
    exact hsplit

/-- The skips of a complete parse are the words skipped on the way, noise apart, and
all words that are left unread. -/
theorem Task.Completes.skips_eq {parse : Parse} (hparse : task.Completes state parse) :
    parse.skipped = state.skipped ++ state.unreadTokens ∧
      parse.cost.skips = task.policy.countSpoken state.skipped + state.unread.length := by
  obtain ⟨hreached, -, hcomplete⟩ := hparse
  rw [← hreached.skips_eq]
  rcases State.complete?_eq_some hcomplete with
    ⟨-, -, hskips, -, hskipped⟩ | ⟨-, hunread, -, hskips, -, hskipped⟩
  · exact ⟨hskipped, hskips⟩
  · rw [hskipped, hskips]
    simp [hunread, State.unreadTokens]

theorem Task.Completes.of_strict {parse : Parse} (hparse : task.Completes state parse)
    (hstrict : task.policy.allowSkip = false) :
    (∀ token ∈ parse.skipped, task.policy.isNoise token = true) ∧ parse.cost.skips = 0 := by
  obtain ⟨hreached, -, hcomplete⟩ := hparse
  rcases State.complete?_eq_some hcomplete with ⟨hskip, -⟩ | ⟨-, -, -, hskips, -, hskipped⟩
  · rw [hstrict] at hskip
    exact absurd hskip (by decide)
  · rw [hskipped, hskips]
    exact ⟨hreached.isNoise_of_strict hstrict, hreached.skips_eq_zero_of_strict hstrict⟩

/-- **Every word is read or skipped.**  In a reached state the words in front of
the unread ones are divided between output and skipped words, and the skips count
those of the skipped ones that are no noise.  In a complete parse the whole
sentence is divided like this, and the skips count in addition each word that was
left unread; in the strict phase only noise is skipped, and there are no skips.  A
state that is closed by force has its own skips and one for each unread word. -/
theorem Task.Reached.splits_sentence (hreached : task.Reached state) :
    (∃ past, task.sentence = past ++ state.unread ∧
      Interleaves (Tag.untagged state.output) state.skipped (past.map (·.token))) ∧
    state.skips = task.policy.countSpoken state.skipped ∧
    (∀ parse, task.Completes state parse →
      Interleaves (Tag.untagged parse.tokens) parse.skipped (task.sentence.map (·.token)) ∧
      parse.skipped = state.skipped ++ state.unreadTokens ∧
      parse.cost.skips = task.policy.countSpoken state.skipped + state.unread.length ∧
      (task.policy.allowSkip = false →
        (∀ token ∈ parse.skipped, task.policy.isNoise token = true) ∧ parse.cost.skips = 0)) ∧
    state.forceClose.cost.skips = state.skips + state.unread.length := by
  refine ⟨hreached.interleaves, hreached.skips_eq, ?_, state.skips_forceClose⟩
  intro parse hparse
  obtain ⟨hskipped, hskips⟩ := hparse.skips_eq
  exact ⟨hparse.interleaves, hskipped, hskips, hparse.of_strict⟩

theorem Task.Reached.splits_greeting :
    Task.greeting.Reached State.greeted ∧
      Interleaves ["hello:0.9"] ["_sil_"] (Task.greeting.sentence.map (·.token)) ∧
      State.greeted.forceClose.cost.skips = 0 := by
  obtain ⟨⟨past, hsentence, hsplit⟩, -, -, hforced⟩ :=
    Task.Reached.splits_sentence Task.reached_greeted
  refine ⟨Task.reached_greeted, ?_, hforced⟩
  rw [hsentence, show State.greeted.unread = [] from rfl, List.append_nil]
  exact hsplit

end Phraseology
