import Phraseology.Proofs.Search.Alike
import Phraseology.Proofs.Search.KeyBound
import Phraseology.Proofs.Tag.Plain

/-!
# A key stands for one state

A search tells states apart by their keys.  All but one of the parts of a state can be
found in its key already if tags and words hold no blanks
(`Task.Reached.alike_of_key_eq`).  The last one is whether a callsign is open.  It
depends on the texts of the arcs, and a closing arc may put out other tags than its own.
In a `Regular` task closing arcs name the tags that they close, and then the last
callsign tag of the output tells (`Task.Reached.inCallsign_eq`).
-/

namespace Phraseology

/-! ## What a search may rely on -/

/-- The tags of a grammar are plain. -/
def Grammar.PlainTags (grammar : Grammar) : Prop :=
  ∀ source target arc, (target, arc) ∈ grammar.transitions source →
    (Tag.tagName? arc.output).isSome → Tag.Plain arc.output

theorem Grammar.PlainTags.solidTags {grammar : Grammar} (hplain : grammar.PlainTags) :
    grammar.SolidTags := by
  intro source target arc hleaves htag
  exact (hplain source target arc hleaves htag).isWord.solid

/-- In the runs of a search a closing arc always names the innermost open tag. -/
def Task.ClosesInnermost (task : Task) : Prop :=
  ∀ state target arc text name, task.Reached state →
    (target, arc) ∈ task.grammar.transitions state.node → arc.label = .closing text name →
    ∃ top below, state.openTags = top :: below ∧ Tag.baseName top = Tag.baseName name

/-- A task in which nothing but the words of the sentence makes a search long, and in
which no two texts are joined to the same text. -/
structure Task.Regular (task : Task) : Prop where
  plainTags : task.grammar.PlainTags
  closesInnermost : task.ClosesInnermost
  noOpeningLoop : task.grammar.NoOpeningLoop
  words : ∀ heard ∈ task.sentence, Text.IsWord heard.token

theorem Grammar.PlainTags.plain_of_closing {grammar : Grammar} (hplain : grammar.PlainTags)
    {source target : Nat} {arc : Arc} {text name : String}
    (hleaves : (target, arc) ∈ grammar.transitions source)
    (hcloses : arc.label = .closing text name) : Tag.Plain text := by
  have htext := Arc.output_of_closing hcloses
  have hsome := Option.isSome_of_eq_some (Arc.tag_of_closing hcloses).1
  rw [← htext] at hsome ⊢
  exact hplain source target arc hleaves hsome

/-! ## Closing the innermost tag -/

theorem State.closedBy_innermost {top name : String} {below : List String}
    (hname : Tag.baseName top = Tag.baseName name) : State.closedBy name (top :: below) = 1 := by
  simp [State.closedBy, List.findIdx?_cons, hname]

/-- Every node has a stack of open tags that the arcs agree with. -/
structure Grammar.Stacked (grammar : Grammar) (stackAt : Nat → List String) : Prop where
  start : stackAt Grammar.startNode = []
  quiet : ∀ source target arc, (target, arc) ∈ grammar.transitions source →
    (arc.label = .silent ∨ ∃ text, arc.label = .word text) → stackAt target = stackAt source
  opening : ∀ source target arc text name, (target, arc) ∈ grammar.transitions source →
    arc.label = .opening text name → stackAt target = name :: stackAt source
  closing : ∀ source target arc text name, (target, arc) ∈ grammar.transitions source →
    arc.label = .closing text name →
    ∃ top, stackAt source = top :: stackAt target ∧ Tag.baseName top = Tag.baseName name

/-- The open tags of a state are then those of its node. -/
theorem Task.Reached.openTags_eq_of_stacked {task : Task} {stackAt : Nat → List String}
    {state : State} (hreached : task.Reached state) (hstacked : task.grammar.Stacked stackAt) :
    state.openTags = stackAt state.node := by
  induction hreached with
  | initial => exact hstacked.start.symm
  | move _ hmove ih =>
      cases hmove with
      | pass hleaves hsilent => exact ih.trans (hstacked.quiet _ _ _ hleaves (Or.inl hsilent)).symm
      | openTag hleaves hopens _ =>
          simp only [State.openTag]
          rw [hstacked.opening _ _ _ _ _ hleaves hopens, ih]
      | closeTag hleaves hcloses =>
          obtain ⟨top, hstack, htop⟩ := hstacked.closing _ _ _ _ _ hleaves hcloses
          simp only [State.closeTag]
          rw [ih, hstack, State.closedBy_innermost htop]
          rfl
      | readWord hleaves hreads _ =>
          exact ih.trans (hstacked.quiet _ _ _ hleaves (Or.inr ⟨_, hreads⟩)).symm
      | skipWord _ _ _ => exact ih

theorem Grammar.Stacked.closesInnermost {task : Task} {stackAt : Nat → List String}
    (hstacked : task.grammar.Stacked stackAt) : task.ClosesInnermost := by
  intro state target arc text name hreached hleaves hcloses
  obtain ⟨top, hstack, htop⟩ := hstacked.closing _ _ _ _ _ hleaves hcloses
  exact ⟨top, stackAt target, (hreached.openTags_eq_of_stacked hstacked).trans hstack, htop⟩

/-- A grammar that opens a tag, reads a word and closes the tag. -/
theorem Grammar.stacked_of_single {grammar : Grammar} {opener reader closer : Arc}
    {opening word closing name : String}
    (harcs : ∀ source target arc, (target, arc) ∈ grammar.transitions source →
      (source = 0 ∧ target = 1 ∧ arc = opener) ∨ (source = 1 ∧ target = 2 ∧ arc = reader) ∨
        (source = 2 ∧ target = 3 ∧ arc = closer))
    (hopen : opener.label = .opening opening name) (hword : reader.label = .word word)
    (hclose : closer.label = .closing closing name) :
    grammar.Stacked fun node => if node = 1 ∨ node = 2 then [name] else [] := by
  refine ⟨rfl, ?_, ?_, ?_⟩
  · intro source target arc hleaves hquiet
    rcases harcs source target arc hleaves with
      ⟨rfl, rfl, rfl⟩ | ⟨rfl, rfl, rfl⟩ | ⟨rfl, rfl, rfl⟩
    · simp [hopen] at hquiet
    · rfl
    · simp [hclose] at hquiet
  · intro source target arc text other hleaves hopens
    rcases harcs source target arc hleaves with
      ⟨rfl, rfl, rfl⟩ | ⟨rfl, rfl, rfl⟩ | ⟨rfl, rfl, rfl⟩
    · obtain ⟨-, rfl⟩ := Label.opening.inj (hopen.symm.trans hopens)
      rfl
    · simp [hword] at hopens
    · simp [hclose] at hopens
  · intro source target arc text other hleaves hcloses
    rcases harcs source target arc hleaves with
      ⟨rfl, rfl, rfl⟩ | ⟨rfl, rfl, rfl⟩ | ⟨rfl, rfl, rfl⟩
    · simp [hopen] at hcloses
    · simp [hword] at hcloses
    · obtain ⟨-, rfl⟩ := Label.closing.inj (hclose.symm.trans hcloses)
      exact ⟨name, rfl, rfl⟩

/-- The innermost open tag is closed by the text of a closing arc. -/
theorem Task.ClosesInnermost.exists_top {task : Task} (hinnermost : task.ClosesInnermost)
    (hplain : task.grammar.PlainTags) {state : State} {target : Nat} {arc : Arc}
    {text name : String} (hreached : task.Reached state)
    (hleaves : (target, arc) ∈ task.grammar.transitions state.node)
    (hcloses : arc.label = .closing text name) :
    ∃ top below, state.openTags = top :: below ∧ Tag.baseName top = Tag.baseName name ∧
      Tag.closingTag top = text := by
  obtain ⟨top, below, hopen, htop⟩ := hinnermost state target arc text name hreached hleaves hcloses
  obtain ⟨hname, hclosing⟩ := Arc.tag_of_closing hcloses
  have htext := hplain.plain_of_closing hleaves hcloses
  refine ⟨top, below, hopen, htop, ?_⟩
  -- what is put out is made from the open tag, and matches the text of the arc
  calc Tag.closingTag top = "</" ++ Tag.baseName top ++ ">" := Tag.closingTag_eq top
    _ = "</" ++ Tag.baseName name ++ ">" := by rw [htop]
    _ = Tag.closingTag name := (Tag.closingTag_eq name).symm
    _ = text := (htext.closingTag_eq_of_isClosing hclosing hname).1

/-- In a regular task a closing arc puts out its own text. -/
theorem Task.Regular.output_closeTag {task : Task} (hregular : task.Regular) {state : State}
    {target : Nat} {arc : Arc} {text name : String} (hreached : task.Reached state)
    (hleaves : (target, arc) ∈ task.grammar.transitions state.node)
    (hcloses : arc.label = .closing text name) :
    (state.closeTag target text name).output = state.output ++ [text] := by
  obtain ⟨top, below, hopen, htop, hclosed⟩ :=
    hregular.closesInnermost.exists_top hregular.plainTags hreached hleaves hcloses
  simp only [State.closeTag, hopen, State.closedBy_innermost htop]
  show state.output ++ [Tag.closingTag top] = state.output ++ [text]
  rw [hclosed]

/-! ## What the output says of the rest of a state -/

namespace Tag

/-- Whether a callsign is open behind a token, if `inside` says so in front of it. -/
def callsignAfter (inside : Bool) (token : String) : Bool :=
  if token == callsignOpen then true
  else if token == callsignClose then false
  else inside

/-- Whether a callsign is open behind some tokens, going by its tags alone. -/
def insideCallsign (tokens : List String) : Bool :=
  tokens.foldl callsignAfter false

theorem insideCallsign_append_singleton (tokens : List String) (token : String) :
    insideCallsign (tokens ++ [token]) = callsignAfter (insideCallsign tokens) token := by
  rw [insideCallsign, List.foldl_append]
  rfl

theorem callsignAfter_opening {text : String} (hopens : isClosing text = false) (inside : Bool) :
    callsignAfter inside text = (text == callsignOpen || inside) := by
  have hnot : (text == callsignClose) = false := by
    refine beq_eq_false_iff_ne.mpr ?_
    rintro rfl
    exact absurd hopens (by decide)
  cases hcallsign : text == callsignOpen <;> simp [callsignAfter, hcallsign, hnot]

theorem callsignAfter_closing {text : String} (hcloses : isClosing text = true) (inside : Bool) :
    callsignAfter inside text = (text != callsignClose && inside) := by
  have hnot : (text == callsignOpen) = false := by
    refine beq_eq_false_iff_ne.mpr ?_
    rintro rfl
    exact absurd hcloses (by decide)
  cases hcallsign : text == callsignClose <;> simp [callsignAfter, hcallsign, hnot, bne]

theorem callsignAfter_word {text : String} (hword : tagName? text = none) (inside : Bool) :
    callsignAfter inside text = inside := by
  have hne : ∀ tag, (tagName? tag).isSome → (text == tag) = false := by
    intro tag htag
    refine beq_eq_false_iff_ne.mpr ?_
    rintro rfl
    rw [hword] at htag
    exact absurd htag (by decide)
  have hopen := hne callsignOpen (by decide)
  have hclose := hne callsignClose (by decide)
  simp [callsignAfter, hopen, hclose]

end Tag

variable {task : Task} {state other : State}

theorem Task.Reached.inCallsign_eq (hreached : task.Reached state) (hregular : task.Regular) :
    state.inCallsign = Tag.insideCallsign state.output := by
  induction hreached with
  | initial => rfl
  | @move state _ hstate hmove ih =>
      cases hmove with
      | pass _ _ => exact ih
      | openTag _ hopens _ =>
          have hopening := (Arc.tag_of_opening hopens).2
          simp only [State.openTag]
          rw [Tag.insideCallsign_append_singleton, Tag.callsignAfter_opening hopening, ih]
      | closeTag hleaves hcloses =>
          -- only here it matters that the arc puts out its own text
          have hclosing := (Arc.tag_of_closing hcloses).2
          rw [hregular.output_closeTag hstate hleaves hcloses,
            Tag.insideCallsign_append_singleton, Tag.callsignAfter_closing hclosing, ← ih]
          rfl
      | readWord _ hreads _ =>
          simp only [State.readWord]
          rw [Tag.insideCallsign_append_singleton,
            Tag.callsignAfter_word (Arc.untagged_of_reads hreads), ih]
      | skipWord _ _ _ => exact ih

/-- **A key stands for one state.**  In a regular task reached states with the same key
are the same. -/
theorem Task.Reached.eq_of_key_eq (hreached : task.Reached state) (hother : task.Reached other)
    (hregular : task.Regular) (hkey : StateKey.ofState state = StateKey.ofState other) :
    state = other := by
  obtain ⟨inside, halike⟩ :=
    hreached.alike_of_key_eq hother hregular.plainTags.solidTags hregular.words hkey
  -- whether a callsign is open follows from the output
  have hcallsign : inside = other.inCallsign := by
    calc inside = state.inCallsign := by rw [halike]
      _ = Tag.insideCallsign state.output := hreached.inCallsign_eq hregular
      _ = Tag.insideCallsign other.output := by rw [halike]
      _ = other.inCallsign := (hother.inCallsign_eq hregular).symm
  rw [halike, hcallsign]

/-! ## The small grammar is regular -/

theorem Grammar.arc_cases_of_greeting (source target : Nat) (arc : Arc)
    (hleaves : (target, arc) ∈ greeting.transitions source) :
    (source = 0 ∧ target = 1 ∧ arc = Arc.saying Tag.sentenceOpen) ∨
      (source = 1 ∧ target = 2 ∧ arc = Arc.saying "hello") ∨
      (source = 2 ∧ target = 3 ∧ arc = Arc.saying Tag.sentenceClose) := by
  simpa using arc_of_greeting hleaves

/-- Between its first and its last arc the tag of the sentence is open. -/
theorem Grammar.stacked_greeting :
    greeting.Stacked fun node => if node = 1 ∨ node = 2 then ["s"] else [] := by
  have hopen : (Arc.saying Tag.sentenceOpen).label = .opening Tag.sentenceOpen "s" := by decide
  have hword : (Arc.saying "hello").label = .word "hello" := by decide
  have hclose : (Arc.saying Tag.sentenceClose).label = .closing Tag.sentenceClose "s" := by decide
  exact stacked_of_single arc_cases_of_greeting hopen hword hclose

theorem Task.regular_greeting : Task.greeting.Regular := by
  have harcs : ∀ source target arc,
      (target, arc) ∈ Task.greeting.grammar.transitions source → _ :=
    Grammar.arc_cases_of_greeting
  refine ⟨?_, Grammar.stacked_greeting.closesInnermost, ?_, ?_⟩
  · intro source target arc hleaves htag
    rcases harcs source target arc hleaves with ⟨-, -, rfl⟩ | ⟨-, -, rfl⟩ | ⟨-, -, rfl⟩
    · exact Tag.plain_sentenceOpen
    · exact absurd htag (by decide)
    · exact Tag.plain_sentenceClose
  · -- each arc leads to the next node
    apply Grammar.noOpeningLoop_of_levels id
    · rintro source target ⟨arc, hleaves, -⟩
      rcases harcs source target arc hleaves with ⟨rfl, rfl, -⟩ | ⟨rfl, rfl, -⟩ | ⟨rfl, rfl, -⟩
      all_goals decide
    · rintro source target ⟨arc, text, name, hleaves, -⟩
      rcases harcs source target arc hleaves with ⟨rfl, rfl, -⟩ | ⟨rfl, rfl, -⟩ | ⟨rfl, rfl, -⟩
      all_goals decide
  · have hcut : ∀ heard ∈ Task.greeting.sentence, Text.words heard.token = [heard.token] := by
      decide
    intro heard hheard
    apply Text.isWord_of_mem_words
    rw [hcut heard hheard]
    exact List.mem_singleton_self _

end Phraseology
