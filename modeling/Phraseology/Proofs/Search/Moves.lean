import Phraseology.Proofs.Tag.Shape
import Phraseology.Search.Run

/-!
# The moves of a search

`Task.Move` lists the moves that lead on from a state, and `Task.Reached` the
states that moves lead to from the start of a sentence: the plain runs, without
queues, without keys and without pruning.  `mem_successors_iff` says that the
search takes exactly these moves.

Everything that holds of all reached states is proved by induction on
`Task.Reached`, with one case for each kind of move.
-/

namespace Phraseology

namespace Task

/-- A move from a state: along an arc without a word, along the arc of a tag that
is not pruned, along an arc with the word that comes next, or past that word,
where some arc has a word and the word may be skipped. -/
inductive Move (task : Task) (state : State) : State → Prop
  | pass {target : Nat} {arc : Arc}
      (leaves : (target, arc) ∈ task.grammar.transitions state.node)
      (silent : arc.label = .silent) : Move task state (state.pass target)
  | openTag {target : Nat} {arc : Arc} {text name : String}
      (leaves : (target, arc) ∈ task.grammar.transitions state.node)
      (opens : arc.label = .opening text name) (kept : text ∉ task.pruned) :
      Move task state (state.openTag target text name)
  | closeTag {target : Nat} {arc : Arc} {text name : String}
      (leaves : (target, arc) ∈ task.grammar.transitions state.node)
      (closes : arc.label = .closing text name) :
      Move task state (state.closeTag target text name)
  | readWord {target : Nat} {arc : Arc} {heard : Heard} {rest : List Heard}
      (leaves : (target, arc) ∈ task.grammar.transitions state.node)
      (reads : arc.label = .word heard.observation) (next : state.unread = heard :: rest) :
      Move task state (state.readWord target heard rest)
  | skipWord {cost : Nat} {heard : Heard} {rest : List Heard}
      (reading : ∃ target arc text, (target, arc) ∈ task.grammar.transitions state.node ∧
        arc.label = .word text)
      (next : state.unread = heard :: rest)
      (allowed : task.policy.skipCost? heard.observation state.inCallsign = some cost) :
      Move task state (state.skipWord cost heard rest)

/-- The states that moves lead to from the start of a sentence. -/
inductive Reached (task : Task) : State → Prop
  | initial : Reached task (State.initial task.sentence)
  | move {state next : State} : Reached task state → Move task state next → Reached task next

end Task

/-! ## What a label says of its text -/

namespace Arc

variable {arc : Arc} {text name : String}

theorem tag_of_opening (hlabel : arc.label = .opening text name) :
    Tag.tagName? text = some name ∧ Tag.isClosing text = false := by
  unfold label Label.ofText at hlabel
  split at hlabel
  · simp at hlabel
  · split at hlabel
    · split at hlabel <;> simp_all
    · simp at hlabel

theorem tag_of_closing (hlabel : arc.label = .closing text name) :
    Tag.tagName? text = some name ∧ Tag.isClosing text = true := by
  unfold label Label.ofText at hlabel
  split at hlabel
  · simp at hlabel
  · split at hlabel
    · split at hlabel <;> simp_all
    · simp at hlabel

theorem output_of_opening (hlabel : arc.label = .opening text name) : arc.output = text := by
  rw [← arc.text_label, hlabel, Label.text]

theorem output_of_closing (hlabel : arc.label = .closing text name) : arc.output = text := by
  rw [← arc.text_label, hlabel, Label.text]

theorem untagged_of_word (hlabel : arc.label = .word text) : Tag.tagName? text = none := by
  unfold label Label.ofText at hlabel
  split at hlabel
  · simp at hlabel
  · split at hlabel
    · split at hlabel <;> simp at hlabel
    · simp_all

/-- A word that an arc reads is no tag, with its confidence and in its own letter case. -/
theorem untagged_of_reads {heard : Heard} (hlabel : arc.label = .word heard.observation) :
    Tag.tagName? heard.token = none := by
  apply Tag.tagName?_eq_none_of_observation
  rw [heard.observed]
  exact untagged_of_word hlabel

end Arc

variable {task : Task} {state next : State}

/-! ## The search takes these moves -/

theorem Grammar.transitions_of_isTerminal {grammar : Grammar} {node : Nat}
    (hterminal : grammar.isTerminal node = true) : grammar.transitions node = [] := by
  unfold Grammar.isTerminal at hterminal
  unfold Grammar.transitions
  split at hterminal <;> simp_all

/-- The arcs of a grammar are those that leave some node. -/
theorem Grammar.mem_arcs {grammar : Grammar} {source target : Nat} {arc : Arc} :
    (source, target, arc) ∈ grammar.arcs ↔ (target, arc) ∈ grammar.transitions source := by
  simp only [Grammar.arcs, List.mem_flatMap, List.mem_map, Prod.exists, Prod.mk.injEq]
  constructor
  · rintro ⟨_, _, _, _, hleaves, rfl, rfl, rfl⟩
    exact hleaves
  · intro hleaves
    refine ⟨source, ?_, target, arc, hleaves, rfl, rfl, rfl⟩
    rw [Grammar.nodeIds, Std.TreeMap.mem_keys, ← Std.TreeMap.isSome_getElem?_iff_mem]
    unfold Grammar.transitions Grammar.node? at hleaves
    split at hleaves
    · next arcs hnode => rw [hnode]; rfl
    · simp at hleaves

theorem State.mem_staying_iff :
    next ∈ state.staying task ↔
      ∃ target arc, (target, arc) ∈ task.grammar.transitions state.node ∧
        state.stay? task.pruned target arc = some next := by
  simp only [State.staying, List.mem_filterMap, Prod.exists]

theorem State.mem_advancing_iff :
    next ∈ state.advancing task ↔
      (∃ target arc, (target, arc) ∈ task.grammar.transitions state.node ∧
        state.read? target arc = some next) ∨
      state.skip? task.policy (task.grammar.transitions state.node) = some next := by
  simp only [State.advancing, List.mem_append, List.mem_filterMap, Prod.exists,
    Option.mem_toList]

theorem State.move_of_stay? {target : Nat} {arc : Arc}
    (hleaves : (target, arc) ∈ task.grammar.transitions state.node)
    (hstay : state.stay? task.pruned target arc = some next) : task.Move state next := by
  unfold State.stay? at hstay
  split at hstay
  · next hlabel =>
      obtain rfl := Option.some.inj hstay
      exact .pass hleaves hlabel
  · next text name hlabel =>
      split at hstay
      · simp at hstay
      · next hkept =>
          obtain rfl := Option.some.inj hstay
          exact .openTag hleaves hlabel (by simpa using hkept)
  · next text name hlabel =>
      obtain rfl := Option.some.inj hstay
      exact .closeTag hleaves hlabel
  · simp at hstay

theorem State.read?_eq_some_iff {target : Nat} {arc : Arc} :
    state.read? target arc = some next ↔
      ∃ heard rest, arc.label = .word heard.observation ∧ state.unread = heard :: rest ∧
        next = state.readWord target heard rest := by
  unfold State.read?
  constructor
  · intro hread
    split at hread
    · next text heard rest hlabel hunread =>
        split at hread
        · next htext =>
            rw [eq_of_beq htext] at hlabel
            exact ⟨heard, rest, hlabel, hunread, (Option.some.inj hread).symm⟩
        · simp at hread
    · simp at hread
  · rintro ⟨heard, rest, hlabel, hunread, rfl⟩
    simp [hlabel, hunread]

theorem State.hasWord_eq_true_iff {arc : Arc} :
    State.hasWord arc = true ↔ ∃ text, arc.label = .word text := by
  unfold State.hasWord
  split <;> simp_all

theorem State.skip?_eq_some_iff {policy : SkipPolicy} {arcs : List (Nat × Arc)} :
    state.skip? policy arcs = some next ↔
      ∃ heard rest cost, (∃ target arc text, (target, arc) ∈ arcs ∧ arc.label = .word text) ∧
        state.unread = heard :: rest ∧
        policy.skipCost? heard.observation state.inCallsign = some cost ∧
        next = state.skipWord cost heard rest := by
  have hany : arcs.any (State.hasWord ·.2) = true ↔
      ∃ target arc text, (target, arc) ∈ arcs ∧ arc.label = .word text := by
    simp [List.any_eq_true, State.hasWord_eq_true_iff]
  unfold State.skip?
  constructor
  · intro hskip
    split at hskip
    · simp at hskip
    · next heard rest hunread =>
        split at hskip
        · next hword =>
            obtain ⟨cost, hcost, rfl⟩ := Option.map_eq_some_iff.mp hskip
            exact ⟨heard, rest, cost, hany.mp hword, hunread, hcost, rfl⟩
        · simp at hskip
  · rintro ⟨heard, rest, cost, hword, hunread, hcost, rfl⟩
    simp [hunread, hany.mpr hword, hcost]

/-- What the search puts into its queues is what moves lead to. -/
theorem mem_successors_iff :
    next ∈ (task.successors state).1 ∨ next ∈ (task.successors state).2 ↔
      task.Move state next := by
  have hsuccessors : task.successors state = (state.staying task, state.advancing task) := by
    unfold Task.successors
    split
    · next hterminal =>
        have hnone := Grammar.transitions_of_isTerminal hterminal
        have hskip : state.skip? task.policy [] = none := by
          unfold State.skip?
          split <;> simp
        simp [State.staying, State.advancing, hnone, hskip]
    · rfl
  rw [hsuccessors]
  constructor
  · rintro (hstay | hadvance)
    · obtain ⟨target, arc, hleaves, hstay⟩ := State.mem_staying_iff.mp hstay
      exact State.move_of_stay? hleaves hstay
    · rcases State.mem_advancing_iff.mp hadvance with ⟨target, arc, hleaves, hread⟩ | hskip
      · obtain ⟨heard, rest, hlabel, hunread, rfl⟩ := State.read?_eq_some_iff.mp hread
        exact .readWord hleaves hlabel hunread
      · obtain ⟨heard, rest, cost, hword, hunread, hcost, rfl⟩ := State.skip?_eq_some_iff.mp hskip
        exact .skipWord hword hunread hcost
  · intro hmove
    cases hmove with
    | pass hleaves hlabel =>
        exact Or.inl (State.mem_staying_iff.mpr ⟨_, _, hleaves, by simp [State.stay?, hlabel]⟩)
    | openTag hleaves hlabel hkept =>
        exact Or.inl
          (State.mem_staying_iff.mpr ⟨_, _, hleaves, by simp [State.stay?, hlabel, hkept]⟩)
    | closeTag hleaves hlabel =>
        exact Or.inl (State.mem_staying_iff.mpr ⟨_, _, hleaves, by simp [State.stay?, hlabel]⟩)
    | readWord hleaves hlabel hunread =>
        exact Or.inr (State.mem_advancing_iff.mpr (Or.inl
          ⟨_, _, hleaves, State.read?_eq_some_iff.mpr ⟨_, _, hlabel, hunread, rfl⟩⟩))
    | skipWord hword hunread hcost =>
        exact Or.inr (State.mem_advancing_iff.mpr (Or.inr
          (State.skip?_eq_some_iff.mpr ⟨_, _, _, hword, hunread, hcost, rfl⟩)))

/-- The names of open tags stand on one line. -/
theorem Task.Reached.newline_notMem_openTags (hreached : task.Reached state) :
    ∀ name ∈ state.openTags, '\n' ∉ name.toList := by
  induction hreached with
  | initial => simp [State.initial]
  | move _ hmove ih =>
      cases hmove with
      | pass _ _ => exact ih
      | openTag _ hopens _ =>
          intro name hname
          rcases List.mem_cons.mp hname with rfl | hname
          · exact Tag.newline_notMem_of_tagName? (Arc.tag_of_opening hopens).1
          · exact ih name hname
      | closeTag _ _ => exact fun name hname => ih name (List.mem_of_mem_drop hname)
      | readWord _ _ _ => exact ih
      | skipWord _ _ _ => exact ih

/-! ## A small grammar -/

/-- An arc that reads and puts out a text. -/
def Arc.saying (text : String) : Arc where
  input := text
  output := text
  weight := none

/-- A grammar whose only sentence is a greeting. -/
def Grammar.greeting : Grammar :=
  ((((Grammar.empty "greeting").addArc 0 1 (Arc.saying Tag.sentenceOpen)).addArc 1 2
    (Arc.saying "hello")).addArc 2 3 (Arc.saying Tag.sentenceClose)).markTerminal 3

theorem Grammar.arc_of_greeting {source target : Nat} {arc : Arc}
    (hleaves : (target, arc) ∈ greeting.transitions source) :
    (source, target, arc) ∈ [(0, 1, Arc.saying Tag.sentenceOpen), (1, 2, Arc.saying "hello"),
      (2, 3, Arc.saying Tag.sentenceClose)] := by
  have harcs := mem_arcs.mpr hleaves
  exact harcs

/-- The search for a greeting behind some noise. -/
def Task.greeting : Task where
  grammar := .greeting
  sentence := ["_sil_", "hello:0.9"].map Heard.ofToken
  pruned := []
  policy :=
    { allowSkip := false
      noiseMarkers := .ofList ["_sil_"]
      callsignWhitelist := ∅
      airlines := ∅ }
  phase := .strict

/-- The state behind the greeting. -/
def State.greeted : State where
  node := 3
  output := [Tag.sentenceOpen, "hello:0.9", Tag.sentenceClose]
  openTags := []
  tagCost := 0
  skips := 0
  skipped := ["_sil_"]
  inCallsign := false
  unread := []

theorem Task.reached_greeted : Task.greeting.Reached State.greeted := by
  have hopened : Task.greeting.Reached
      ((State.initial Task.greeting.sentence).openTag 1 Tag.sentenceOpen "s") :=
    .move .initial (.openTag (List.mem_cons_self ..) (by decide) (by decide))
  have hskipped : Task.greeting.Reached
      (((State.initial Task.greeting.sentence).openTag 1 Tag.sentenceOpen "s").skipWord 0
        (Heard.ofToken "_sil_") [Heard.ofToken "hello:0.9"]) :=
    hopened.move (.skipWord ⟨2, _, "hello", List.mem_cons_self .., by decide⟩ rfl (by decide))
  have hread := hskipped.move (.readWord (List.mem_cons_self ..) (by decide) rfl)
  have hcloses : (Arc.saying Tag.sentenceClose).label = .closing Tag.sentenceClose "s" := by decide
  exact hread.move (.closeTag (List.mem_cons_self ..) hcloses)

end Phraseology
