import Phraseology.Proofs.Search.Paths
import Phraseology.Proofs.Transducer.Agreement
import Phraseology.Proofs.Vocabulary.Inside

/-!
# Pruning commands loses no run that was heard

A search leaves out the commands that the spoken words are no evidence for.  A run that goes
through a command reads its words on arcs inside the command (`Task.Path.exists_evidence`),
so a word that is evidence keeps the command (`Task.Path.relevant`).  The words that a search
compares are among those that the evidence is taken from, whatever was dropped before, and
no other tags than those of commands are pruned.  So a run in which each command was heard
is a run of the pruned search (`Transducer.pruning_sound`).
-/

namespace Phraseology

open Vocabulary (isEvidence EnteredBy CanHold Inside insideArcs mem_insideArcs_iff
  mem_irrelevantCommands_iff)

namespace Stride

/-- Whether a stride goes along an arc that opens a command. -/
def opensCommand : Stride → Bool
  | along _ arc => Tag.isCommandOpen arc.output
  | skip => false

/-- Whether a stride goes along an arc that closes a command. -/
def closesCommand : Stride → Bool
  | along _ arc => arc.output == Tag.commandClose
  | skip => false

/-- Whether a stride reads a word that is evidence for the commands it can stand in. -/
def readsEvidence : Stride → Bool
  | along _ arc =>
    match arc.label with
    | .word text => isEvidence text
    | _ => false
  | skip => false

end Stride

/-- Whether in each command of a run, up to the next arc that closes one or to the end, some
word is read that is evidence. -/
def Heeded (strides : List Stride) : Prop :=
  ∀ before opener after, strides = before ++ opener :: after → opener.opensCommand = true →
    (after.takeWhile (!·.closesCommand)).any (·.readsEvidence) = true

theorem heeded_cons_iff {opener : Stride} {after : List Stride} :
    Heeded (opener :: after) ↔
      (opener.opensCommand = true →
        (after.takeWhile (!·.closesCommand)).any (·.readsEvidence) = true) ∧ Heeded after := by
  constructor
  · intro hheeded
    refine ⟨hheeded [] opener after rfl, fun before other rest hsplit => ?_⟩
    exact hheeded (opener :: before) other rest (by rw [hsplit, List.cons_append])
  · rintro ⟨hopener, hafter⟩ before other rest hsplit hcommand
    cases before with
    | nil =>
        obtain ⟨rfl, rfl⟩ := List.cons.inj hsplit
        exact hopener hcommand
    | cons _ before =>
        obtain ⟨-, hsplit⟩ := List.cons.inj hsplit
        exact hafter before other rest hsplit hcommand

theorem heeded_nil : Heeded [] := by
  intro before opener after hsplit
  simp at hsplit

namespace Task

variable {task : Task} {state next last : State} {stride : Stride} {strides : List Stride}
  {target : Nat} {arc : Arc} {tag : String} {observations : List String}

/-- A search that leaves out no command. -/
def unpruned (task : Task) : Task :=
  { task with pruned := [] }

/-! ## Evidence on a run -/

/-- A stride that reads evidence goes along an arc with the word that comes next. -/
theorem Takes.exists_evidence (htakes : task.Takes state (.along target arc) next)
    (hevidence : (Stride.along target arc).readsEvidence = true) :
    ∃ heard ∈ state.unread, isEvidence heard.observation = true ∧
      heard.observation = arc.output := by
  unfold Stride.readsEvidence at hevidence
  simp only at hevidence
  split at hevidence
  · next text hlabel =>
      obtain ⟨heard, hunread, hword⟩ := htakes.unread_of_word hlabel
      have houtput : arc.output = text := by rw [← arc.text_label, hlabel, Label.text]
      refine ⟨heard, ?_, by rwa [hword], hword.trans houtput.symm⟩
      rw [hunread]
      exact List.mem_cons_self
  · cases hevidence

/-- Inside a command, a run reads only words that the command can hold. -/
theorem Path.exists_evidence (hpath : task.Path state strides last)
    (hinside : Inside task.grammar (EnteredBy task.grammar tag) state.node)
    (hevidence : (strides.takeWhile (!·.closesCommand)).any (·.readsEvidence) = true) :
    ∃ heard ∈ state.unread, isEvidence heard.observation = true ∧
      CanHold task.grammar tag heard.observation := by
  induction hpath with
  | nil => simp at hevidence
  | @cons state middle last stride strides htakes _ ih =>
      -- the stride stays inside the command, or nothing is read there any more
      cases hcloses : stride.closesCommand with
      | true => simp [hcloses] at hevidence
      | false =>
          rw [List.takeWhile_cons, hcloses, Bool.not_false, if_pos rfl, List.any_cons,
            Bool.or_eq_true] at hevidence
          cases stride with
          | skip =>
              have hlater := hevidence.resolve_left (by simp [Stride.readsEvidence])
              obtain ⟨heard, hheard, hword⟩ := ih (htakes.skip_node.symm ▸ hinside) hlater
              exact ⟨heard, htakes.unread_suffix.mem hheard, hword⟩
          | along target arc =>
              obtain ⟨hleaves, hnode⟩ := htakes.along_node
              have harc : (target, arc) ∈ insideArcs task.grammar state.node :=
                mem_insideArcs_iff.mpr ⟨hleaves, by simpa [Stride.closesCommand] using hcloses⟩
              rcases hevidence with hhere | hlater
              · obtain ⟨heard, hheard, hword, houtput⟩ := htakes.exists_evidence hhere
                exact ⟨heard, hheard, hword, state.node, target, arc, hinside, harc, houtput.symm⟩
              · obtain ⟨heard, hheard, hword⟩ := ih (hnode.symm ▸ hinside.along harc) hlater
                exact ⟨heard, htakes.unread_suffix.mem hheard, hword⟩

/-- No arc of a run in which each command was heeded is irrelevant to the words it is about. -/
theorem Path.relevant (hpath : task.Path state strides last) (hheeded : Heeded strides)
    (hobserved : ∀ heard ∈ state.unread, heard.observation ∈ observations)
    (hstride : .along target arc ∈ strides) :
    arc.output ∉ (Vocabulary.ofGrammar task.grammar).irrelevantCommands observations := by
  intro hirrelevant
  obtain ⟨⟨hcommand, -⟩, hunheard⟩ := mem_irrelevantCommands_iff.mp hirrelevant
  obtain ⟨before, after, rfl⟩ := List.append_of_mem hstride
  obtain ⟨middle, hbefore, hrest⟩ := hpath.split
  cases hrest with
  | @cons _ entered _ _ _ htakes hafter =>
      obtain ⟨hleaves, hnode⟩ := htakes.along_node
      have hentered : EnteredBy task.grammar arc.output entered.node :=
        ⟨middle.node, arc, hnode.symm ▸ hleaves, rfl⟩
      obtain ⟨heard, hheard, hevidence, hholds⟩ :=
        hafter.exists_evidence (.entry hentered) (hheeded _ _ _ rfl hcommand)
      have hunread := (hbefore.unread_suffix.mem (htakes.unread_suffix.mem hheard))
      exact hunheard _ (hobserved heard hunread) hevidence hholds

/-! ## Runs of the pruned search -/

theorem Takes.prune (htakes : task.unpruned.Takes state stride next)
    (hkept : ∀ target arc, stride = .along target arc → arc.output ∉ task.pruned) :
    task.Takes state stride next := by
  cases htakes with
  | @stay target arc _ hleaves hstays =>
      refine .stay hleaves ?_
      unfold State.stay? at hstays ⊢
      split at hstays
      · exact hstays
      · next text name hlabel =>
          have htext : text ∉ task.pruned := Arc.output_of_opening hlabel ▸ hkept target arc rfl
          simpa [htext, unpruned] using hstays
      · exact hstays
      · exact hstays
  | read hleaves hreads => exact .read hleaves hreads
  | skip hskips => exact .skip hskips

/-- A run along no pruned arc is a run of the pruned search. -/
theorem Path.prune (hpath : task.unpruned.Path state strides last)
    (hkept : ∀ target arc, .along target arc ∈ strides → arc.output ∉ task.pruned) :
    task.Path state strides last := by
  induction hpath with
  | nil => exact .nil
  | cons htakes _ ih =>
      have hfirst := htakes.prune fun target arc hstride =>
        hkept target arc (hstride ▸ List.mem_cons_self)
      exact .cons hfirst (ih fun target arc hstride =>
        hkept target arc (List.mem_cons_of_mem _ hstride))

end Task

/-! ## The search for a sentence -/

namespace Transducer

/-- What a search compares are observations of the sentence, whatever was dropped before. -/
theorem observation_mem_of_mem_sentence (transducer : Transducer) (phase : Phase)
    (options : ConvertOptions) (sentence : List String) :
    ∀ heard ∈ (transducer.task phase options sentence).sentence,
      heard.observation ∈ sentence.map Token.observation := by
  intro heard hheard
  have htoken : heard.token ∈ sentence :=
    (sentence_sublist transducer phase options sentence).mem (List.mem_map_of_mem hheard)
  rw [← heard.observed]
  exact List.mem_map_of_mem htoken

/-- **Pruning commands is sound.**  A run of the search without pruning, in which behind each
arc that opens a command and in front of the next `</command>` some word is read that is no
digit and no spelled letter, goes along no arc of a command that is irrelevant to the
sentence.  So it is also a run of the search with pruning. -/
theorem pruning_sound (grammar : Grammar) (airlines : AirlineTable) (settings : Settings)
    (phase : Phase) (options : ConvertOptions) (sentence : List String)
    {strides : List Stride} {last : State}
    (hpath : ((ofGrammar grammar airlines settings).task phase options sentence).unpruned.Path
      (State.initial ((ofGrammar grammar airlines settings).task phase options sentence).sentence)
      strides last)
    (hheeded : Heeded strides) :
    (∀ target arc, .along target arc ∈ strides → Tag.isCommandOpen arc.output = true →
      arc.output ∉ (Vocabulary.ofGrammar grammar).irrelevantCommands
        (sentence.map Token.observation)) ∧
    ((ofGrammar grammar airlines settings).task phase options sentence).Path
      (State.initial ((ofGrammar grammar airlines settings).task phase options sentence).sentence)
      strides last := by
  have hobserved := observation_mem_of_mem_sentence (ofGrammar grammar airlines settings) phase
    options sentence
  have hrelevant : ∀ target arc, .along target arc ∈ strides →
      arc.output ∉ (Vocabulary.ofGrammar grammar).irrelevantCommands
        (sentence.map Token.observation) := fun target arc hstride =>
    hpath.relevant hheeded hobserved hstride
  refine ⟨fun target arc hstride _ => hrelevant target arc hstride, hpath.prune ?_⟩
  intro target arc hstride hpruned
  have hpruned : arc.output ∈ (ofGrammar grammar airlines settings).prunedCommands sentence :=
    hpruned
  unfold prunedCommands at hpruned
  split at hpruned
  · exact hrelevant target arc hstride hpruned
  · exact absurd hpruned (by simp)

/-- A grammar with two commands. -/
def commandGrammar : Grammar :=
  (clearanceGrammar.addArc 1 6 (Arc.saying "<command=\"turn\">")).addArc 6 3 (Arc.saying "turn")

theorem outputs_commandGrammar {source target : Nat} {arc : Arc}
    (hleaves : (target, arc) ∈ commandGrammar.transitions source) :
    (source, target, arc.output) ∈ [(0, 1, "<s>"), (1, 2, "<command=\"climb\">"),
      (1, 6, "<command=\"turn\">"), (2, 3, "climb"), (3, 4, "</command>"), (4, 5, "</s>"),
      (6, 3, "turn")] :=
  List.mem_map_of_mem (f := fun leaving => (leaving.1, leaving.2.1, leaving.2.2.output))
    (Grammar.mem_arcs.mpr hleaves)

/-- In a turn nothing is said but that it is one. -/
theorem eq_of_canHold_turn {word : String}
    (hholds : CanHold commandGrammar "<command=\"turn\">" word) : word = "turn" := by
  have hleaves : ∀ node target arc, node = 6 ∨ node = 3 →
      (target, arc) ∈ insideArcs commandGrammar node → target = 3 ∧ arc.output = "turn" := by
    intro node target arc hnode hleaves
    obtain ⟨hleaves, hcloses⟩ := mem_insideArcs_iff.mp hleaves
    have harc := outputs_commandGrammar hleaves
    rcases hnode with rfl | rfl
    · simpa using harc
    · have hcloser : target = 4 ∧ arc.output = "</command>" := by simpa using harc
      exact absurd hcloser.2 hcloses
  have hinside : ∀ node,
      Inside commandGrammar (EnteredBy commandGrammar "<command=\"turn\">") node →
        node = 6 ∨ node = 3 := by
    intro node hinside
    induction hinside with
    | @entry node henters =>
        obtain ⟨source, arc, hopens, houtput⟩ := henters
        have harc := outputs_commandGrammar hopens
        rw [houtput] at harc
        have hnode : source = 1 ∧ node = 6 := by simpa using harc
        exact .inl hnode.2
    | along _ harc ih => exact .inr (hleaves _ _ _ ih harc).1
  obtain ⟨node, target, arc, hnode, harc, rfl⟩ := hholds
  exact (hleaves node target arc (hinside node hnode) harc).2

/-- A climb, word by word. -/
def climbStrides : List Stride :=
  [.along 1 (Arc.saying Tag.sentenceOpen), .along 2 (Arc.saying "<command=\"climb\">"),
    .along 3 (Arc.saying "climb"), .along 4 (Arc.saying Tag.commandClose),
    .along 5 (Arc.saying Tag.sentenceClose)]

/-- The search for a climb leaves out turns, but takes these strides. -/
theorem pruning_sound_climb :
    "<command=\"turn\">" ∈ ((ofGrammar commandGrammar .empty {}).task .strict {}
      ["climb"]).pruned ∧
    ∃ last, ((ofGrammar commandGrammar .empty {}).task .strict {} ["climb"]).Path
      (State.initial ((ofGrammar commandGrammar .empty {}).task .strict {} ["climb"]).sentence)
      climbStrides last := by
  have hirrelevant : "<command=\"turn\">" ∈ (Vocabulary.ofGrammar
      commandGrammar).irrelevantCommands (["climb"].map Token.observation) := by
    have hentered : EnteredBy commandGrammar "<command=\"turn\">" 6 :=
      ⟨1, _, List.mem_cons_of_mem _ (List.mem_cons_self ..), rfl⟩
    refine mem_irrelevantCommands_iff.mpr ⟨⟨by decide, 6, hentered⟩, fun word hword _ => ?_⟩
    have hclimb : Token.observation "climb" = "climb" := by decide
    rw [List.map_singleton, hclimb, List.mem_singleton] at hword
    subst hword
    intro hholds
    exact absurd (eq_of_canHold_turn hholds) (by decide)
  have hheeded : Heeded climbStrides := by
    simp only [climbStrides, heeded_cons_iff, heeded_nil, and_true]
    decide
  have hpath : ∃ last,
      ((ofGrammar commandGrammar .empty {}).task .strict {} ["climb"]).unpruned.Path
        (State.initial ((ofGrammar commandGrammar .empty {}).task .strict {} ["climb"]).sentence)
        climbStrides last :=
    ⟨_, .cons (.stay (List.mem_cons_self ..) rfl) <| .cons (.stay (List.mem_cons_self ..) rfl) <|
      .cons (.read (List.mem_cons_self ..) rfl) <| .cons (.stay (List.mem_cons_self ..) rfl) <|
      .cons (.stay (List.mem_cons_self ..) rfl) .nil⟩
  obtain ⟨last, hpath⟩ := hpath
  exact ⟨hirrelevant, last,
    (pruning_sound commandGrammar .empty {} .strict {} ["climb"] hpath hheeded).2⟩

end Transducer

end Phraseology
