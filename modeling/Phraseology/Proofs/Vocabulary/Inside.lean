import Phraseology.Proofs.Search.Moves
import Phraseology.Vocabulary

/-!
# What a command can hold

A command is entered along an arc that puts out its tag, and left along an arc that puts out
`</command>`.  `Inside` are the nodes between the two, and `CanHold` says which texts stand on
the arcs between them.  The vocabulary is computed by a worklist, by folds over sets and by a
fold over a map; here each of these is shown to compute just what these relations say:

* `mem_reach_iff`: the worklist finds the nodes inside a command that the grammar lists;
* `mem_insideCommand_iff`: so the texts of a command are those on the arcs between them;
* `mem_irrelevantCommands_iff`: a command is irrelevant to some spoken words if it can hold
  none of those that are evidence.
-/

namespace Phraseology.Vocabulary

variable {grammar : Grammar} {entered : Nat → Prop} {visited : Std.TreeSet Nat}
  {pending entries : List Nat} {node target : Nat} {arc : Arc} {tag text : String}

/-- The nodes between where a command is entered and where one is closed. -/
inductive Inside (grammar : Grammar) (entered : Nat → Prop) : Nat → Prop
  | entry {node : Nat} (enters : entered node) : Inside grammar entered node
  | along {node target : Nat} {arc : Arc} (inside : Inside grammar entered node)
      (leaves : (target, arc) ∈ insideArcs grammar node) : Inside grammar entered target

/-- Whether some arc with a text leads to a node. -/
def EnteredBy (grammar : Grammar) (tag : String) (node : Nat) : Prop :=
  ∃ source arc, (node, arc) ∈ grammar.transitions source ∧ arc.output = tag

/-- Whether a text can come behind a tag and in front of the next `</command>`. -/
def CanHold (grammar : Grammar) (tag text : String) : Prop :=
  ∃ node target arc, Inside grammar (EnteredBy grammar tag) node ∧
    (target, arc) ∈ insideArcs grammar node ∧ arc.output = text

theorem mem_insideArcs_iff :
    (target, arc) ∈ insideArcs grammar node ↔
      (target, arc) ∈ grammar.transitions node ∧ arc.output ≠ Tag.commandClose := by
  rw [insideArcs, List.mem_filter, bne_iff_ne]

/-- A node that the grammar does not list has no arcs. -/
theorem isSome_node?_of_mem_insideArcs (hleaves : (target, arc) ∈ insideArcs grammar node) :
    (grammar.node? node).isSome := by
  have htransitions := (mem_insideArcs_iff.mp hleaves).1
  unfold Grammar.transitions at htransitions
  split at htransitions
  · next hnode =>
      rw [hnode]
      rfl
  · simp at htransitions

/-! ## The nodes inside a command -/

/-- Whether all listed nodes that arcs lead to from a visited node are visited or pending. -/
def ClosedUpTo (grammar : Grammar) (visited : Std.TreeSet Nat) (pending : List Nat) : Prop :=
  ∀ node target arc, node ∈ visited → (target, arc) ∈ insideArcs grammar node →
    (grammar.node? target).isSome → target ∈ visited ∨ target ∈ pending

theorem mem_insert_iff {other : Nat} :
    other ∈ visited.insert node ↔ node = other ∨ other ∈ visited := by
  rw [Std.TreeSet.mem_insert, Std.LawfulEqCmp.compare_eq_iff_eq]

/-- The worklist finds what is visited or pending, and what arcs lead to from what it finds. -/
theorem reach_closed (hclosed : ClosedUpTo grammar visited pending) :
    ClosedUpTo grammar (reach grammar visited pending) [] ∧
      (∀ node ∈ visited, node ∈ reach grammar visited pending) ∧
      ∀ node ∈ pending, (grammar.node? node).isSome → node ∈ reach grammar visited pending := by
  induction visited, pending using reach.induct grammar with
  | case1 visited =>
      rw [reach]
      exact ⟨hclosed, fun _ h => h, by simp⟩
  | case2 visited node pending hnew _ ih =>
      have hstep : ClosedUpTo grammar (visited.insert node)
          ((insideArcs grammar node).map (·.1) ++ pending) := by
        intro other target arc hother hleaves hlisted
        rw [mem_insert_iff, List.mem_append]
        rcases mem_insert_iff.mp hother with rfl | hvisited
        · exact .inr (.inl (List.mem_map_of_mem hleaves))
        · rcases hclosed other target arc hvisited hleaves hlisted with hmem | hmem
          · exact .inl (.inr hmem)
          · rcases List.mem_cons.mp hmem with rfl | hmem
            · exact .inl (.inl rfl)
            · exact .inr (.inr hmem)
      obtain ⟨hend, hvisited, hpending⟩ := ih hstep
      rw [reach, dif_pos hnew]
      refine ⟨hend, fun other hother => hvisited other (mem_insert_iff.mpr (.inr hother)), ?_⟩
      intro other hother hlisted
      rcases List.mem_cons.mp hother with rfl | hother
      · exact hvisited other (mem_insert_iff.mpr (.inl rfl))
      · exact hpending other (List.mem_append_right _ hother) hlisted
  | case3 visited node pending hold ih =>
      have hmet : (grammar.node? node).isSome → node ∈ visited := by
        intro hlisted
        rw [Std.TreeSet.mem_iff_contains, ← Bool.not_eq_false]
        exact fun hnew => hold ⟨hlisted, hnew⟩
      have hstep : ClosedUpTo grammar visited pending := by
        intro other target arc hother hleaves hlisted
        rcases hclosed other target arc hother hleaves hlisted with hmem | hmem
        · exact .inl hmem
        · rcases List.mem_cons.mp hmem with rfl | hmem
          · exact .inl (hmet hlisted)
          · exact .inr hmem
      obtain ⟨hend, hvisited, hpending⟩ := ih hstep
      rw [reach, dif_neg hold]
      refine ⟨hend, hvisited, fun other hother hlisted => ?_⟩
      rcases List.mem_cons.mp hother with rfl | hother
      · exact hvisited other (hmet hlisted)
      · exact hpending other hother hlisted

/-- The worklist finds nothing but nodes inside the command. -/
theorem inside_of_mem_reach
    (hvisited : ∀ node ∈ visited, Inside grammar entered node ∧ (grammar.node? node).isSome)
    (hpending : ∀ node ∈ pending, Inside grammar entered node) :
    ∀ node ∈ reach grammar visited pending,
      Inside grammar entered node ∧ (grammar.node? node).isSome := by
  induction visited, pending using reach.induct grammar with
  | case1 visited =>
      rw [reach]
      exact hvisited
  | case2 visited node pending hnew _ ih =>
      obtain ⟨hnode, hpending⟩ := List.forall_mem_cons.mp hpending
      rw [reach, dif_pos hnew]
      refine ih (fun other hother => ?_) ?_
      · rcases mem_insert_iff.mp hother with rfl | hother
        · exact ⟨hnode, hnew.1⟩
        · exact hvisited other hother
      · refine List.forall_mem_append.mpr ⟨fun other hother => ?_, hpending⟩
        obtain ⟨⟨target, arc⟩, hleaves, rfl⟩ := List.mem_map.mp hother
        exact hnode.along hleaves
  | case3 visited node pending hold ih =>
      rw [reach, dif_neg hold]
      exact ih hvisited (List.forall_mem_cons.mp hpending).2

/-- The worklist finds the nodes inside a command that the grammar lists. -/
theorem mem_reach_iff :
    node ∈ reach grammar ∅ entries ↔
      Inside grammar (· ∈ entries) node ∧ (grammar.node? node).isSome := by
  constructor
  · exact inside_of_mem_reach (by simp) (fun _ hentry => .entry hentry) node
  · rintro ⟨hinside, hlisted⟩
    have hnone : ClosedUpTo grammar ∅ entries := by
      intro other target arc hother
      simp at hother
    obtain ⟨hclosed, -, hentries⟩ := reach_closed hnone
    induction hinside with
    | entry henters => exact hentries _ henters hlisted
    | along _ hleaves ih =>
        have hbefore := ih (isSome_node?_of_mem_insideArcs hleaves)
        exact (hclosed _ _ _ hbefore hleaves hlisted).resolve_right (by simp)

/-! ## The texts of a command -/

/-- What holds of a fold holds at its start or is brought about by some step. -/
theorem foldl_iff {α β : Type} (Holds : β → Prop) (Adds : α → Prop) {step : β → α → β}
    (hstep : ∀ acc x, Holds (step acc x) ↔ Holds acc ∨ Adds x) (acc : β) (xs : List α) :
    Holds (xs.foldl step acc) ↔ Holds acc ∨ ∃ x ∈ xs, Adds x := by
  induction xs generalizing acc with
  | nil => simp
  | cons x xs ih =>
      rw [List.foldl_cons, ih, hstep, or_assoc]
      simp

/-- The texts of a command are those on the arcs between its nodes. -/
theorem mem_insideCommand_iff :
    text ∈ insideCommand grammar entries ↔
      ∃ node target arc, Inside grammar (· ∈ entries) node ∧
        (target, arc) ∈ insideArcs grammar node ∧ arc.output = text := by
  have harcs : ∀ (words : Std.TreeSet String) (node : Nat),
      text ∈ (insideArcs grammar node).foldl
          (fun words (leaving : Nat × Arc) => words.insert leaving.2.output) words ↔
        text ∈ words ∨ ∃ leaving ∈ insideArcs grammar node, leaving.2.output = text := by
    intro words node
    refine foldl_iff (fun words : Std.TreeSet String => text ∈ words) _ (fun words leaving => ?_)
      words _
    rw [Std.TreeSet.mem_insert, Std.LawfulEqCmp.compare_eq_iff_eq, or_comm]
  rw [insideCommand]
  refine (foldl_iff (fun words : Std.TreeSet String => text ∈ words) _ harcs ∅ _).trans ?_
  simp only [Std.TreeSet.not_mem_emptyc, false_or, Std.TreeSet.mem_toList, mem_reach_iff,
    Prod.exists]
  constructor
  · rintro ⟨node, ⟨hinside, -⟩, target, arc, hleaves, htext⟩
    exact ⟨node, target, arc, hinside, hleaves, htext⟩
  · rintro ⟨node, target, arc, hinside, hleaves, htext⟩
    exact ⟨node, ⟨hinside, isSome_node?_of_mem_insideArcs hleaves⟩, target, arc, hleaves, htext⟩

/-! ## The commands -/

/-- Whether an arc opens the command with a tag. -/
def Opens (tag : String) (leaving : Nat × Nat × Arc) : Prop :=
  Tag.isCommandOpen leaving.2.2.output = true ∧ leaving.2.2.output = tag

theorem exists_opens_iff (Reaches : Nat → Prop) :
    (∃ leaving ∈ grammar.arcs, Opens tag leaving ∧ Reaches leaving.2.1) ↔
      Tag.isCommandOpen tag = true ∧ ∃ node, EnteredBy grammar tag node ∧ Reaches node := by
  simp only [Prod.exists, Grammar.mem_arcs, EnteredBy, Opens]
  constructor
  · rintro ⟨source, target, arc, hleaves, ⟨hopens, rfl⟩, hreaches⟩
    exact ⟨hopens, target, ⟨source, arc, hleaves, rfl⟩, hreaches⟩
  · rintro ⟨hopens, target, ⟨source, arc, hleaves, rfl⟩, hreaches⟩
    exact ⟨source, target, arc, hleaves, ⟨hopens, rfl⟩, hreaches⟩

/-- What holds of the entry of a tag once some nodes have been added to it, if each node adds
to it by itself. -/
theorem commandEntries_iff (Holds : Option (List Nat) → Prop) (Reaches : Nat → Prop)
    (hnone : ¬ Holds none)
    (hadd : ∀ entry node, Holds (some (node :: entry.getD [])) ↔ Holds entry ∨ Reaches node) :
    Holds (commandEntries grammar)[tag]? ↔
      Tag.isCommandOpen tag = true ∧ ∃ node, EnteredBy grammar tag node ∧ Reaches node := by
  rw [commandEntries]
  refine (foldl_iff (fun entries : Std.TreeMap String (List Nat) => Holds entries[tag]?)
    (fun leaving : Nat × Nat × Arc => Opens tag leaving ∧ Reaches leaving.2.1)
    (fun entries leaving => ?_) ∅ _).trans ?_
  · obtain ⟨source, target, arc⟩ := leaving
    simp only [Opens]
    split
    · next hopens =>
        rw [Std.TreeMap.getElem?_insert]
        by_cases htag : arc.output = tag
        · subst htag
          simp [hopens, hadd]
        · simp [htag]
    · next hopens => simp [hopens]
  · exact (or_iff_right (by simpa using hnone)).trans (exists_opens_iff Reaches)

/-- The nodes at which a command is entered, if it has a tag of its own. -/
theorem mem_commandEntries_iff :
    node ∈ (commandEntries grammar)[tag]?.getD [] ↔
      Tag.isCommandOpen tag = true ∧ EnteredBy grammar tag node := by
  refine (commandEntries_iff (node ∈ ·.getD []) (node = ·) (by simp) ?_).trans (by simp)
  intro entry other
  rw [Option.getD_some, List.mem_cons, or_comm]

/-- The commands are those that are entered somewhere. -/
theorem isSome_commandEntries_iff :
    (commandEntries grammar)[tag]?.isSome ↔
      Tag.isCommandOpen tag = true ∧ ∃ node, EnteredBy grammar tag node := by
  refine (commandEntries_iff (·.isSome = true) (fun _ => True) (by simp) ?_).trans (by simp)
  intro entry other
  simp

/-- The texts of a command are those that it can hold. -/
theorem commands_eq_some_iff {words : Std.TreeSet String} :
    (ofGrammar grammar).commands[tag]? = some words ↔
      ∃ entries, (commandEntries grammar)[tag]? = some entries ∧
        insideCommand grammar entries = words := by
  rw [ofGrammar, Std.TreeMap.getElem?_map, Option.map_eq_some_iff]

theorem mem_commands_iff {words : Std.TreeSet String}
    (hwords : (ofGrammar grammar).commands[tag]? = some words) :
    text ∈ words ↔ CanHold grammar tag text := by
  obtain ⟨entries, hentries, rfl⟩ := commands_eq_some_iff.mp hwords
  have hcommand : Tag.isCommandOpen tag = true :=
    (isSome_commandEntries_iff.mp (Option.isSome_of_eq_some hentries)).1
  have hentered : (· ∈ entries) = EnteredBy grammar tag := by
    funext node
    have hnode : node ∈ (commandEntries grammar)[tag]?.getD [] ↔ _ := mem_commandEntries_iff
    rw [hentries, Option.getD_some] at hnode
    exact propext (hnode.trans (and_iff_right hcommand))
  rw [mem_insideCommand_iff, hentered]
  rfl

/-- A command is irrelevant to some words if it can hold none of those that are evidence. -/
theorem mem_irrelevantCommands_iff {observations : List String} :
    tag ∈ (ofGrammar grammar).irrelevantCommands observations ↔
      (Tag.isCommandOpen tag = true ∧ ∃ node, EnteredBy grammar tag node) ∧
        ∀ word ∈ observations, isEvidence word = true → ¬ CanHold grammar tag word := by
  have hlisted : tag ∈ (ofGrammar grammar).commandTags ↔
      ∃ words, (ofGrammar grammar).commands[tag]? = some words := by
    rw [commandTags, Std.TreeMap.mem_keys, ← Std.TreeMap.isSome_getElem?_iff_mem,
      Option.isSome_iff_exists]
  have hentered : (∃ words, (ofGrammar grammar).commands[tag]? = some words) ↔
      Tag.isCommandOpen tag = true ∧ ∃ node, EnteredBy grammar tag node := by
    rw [← isSome_commandEntries_iff, ← Option.isSome_iff_exists, ofGrammar,
      Std.TreeMap.getElem?_map, Option.isSome_map]
  rw [irrelevantCommands, List.mem_filter, hlisted, ← hentered]
  refine and_congr_right fun ⟨words, hwords⟩ => ?_
  have hheld : ∀ word, words.contains word = true ↔ CanHold grammar tag word := fun word => by
    rw [← Std.TreeSet.mem_iff_contains, mem_commands_iff hwords]
  simp only [hwords, List.all_eq_true, List.mem_filter, and_imp, Bool.not_eq_true', ← hheld,
    Bool.not_eq_true]

end Phraseology.Vocabulary
