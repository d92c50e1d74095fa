import Std.Data.TreeMap
import Std.Data.TreeSet
import Phraseology.Alphabet
import Phraseology.Grammar.Basic
import Phraseology.Text.Case

/-!
# What a grammar can put out

The vocabulary of a grammar is the set of the texts on its arcs.  The vocabulary
of a command is what can come between the tag that opens it and the next tag
that closes a command.  A command none of whose words was spoken, spelled letters
and digits apart, cannot occur in a sentence.
-/

namespace Phraseology

/-- The texts that the arcs of a grammar put out, overall and for each command
tag. -/
structure Vocabulary where
  words : Std.TreeSet String
  commands : Std.TreeMap String (Std.TreeSet String)

namespace Vocabulary

/-- The arcs that go on inside a command: all that leave a node except those that
close a command. -/
def insideArcs (grammar : Grammar) (node : Nat) : List (Nat × Arc) :=
  (grammar.transitions node).filter fun (_, arc) => arc.output != Tag.commandClose

/-- The nodes of a grammar that are not in a set. -/
def unvisited (grammar : Grammar) (visited : Std.TreeSet Nat) : List Nat :=
  grammar.nodeIds.filter (!visited.contains ·)

theorem length_unvisited_insert_lt {grammar : Grammar} {visited : Std.TreeSet Nat} {node : Nat}
    (known : (grammar.node? node).isSome) (new : visited.contains node = false) :
    (unvisited grammar (visited.insert node)).length < (unvisited grammar visited).length := by
  have hfilter : unvisited grammar (visited.insert node) =
      (unvisited grammar visited).filter (· != node) := by
    unfold unvisited
    rw [List.filter_filter]
    apply List.filter_congr
    intro m _
    rw [Std.TreeSet.contains_insert]
    by_cases h : m = node
    · subst h
      simp
    · have hne : (compare node m == .eq) = false := by
        rw [beq_eq_false_iff_ne]
        intro heq
        exact h (Std.LawfulEqCmp.eq_of_compare heq).symm
      simp [h, hne]
  rw [hfilter]
  apply List.length_filter_lt_length_iff_exists.2
  have listed : node ∈ grammar.nodeIds := by
    rw [Grammar.nodeIds, Std.TreeMap.mem_keys, ← Std.TreeMap.isSome_getElem?_iff_mem]
    exact known
  exact ⟨node, List.mem_filter.2 ⟨listed, by simp [new]⟩, by simp⟩

/-- The nodes that are reached from pending ones without closing a command.  A
node that the grammar does not list has no arcs and is not visited. -/
def reach (grammar : Grammar) (visited : Std.TreeSet Nat) : List Nat → Std.TreeSet Nat
  | [] => visited
  | node :: pending =>
    if h : (grammar.node? node).isSome ∧ visited.contains node = false then
      have := length_unvisited_insert_lt h.1 h.2
      reach grammar (visited.insert node)
        ((insideArcs grammar node).map (·.1) ++ pending)
    else reach grammar visited pending
termination_by pending => ((unvisited grammar visited).length, pending.length)

/-- The texts that can come after entering a command at one of some nodes. -/
def insideCommand (grammar : Grammar) (entries : List Nat) : Std.TreeSet String :=
  (reach grammar ∅ entries).toList.foldl (fun words node =>
    (insideArcs grammar node).foldl (fun words (_, arc) => words.insert arc.output) words) ∅

/-- The nodes at which each command is entered, by the tag that opens it. -/
def commandEntries (grammar : Grammar) : Std.TreeMap String (List Nat) :=
  grammar.arcs.foldl (fun entries (_, target, arc) =>
    if Tag.isCommandOpen arc.output then
      entries.insert arc.output (target :: (entries[arc.output]?.getD []))
    else entries) ∅

/-- The vocabulary of a grammar. -/
def ofGrammar (grammar : Grammar) : Vocabulary where
  words := Std.TreeSet.ofList (grammar.arcs.map fun (_, _, arc) => arc.output)
  commands := (commandEntries grammar).map fun _ entries => insideCommand grammar entries

/-- Whether a grammar can put out a word, in whatever letter case it is given. -/
def contains (vocabulary : Vocabulary) (word : String) : Bool :=
  vocabulary.words.contains (Text.lower word)

/-- The tags of the commands, sorted. -/
def commandTags (vocabulary : Vocabulary) : List String :=
  vocabulary.commands.keys

/-- Whether a spoken word is evidence for the commands it can stand in.  Digits
and spelled letters stand in most of them and are none. -/
def isEvidence (word : String) : Bool :=
  !Alphabet.isDigit word && !Alphabet.isLetter word

/-- The tags of the commands that none of the spoken words is evidence for. -/
def irrelevantCommands (vocabulary : Vocabulary) (observations : List String) : List String :=
  let evidence := observations.filter isEvidence
  vocabulary.commandTags.filter fun tag =>
    match vocabulary.commands[tag]? with
    | some words => evidence.all (!words.contains ·)
    | none => true

end Vocabulary

end Phraseology
