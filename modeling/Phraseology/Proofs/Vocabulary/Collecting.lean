import Mathlib.Data.Finset.Card
import Mathlib.Data.Prod.Lex
import Mathlib.Logic.Relation
import Phraseology.Proofs.Vocabulary.Inside

/-!
# Collecting the texts of a command

`reach` meets a node once, and the texts are read off the nodes afterwards.  A collector that
does both at a time, and that marks a node only when its turn comes, may find a node on its
stack several times, and it follows the arcs of such a node again each time (`Collector.step?`).

* Targets that are marked are not stacked.  So a step marks a node, or it takes a marked node
  off the stack and stacks none: `Collector.remaining` falls, and in every grammar, with loops or
  without, a collector comes to its end (`Collector.exists_end`).
* What it has collected by then are the texts on the arcs between the nodes of the command
  (`Collector.mem_words_iff`), in whatever order the nodes were stacked at which the command is
  entered.  So it collects what the vocabulary lists (`commands_exact`).
-/

namespace Phraseology.Vocabulary

open Relation

/-- The texts collected so far, the nodes that are marked, and those whose turn comes, the next
one first. -/
structure Collector where
  words : Std.TreeSet String
  seen : Std.TreeSet Nat
  pending : List Nat

namespace Collector

/-- A collector at the nodes at which a command is entered. -/
def start (entries : List Nat) : Collector where
  words := ∅
  seen := ∅
  pending := entries

/-- Marks the next node, collects the texts of its arcs, and stacks those of their targets that
are not marked, the last one on top. -/
def step? (grammar : Grammar) (collector : Collector) : Option Collector :=
  match collector.pending with
  | [] => none
  | node :: pending =>
    let seen := collector.seen.insert node
    let targets := (insideArcs grammar node).map (·.1)
    some
      { words := (insideArcs grammar node).foldl
          (fun words leaving => words.insert leaving.2.output) collector.words
        seen
        pending := (targets.filter (!seen.contains ·)).reverse ++ pending }

/-- One step follows the other. -/
def Next (grammar : Grammar) (now later : Collector) : Prop :=
  now.step? grammar = some later

variable {grammar : Grammar} {entries pending : List Nat} {now later last : Collector}
  {node target : Nat} {arc : Arc} {tag text : String}

theorem step?_eq_none_iff : now.step? grammar = none ↔ now.pending = [] := by
  unfold step?
  cases now.pending <;> simp

/-! ## What a step does -/

/-- What a step marks, collects and stacks. -/
structure Follows (grammar : Grammar) (node : Nat) (pending : List Nat) (now later : Collector) :
    Prop where
  taken : now.pending = node :: pending
  seen : ∀ other, other ∈ later.seen ↔ other = node ∨ other ∈ now.seen
  words : ∀ text, text ∈ later.words ↔
    text ∈ now.words ∨ ∃ target arc, (target, arc) ∈ insideArcs grammar node ∧ arc.output = text
  stacked : ∃ targets, later.pending = targets ++ pending ∧
    ∀ target, target ∈ targets ↔
      (∃ arc, (target, arc) ∈ insideArcs grammar node) ∧ target ∉ later.seen

theorem Next.follows (hnext : Next grammar now later) :
    ∃ node pending, Follows grammar node pending now later := by
  obtain ⟨words, seen, stack⟩ := now
  cases stack with
  | nil => simp [Next, step?] at hnext
  | cons node pending =>
      obtain rfl := Option.some.inj hnext
      refine ⟨node, pending, rfl, fun other => ?_, fun text => ?_, _, rfl, fun target => ?_⟩
      · rw [mem_insert_iff, eq_comm]
      · refine (foldl_iff (fun words : Std.TreeSet String => text ∈ words)
          (fun leaving : Nat × Arc => leaving.2.output = text) (fun words leaving => ?_)
          words _).trans ?_
        · rw [Std.TreeSet.mem_insert, Std.LawfulEqCmp.compare_eq_iff_eq, or_comm]
        · simp only [Prod.exists]
      · rw [List.mem_reverse, List.mem_filter, Bool.not_eq_true', ← Bool.not_eq_true,
          ← Std.TreeSet.mem_iff_contains, List.mem_map]
        simp only [Prod.exists, exists_and_right, exists_eq_right]

/-! ## The end -/

/-- The nodes that may still have to be marked. -/
def unseen (grammar : Grammar) (collector : Collector) : Finset Nat :=
  ((grammar.arcs.map (·.2.1)).toFinset ∪ collector.pending.toFinset).filter (· ∉ collector.seen)

theorem mem_unseen_iff : node ∈ now.unseen grammar ↔
    ((∃ source arc, (node, arc) ∈ grammar.transitions source) ∨ node ∈ now.pending) ∧
      node ∉ now.seen := by
  simp only [unseen, Finset.mem_filter, Finset.mem_union, List.mem_toFinset, List.mem_map,
    Prod.exists, Grammar.mem_arcs]
  grind

/-- What is left to be done: nodes to be marked, and marked nodes to be taken off the stack. -/
def remaining (grammar : Grammar) (collector : Collector) : Nat ×ₗ Nat :=
  toLex ((collector.unseen grammar).card, collector.pending.countP (· ∈ collector.seen))

theorem remaining_lt (hnext : Next grammar now later) :
    later.remaining grammar < now.remaining grammar := by
  obtain ⟨node, pending, hfollows⟩ := hnext.follows
  obtain ⟨targets, hstack, htargets⟩ := hfollows.stacked
  have hpart : later.unseen grammar ⊆ now.unseen grammar := by
    intro other hother
    obtain ⟨hplace, hunseen⟩ := mem_unseen_iff.mp hother
    have hearlier : other ∉ now.seen := fun hseen =>
      hunseen ((hfollows.seen other).mpr (.inr hseen))
    refine mem_unseen_iff.mpr ⟨?_, hearlier⟩
    rcases hplace with hleads | hpending
    · exact .inl hleads
    · rw [hstack, List.mem_append] at hpending
      rcases hpending with htarget | hpending
      · obtain ⟨⟨arc, hleaves⟩, -⟩ := (htargets other).mp htarget
        exact .inl ⟨node, arc, (mem_insideArcs_iff.mp hleaves).1⟩
      · rw [hfollows.taken]
        exact .inr (List.mem_cons_of_mem node hpending)
  rw [remaining, remaining, Prod.Lex.toLex_lt_toLex]
  by_cases hseen : node ∈ now.seen
  · -- a marked node is taken off the stack, and only unmarked ones are stacked
    have hsame : ∀ other, other ∈ later.seen ↔ other ∈ now.seen := by
      intro other
      rw [hfollows.seen]
      exact or_iff_right_of_imp fun heq => heq ▸ hseen
    have hnone : targets.countP (· ∈ later.seen) = 0 := by
      rw [List.countP_eq_zero]
      exact fun target htarget => by simpa using ((htargets target).mp htarget).2
    have hcount : later.pending.countP (· ∈ later.seen) < now.pending.countP (· ∈ now.seen) := by
      rw [hstack, hfollows.taken, List.countP_append, hnone, List.countP_cons]
      simp [hsame, hseen]
    rcases (Finset.card_le_card hpart).lt_or_eq with hless | heq
    · exact .inl hless
    · exact .inr ⟨heq, hcount⟩
  · -- the node was still to be marked
    have hopen : node ∈ now.unseen grammar := by
      refine mem_unseen_iff.mpr ⟨.inr ?_, hseen⟩
      rw [hfollows.taken]
      exact List.mem_cons_self
    have hmarked : node ∉ later.unseen grammar := fun hnode =>
      (mem_unseen_iff.mp hnode).2 ((hfollows.seen node).mpr (.inl rfl))
    exact .inl (Finset.card_lt_card ⟨hpart, fun hback => hmarked (hback hopen)⟩)

/-- No collector goes on for ever. -/
theorem wellFounded_next (grammar : Grammar) :
    WellFounded fun later now => Next grammar now later :=
  Subrelation.wf remaining_lt (InvImage.wf (remaining grammar) wellFounded_lt)

theorem exists_end (grammar : Grammar) (now : Collector) :
    ∃ last, ReflTransGen (Next grammar) now last ∧ last.step? grammar = none := by
  induction now using (wellFounded_next grammar).induction with
  | _ now ih =>
      cases hstep : now.step? grammar with
      | none => exact ⟨now, .refl, hstep⟩
      | some later =>
          obtain ⟨last, hruns, hend⟩ := ih later hstep
          exact ⟨last, .head hstep hruns, hend⟩

/-! ## What is collected -/

/-- The nodes of a collector lie inside the command and its texts stand on their arcs; the entries
are marked or pending, and so are the targets of what is marked, whose texts are collected. -/
structure Sound (grammar : Grammar) (entries : List Nat) (collector : Collector) : Prop where
  inside : ∀ node, node ∈ collector.seen ∨ node ∈ collector.pending →
    Inside grammar (· ∈ entries) node
  stand : ∀ text ∈ collector.words, ∃ node target arc, Inside grammar (· ∈ entries) node ∧
    (target, arc) ∈ insideArcs grammar node ∧ arc.output = text
  entered : ∀ node ∈ entries, node ∈ collector.seen ∨ node ∈ collector.pending
  collected : ∀ node target arc, node ∈ collector.seen →
    (target, arc) ∈ insideArcs grammar node →
      arc.output ∈ collector.words ∧ (target ∈ collector.seen ∨ target ∈ collector.pending)

theorem sound_start (grammar : Grammar) (entries : List Nat) :
    Sound grammar entries (start entries) where
  inside := by
    rintro node (hseen | hpending)
    · simp [start] at hseen
    · exact .entry hpending
  stand := by simp [start]
  entered := fun node hnode => .inr hnode
  collected := by
    intro node target arc hseen
    simp [start] at hseen

theorem Sound.step (hsound : Sound grammar entries now) (hnext : Next grammar now later) :
    Sound grammar entries later := by
  obtain ⟨node, pending, hfollows⟩ := hnext.follows
  obtain ⟨targets, hstack, htargets⟩ := hfollows.stacked
  have hnode : Inside grammar (· ∈ entries) node := by
    refine hsound.inside node (.inr ?_)
    rw [hfollows.taken]
    exact List.mem_cons_self
  have hkept : ∀ other, other ∈ now.seen ∨ other ∈ now.pending →
      other ∈ later.seen ∨ other ∈ later.pending := by
    intro other hother
    rw [hfollows.seen, hstack, List.mem_append]
    rw [hfollows.taken, List.mem_cons] at hother
    tauto
  refine ⟨?inside, ?stand, fun other hother => hkept other (hsound.entered other hother),
    ?collected⟩
  case inside =>
    intro other hother
    rw [hfollows.seen, hstack, List.mem_append] at hother
    rcases hother with (rfl | hseen) | htarget | hpending
    · exact hnode
    · exact hsound.inside other (.inl hseen)
    · obtain ⟨⟨arc, hleaves⟩, -⟩ := (htargets other).mp htarget
      exact hnode.along hleaves
    · refine hsound.inside other (.inr ?_)
      rw [hfollows.taken]
      exact List.mem_cons_of_mem node hpending
  case stand =>
    intro text htext
    rcases (hfollows.words text).mp htext with hearlier | ⟨target, arc, hleaves, houtput⟩
    · exact hsound.stand text hearlier
    · exact ⟨node, target, arc, hnode, hleaves, houtput⟩
  case collected =>
    intro other target arc hother hleaves
    rcases (hfollows.seen other).mp hother with rfl | hseen
    · refine ⟨(hfollows.words _).mpr (.inr ⟨target, arc, hleaves, rfl⟩), ?_⟩
      rw [hstack, List.mem_append, htargets]
      by_cases hmarked : target ∈ later.seen
      · exact .inl hmarked
      · exact .inr (.inl ⟨⟨arc, hleaves⟩, hmarked⟩)
    · obtain ⟨htext, htarget⟩ := hsound.collected other target arc hseen hleaves
      exact ⟨(hfollows.words _).mpr (.inl htext), hkept target htarget⟩

theorem sound_of_runs (hruns : ReflTransGen (Next grammar) (start entries) last) :
    Sound grammar entries last := by
  induction hruns with
  | refl => exact sound_start grammar entries
  | tail _ hnext ih => exact ih.step hnext

/-- At its end a collector has marked what lies inside the command. -/
theorem Sound.mem_seen (hsound : Sound grammar entries last) (hend : last.pending = [])
    (hinside : Inside grammar (· ∈ entries) node) : node ∈ last.seen := by
  have hsettled : ∀ other, other ∈ last.seen ∨ other ∈ last.pending → other ∈ last.seen := by
    simp [hend]
  -- the entries and the targets of marked nodes are marked, as nothing is pending
  induction hinside with
  | entry henters => exact hsettled _ (hsound.entered _ henters)
  | along _ hleaves ih => exact hsettled _ (hsound.collected _ _ _ ih hleaves).2

/-- At its end a collector has collected the texts on the arcs inside the command. -/
theorem mem_words_iff (hruns : ReflTransGen (Next grammar) (start entries) last)
    (hend : last.step? grammar = none) :
    text ∈ last.words ↔ ∃ node target arc, Inside grammar (· ∈ entries) node ∧
      (target, arc) ∈ insideArcs grammar node ∧ arc.output = text := by
  have hsound := sound_of_runs hruns
  constructor
  · exact hsound.stand text
  · rintro ⟨node, target, arc, hinside, hleaves, rfl⟩
    have hseen := hsound.mem_seen (step?_eq_none_iff.mp hend) hinside
    exact (hsound.collected node target arc hseen hleaves).1

end Collector

/-! ## The vocabulary of a command -/

/-- **The vocabulary of a command is exact.**  A command has one if some arc puts out its tag,
and it lists the texts other than `</command>` on the arcs that leave a node between where the
command is entered and where one is closed.  A collector that starts at the nodes at which the
command is entered, in any order, comes to an end, and has collected just these texts. -/
theorem commands_exact (grammar : Grammar) (tag : String) (entries : List Nat)
    (hentries : ∀ node, node ∈ entries ↔ EnteredBy grammar tag node) :
    ((ofGrammar grammar).commands[tag]?.isSome ↔
        Tag.isCommandOpen tag = true ∧ ∃ node, EnteredBy grammar tag node) ∧
      (∀ words, (ofGrammar grammar).commands[tag]? = some words →
        ∀ text, text ∈ words ↔ CanHold grammar tag text) ∧
      (WellFounded fun later now => Collector.Next grammar now later) ∧
      ∃ last, ReflTransGen (Collector.Next grammar) (.start entries) last ∧
        last.step? grammar = none ∧ ∀ text, text ∈ last.words ↔ CanHold grammar tag text := by
  have hentered : (· ∈ entries) = EnteredBy grammar tag := by
    funext node
    exact propext (hentries node)
  obtain ⟨last, hruns, hend⟩ := Collector.exists_end grammar (.start entries)
  refine ⟨?_, fun words hwords text => mem_commands_iff hwords,
    Collector.wellFounded_next grammar, last, hruns, hend, fun text => ?_⟩
  · rw [ofGrammar, Std.TreeMap.getElem?_map, Option.isSome_map, isSome_commandEntries_iff]
  · rw [Collector.mem_words_iff hruns hend, hentered]
    rfl

/-- A grammar with a turn that is entered at two nodes, between which one may go to and fro. -/
def turnGrammar : Grammar :=
  ((((((Grammar.empty "turns").addArc 0 1 (Arc.saying "<command=\"turn\">")).addArc 0 2
    (Arc.saying "<command=\"turn\">")).addArc 1 2 (Arc.saying "left")).addArc 2 1
    (Arc.saying "right")).addArc 2 3 (Arc.saying Tag.commandClose)).addArc 3 1 (Arc.saying "over")

theorem outputs_turnGrammar {source target : Nat} {arc : Arc}
    (hleaves : (target, arc) ∈ turnGrammar.transitions source) :
    (source, target, arc.output) ∈ [(0, 1, "<command=\"turn\">"), (0, 2, "<command=\"turn\">"),
      (1, 2, "left"), (2, 1, "right"), (2, 3, "</command>"), (3, 1, "over")] :=
  List.mem_map_of_mem (f := fun leaving => (leaving.1, leaving.2.1, leaving.2.2.output))
    (Grammar.mem_arcs.mpr hleaves)

/-- What is said behind the turn is not in its vocabulary, though it leads back into it. -/
theorem commands_exact_turnGrammar :
    (∀ node, node ∈ [2, 1] ↔ EnteredBy turnGrammar "<command=\"turn\">" node) ∧
      ∃ words last, (ofGrammar turnGrammar).commands["<command=\"turn\">"]? = some words ∧
        ReflTransGen (Collector.Next turnGrammar) (.start [2, 1]) last ∧
        last.step? turnGrammar = none ∧ "right" ∈ words ∧ "right" ∈ last.words ∧
        "over" ∉ words ∧ "over" ∉ last.words := by
  have hentries : ∀ node, node ∈ [2, 1] ↔ EnteredBy turnGrammar "<command=\"turn\">" node := by
    intro node
    constructor
    · intro hnode
      have hcases : node = 2 ∨ node = 1 := by simpa using hnode
      rcases hcases with rfl | rfl
      · exact ⟨0, _, List.mem_cons_of_mem _ List.mem_cons_self, rfl⟩
      · exact ⟨0, _, List.mem_cons_self, rfl⟩
    · rintro ⟨source, arc, hleaves, houtput⟩
      have harc := outputs_turnGrammar hleaves
      rw [houtput] at harc
      have hcases : source = 0 ∧ node = 1 ∨ source = 0 ∧ node = 2 := by simpa using harc
      rcases hcases with ⟨-, rfl⟩ | ⟨-, rfl⟩ <;> simp
  have hinside : ∀ node, Inside turnGrammar (EnteredBy turnGrammar "<command=\"turn\">") node →
      node = 1 ∨ node = 2 := by
    intro node hinside
    induction hinside with
    | entry henters => simpa [or_comm] using (hentries _).mpr henters
    | @along node target arc _ hleaves ih =>
        obtain ⟨hleaves, hcloses⟩ := mem_insideArcs_iff.mp hleaves
        have harc := outputs_turnGrammar hleaves
        rcases ih with rfl | rfl
        · have hleft : target = 2 ∧ arc.output = "left" := by simpa using harc
          exact .inr hleft.1
        · have hcases : target = 1 ∧ arc.output = "right" ∨
              target = 3 ∧ arc.output = "</command>" := by simpa using harc
          rcases hcases with ⟨rfl, -⟩ | ⟨-, hclose⟩
          · exact .inl rfl
          · exact absurd hclose hcloses
  have hright : CanHold turnGrammar "<command=\"turn\">" "right" :=
    ⟨2, 1, Arc.saying "right", .entry ((hentries 2).mp List.mem_cons_self),
      mem_insideArcs_iff.mpr ⟨List.mem_cons_self, by decide⟩, rfl⟩
  have hover : ¬ CanHold turnGrammar "<command=\"turn\">" "over" := by
    rintro ⟨node, target, arc, hnode, hleaves, houtput⟩
    have harc := outputs_turnGrammar (mem_insideArcs_iff.mp hleaves).1
    rw [houtput] at harc
    have hthree : node = 3 ∧ target = 1 := by simpa using harc
    have hcases := hinside node hnode
    omega
  obtain ⟨hlisted, hwords, -, last, hruns, hend, hlast⟩ :=
    commands_exact turnGrammar "<command=\"turn\">" [2, 1] hentries
  obtain ⟨words, hfound⟩ := Option.isSome_iff_exists.mp
    (hlisted.mpr ⟨by decide, 2, (hentries 2).mp List.mem_cons_self⟩)
  exact ⟨hentries, words, last, hfound, hruns, hend, (hwords words hfound _).mpr hright,
    (hlast _).mpr hright, fun h => hover ((hwords words hfound _).mp h),
    fun h => hover ((hlast _).mp h)⟩

end Phraseology.Vocabulary
