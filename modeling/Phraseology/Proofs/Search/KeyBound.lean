import Mathlib.Data.List.Basic
import Mathlib.Data.List.Perm.Subperm
import Phraseology.Proofs.Search.Split

/-!
# Without loops that open tags there is room for all keys

`keyBound` ends a round that meets too many keys.  In a grammar without a loop
that opens a tag (`Grammar.NoOpeningLoop`) that never happens:

* between two words of the sentence no node opens a tag twice, so the output of a
  reached state is bounded (`Task.Reached.length_output_le`),
* the output and the skipped words are then two of finitely many lists, and with
  the node they make up the key (`Task.Reached.key_mem_possibleKeys`),
* so a search never gives up a round (`Snapshot.Sound.room`).
-/

namespace Phraseology

open Relation

/-! ## Arcs without a word -/

namespace Grammar

/-- An arc without a word leads from one node to another. -/
def Quiet (grammar : Grammar) (source target : Nat) : Prop :=
  ∃ arc, (target, arc) ∈ grammar.transitions source ∧ ∀ text, arc.label ≠ .word text

/-- An arc that opens a tag leads from one node to another. -/
def Opens (grammar : Grammar) (source target : Nat) : Prop :=
  ∃ arc text name, (target, arc) ∈ grammar.transitions source ∧ arc.label = .opening text name

/-- No circle of arcs without words opens a tag. -/
def NoOpeningLoop (grammar : Grammar) : Prop :=
  ∀ source target, grammar.Opens source target → ¬ReflTransGen grammar.Quiet target source

/-- There is no such loop if the nodes have levels that no arc without a word lowers and
that every arc which opens a tag raises. -/
theorem noOpeningLoop_of_levels {grammar : Grammar} (levelOf : Nat → Nat)
    (hquiet : ∀ source target, grammar.Quiet source target → levelOf source ≤ levelOf target)
    (hopens : ∀ source target, grammar.Opens source target → levelOf source < levelOf target) :
    grammar.NoOpeningLoop := by
  intro source target hopen hpath
  have hpathLevel : ∀ node, ReflTransGen grammar.Quiet target node →
      levelOf target ≤ levelOf node := by
    intro node hnode
    induction hnode with
    | refl => exact Nat.le_refl _
    | tail _ hstep ih => exact Nat.le_trans ih (hquiet _ _ hstep)
  have hraised := hopens source target hopen
  have hlowered := hpathLevel source hpath
  omega

end Grammar

variable {task : Task} {state : State}

/-! ## The length of an output -/

/-- The tags that a run opened since its last word, by the nodes at which it opened
them, and what the output can be long with them. -/
structure State.Opened (task : Task) (state : State) (past : List Heard) (opened : List Nat) :
    Prop where
  nodup : opened.Nodup
  leads : ∀ source ∈ opened, ∃ target, task.grammar.Opens source target ∧
    ReflTransGen task.grammar.Quiet target state.node
  length : state.output.length + state.openTags.length ≤
    past.length + 2 * (past.length * task.grammar.arcs.length + opened.length)

theorem State.Opened.length_le {past : List Heard} {opened : List Nat}
    (hopened : state.Opened task past opened) : opened.length ≤ task.grammar.arcs.length := by
  have hsubset : opened ⊆ task.grammar.arcs.map (·.1) := by
    intro source hsource
    obtain ⟨target, ⟨arc, _, _, hleaves, _⟩, _⟩ := hopened.leads source hsource
    exact List.mem_map.mpr ⟨(source, target, arc), Grammar.mem_arcs.mpr hleaves, rfl⟩
  have hlength := (List.subperm_of_subset hopened.nodup hsubset).length_le
  rwa [List.length_map] at hlength

/-- Going on along an arc without a word keeps the nodes at which tags were opened. -/
theorem State.Opened.leads_on {past : List Heard} {opened : List Nat} {target : Nat}
    (hopened : state.Opened task past opened) (hquiet : task.grammar.Quiet state.node target) :
    ∀ source ∈ opened, ∃ first, task.grammar.Opens source first ∧
      ReflTransGen task.grammar.Quiet first target := by
  intro source hsource
  obtain ⟨first, hopens, hpath⟩ := hopened.leads source hsource
  exact ⟨first, hopens, hpath.tail hquiet⟩

/-- With one more word of the sentence used up, tags can be opened anew. -/
theorem State.Opened.length_next {past : List Heard} {opened : List Nat}
    (hopened : state.Opened task past opened) :
    state.output.length + state.openTags.length + 1 ≤
      (past.length + 1) + 2 * ((past.length + 1) * task.grammar.arcs.length) := by
  have hlength := hopened.length
  have hfew := hopened.length_le
  rw [Nat.add_mul, Nat.one_mul]
  omega

theorem Task.Reached.opened (hreached : task.Reached state)
    (hloops : task.grammar.NoOpeningLoop) :
    ∃ past opened, task.sentence = past ++ state.unread ∧ state.Opened task past opened := by
  induction hreached with
  | initial => exact ⟨[], [], rfl, List.nodup_nil, by simp, by simp [State.initial]⟩
  | @move state _ _ hmove ih =>
      obtain ⟨past, opened, hsentence, hopened⟩ := ih
      cases hmove with
      | @pass target arc hleaves hsilent =>
          have hquiet : task.grammar.Quiet state.node target := ⟨arc, hleaves, by simp [hsilent]⟩
          exact ⟨past, opened, hsentence, hopened.nodup, hopened.leads_on hquiet, hopened.length⟩
      | @openTag target arc text name hleaves hopens _ =>
          have hquiet : task.grammar.Quiet state.node target := ⟨arc, hleaves, by simp [hopens]⟩
          have hopensHere : task.grammar.Opens state.node target :=
            ⟨arc, text, name, hleaves, hopens⟩
          refine ⟨past, state.node :: opened, hsentence, ?_, ?_, ?_⟩
          · -- a node that opened a tag before would lie on a loop
            refine List.nodup_cons.mpr ⟨fun hagain => ?_, hopened.nodup⟩
            obtain ⟨first, hfirst, hpath⟩ := hopened.leads _ hagain
            exact hloops _ _ hfirst hpath
          · intro source hsource
            rcases List.mem_cons.mp hsource with rfl | hsource
            · exact ⟨target, hopensHere, ReflTransGen.refl⟩
            · exact hopened.leads_on hquiet source hsource
          · have hlength := hopened.length
            simp only [State.openTag, List.length_append, List.length_cons, List.length_nil]
            omega
      | @closeTag target arc text name hleaves hcloses =>
          have hquiet : task.grammar.Quiet state.node target := ⟨arc, hleaves, by simp [hcloses]⟩
          refine ⟨past, opened, hsentence, hopened.nodup, hopened.leads_on hquiet, ?_⟩
          have hlength := hopened.length
          simp only [State.closeTag, List.length_append, List.length_map, List.length_take,
            List.length_drop]
          omega
      | @readWord _ _ heard rest _ _ hnext =>
          refine ⟨past ++ [heard], [], by rw [hsentence, hnext]; simp [State.readWord],
            List.nodup_nil, by simp, ?_⟩
          -- behind a word, tags may be opened at all nodes again
          have hlength := hopened.length_next
          simp only [State.readWord, List.length_append, List.length_cons, List.length_nil,
            Nat.zero_add]
          omega
      | @skipWord _ heard rest _ hnext _ =>
          refine ⟨past ++ [heard], [], by rw [hsentence, hnext]; simp [State.skipWord],
            List.nodup_nil, by simp, ?_⟩
          have hlength := hopened.length_next
          simp only [State.skipWord, List.length_append, List.length_cons, List.length_nil,
            Nat.zero_add]
          omega

/-- The longest output that a search can make. -/
def Task.longestOutput (task : Task) : Nat :=
  task.sentence.length + 2 * ((task.sentence.length + 1) * task.grammar.arcs.length)

theorem Task.Reached.length_output_le (hreached : task.Reached state)
    (hloops : task.grammar.NoOpeningLoop) : state.output.length ≤ task.longestOutput := by
  obtain ⟨past, opened, hsentence, hopened⟩ := hreached.opened hloops
  have hpast : past.length ≤ task.sentence.length := by
    rw [hsentence, List.length_append]
    exact Nat.le_add_right ..
  -- the bound grows with the words that are used up
  have hmul : (past.length + 1) * task.grammar.arcs.length ≤
      (task.sentence.length + 1) * task.grammar.arcs.length := Nat.mul_le_mul_right _ (by omega)
  have hlength := hopened.length
  have hfew := hopened.length_le
  rw [Nat.add_mul, Nat.one_mul] at hmul
  unfold longestOutput
  omega

theorem Task.Reached.length_skipped_le (hreached : task.Reached state) :
    state.skipped.length ≤ task.sentence.length := by
  obtain ⟨past, hsentence, hsplit⟩ := hreached.interleaves
  have hpast := hsplit.length_eq
  rw [List.length_map] at hpast
  rw [hsentence, List.length_append]
  omega

/-! ## What an output and its node are made of -/

/-- The tokens that can be put out: those of the sentence, the outputs of the arcs,
and closing tags for the tags that arcs open. -/
def Task.tokens (task : Task) : List String :=
  task.sentence.map (·.token) ++ task.grammar.arcs.map (fun (_, _, arc) => arc.output) ++
    task.grammar.arcs.map (fun (_, _, arc) =>
      Tag.closingTag ((Tag.tagName? arc.output).getD ""))

/-- The nodes that can be reached. -/
def Task.places (task : Task) : List Nat :=
  Grammar.startNode :: task.grammar.arcs.map fun (_, target, _) => target

theorem Task.mem_tokens_of_mem_sentence {heard : Heard} (hheard : heard ∈ task.sentence) :
    heard.token ∈ task.tokens :=
  List.mem_append_left _ (List.mem_append_left _ (List.mem_map_of_mem hheard))

theorem Task.output_mem_tokens {source target : Nat} {arc : Arc}
    (hleaves : (target, arc) ∈ task.grammar.transitions source) : arc.output ∈ task.tokens :=
  List.mem_append_left _ (List.mem_append_right _
    (List.mem_map.mpr ⟨(source, target, arc), Grammar.mem_arcs.mpr hleaves, rfl⟩))

theorem Task.closingTag_mem_tokens {source target : Nat} {arc : Arc} {text name : String}
    (hleaves : (target, arc) ∈ task.grammar.transitions source)
    (hopens : arc.label = .opening text name) : Tag.closingTag name ∈ task.tokens := by
  refine List.mem_append_right _
    (List.mem_map.mpr ⟨(source, target, arc), Grammar.mem_arcs.mpr hleaves, ?_⟩)
  have hname := (Arc.tag_of_opening hopens).1
  simp [Arc.output_of_opening hopens, hname]

theorem Task.target_mem_places {source target : Nat} {arc : Arc}
    (hleaves : (target, arc) ∈ task.grammar.transitions source) : target ∈ task.places :=
  List.mem_cons_of_mem _ (List.mem_map.mpr ⟨(source, target, arc), Grammar.mem_arcs.mpr hleaves, rfl⟩)

/-- A reached state is made of what the sentence and the grammar offer. -/
structure State.MadeOf (task : Task) (state : State) : Prop where
  node : state.node ∈ task.places
  output : ∀ token ∈ state.output, token ∈ task.tokens
  openTags : ∀ name ∈ state.openTags, Tag.closingTag name ∈ task.tokens
  skipped : ∀ token ∈ state.skipped, token ∈ task.tokens

theorem Task.Reached.madeOf (hreached : task.Reached state) : state.MadeOf task := by
  have hunread : ∀ {state : State} {heard : Heard} {rest : List Heard}, task.Reached state →
      state.unread = heard :: rest → ∀ token ∈ [heard.token], token ∈ task.tokens := by
    intro state heard rest hstate hnext
    refine List.forall_mem_singleton.mpr ?_
    apply Task.mem_tokens_of_mem_sentence
    apply hstate.mem_sentence_of_mem_unread
    rw [hnext]
    exact List.mem_cons_self ..
  induction hreached with
  | initial =>
      exact ⟨List.mem_cons_self .., by simp [State.initial], by simp [State.initial],
        by simp [State.initial]⟩
  | @move state _ hstate hmove ih =>
      cases hmove with
      | pass hleaves _ =>
          exact ⟨Task.target_mem_places hleaves, ih.output, ih.openTags, ih.skipped⟩
      | @openTag target arc text name hleaves hopens _ =>
          have htext : ∀ token ∈ [text], token ∈ task.tokens := by
            refine List.forall_mem_singleton.mpr ?_
            rw [← Arc.output_of_opening hopens]
            exact Task.output_mem_tokens hleaves
          refine ⟨Task.target_mem_places hleaves, List.forall_mem_append.mpr ⟨ih.output, htext⟩,
            ?_, ih.skipped⟩
          intro other hother
          rcases List.mem_cons.mp hother with rfl | hother
          · exact Task.closingTag_mem_tokens hleaves hopens
          · exact ih.openTags other hother
      | closeTag hleaves _ =>
          refine ⟨Task.target_mem_places hleaves, ?_,
            fun name hname => ih.openTags name (List.mem_of_mem_drop hname), ih.skipped⟩
          intro token htoken
          rcases List.mem_append.mp htoken with hold | hnew
          · exact ih.output token hold
          · obtain ⟨name, hname, rfl⟩ := List.mem_map.mp hnew
            exact ih.openTags name (List.mem_of_mem_take hname)
      | readWord hleaves _ hnext =>
          exact ⟨Task.target_mem_places hleaves,
            List.forall_mem_append.mpr ⟨ih.output, hunread hstate hnext⟩, ih.openTags, ih.skipped⟩
      | skipWord _ hnext _ =>
          exact ⟨ih.node, ih.output, ih.openTags,
            List.forall_mem_append.mpr ⟨ih.skipped, hunread hstate hnext⟩⟩

/-! ## Counting the keys -/

/-- All lists of a length over some letters. -/
def listsOver {α : Type} (letters : List α) : Nat → List (List α)
  | 0 => [[]]
  | n + 1 => letters.flatMap fun x => (listsOver letters n).map (x :: ·)

theorem length_listsOver {α : Type} (letters : List α) (n : Nat) :
    (listsOver letters n).length = Nat.pow letters.length n := by
  induction n with
  | zero => rfl
  | succ n ih =>
      simp only [listsOver, List.length_flatMap, List.length_map, ih, List.map_const',
        List.sum_replicate_nat]
      exact Nat.mul_comm ..

theorem mem_listsOver {α : Type} {letters word : List α} (hletters : ∀ x ∈ word, x ∈ letters) :
    word ∈ listsOver letters word.length := by
  induction word with
  | nil => simp [listsOver]
  | cons x word ih =>
      refine List.mem_flatMap.mpr ⟨x, hletters x (List.mem_cons_self ..), ?_⟩
      exact List.mem_map_of_mem (ih fun y hy => hletters y (List.mem_cons_of_mem _ hy))

/-- A list filled up with blanks. -/
def padded (tokens : List String) (n : Nat) : List (Option String) :=
  tokens.map some ++ List.replicate (n - tokens.length) none

theorem length_padded {tokens : List String} {n : Nat} (hshort : tokens.length ≤ n) :
    (padded tokens n).length = n := by
  simp only [padded, List.length_append, List.length_map, List.length_replicate]
  omega

theorem filterMap_padded (tokens : List String) (n : Nat) :
    (padded tokens n).filterMap id = tokens := by
  simp [padded, List.filterMap_append]

/-- The key that a node and a list of the skipped words and the output, each filled
up with blanks, stand for. -/
def Task.keyOf (task : Task) (node : Nat) (word : List (Option String)) : StateKey where
  node := node
  skipped := Text.unwords ((word.take task.sentence.length).filterMap id)
  output := Text.unwords ((word.drop task.sentence.length).filterMap id)

/-- All keys that a search can meet. -/
def Task.possibleKeys (task : Task) : List StateKey :=
  task.places.flatMap fun node =>
    (listsOver (none :: task.tokens.map some) (task.sentence.length + task.longestOutput)).map
      (task.keyOf node)

theorem Task.length_possibleKeys (task : Task) : task.possibleKeys.length = keyBound task := by
  have hplaces : task.places.length = task.grammar.arcs.length + 1 := by simp [Task.places]
  have htokens : (none :: task.tokens.map some).length =
      task.sentence.length + 2 * task.grammar.arcs.length + 1 := by
    simp only [Task.tokens, List.length_cons, List.length_map, List.length_append]
    omega
  simp only [Task.possibleKeys, List.length_flatMap, List.length_map, length_listsOver,
    List.map_const', List.sum_replicate_nat, hplaces, htokens]
  rfl

theorem Task.Reached.key_mem_possibleKeys (hreached : task.Reached state)
    (hloops : task.grammar.NoOpeningLoop) : StateKey.ofState state ∈ task.possibleKeys := by
  have hmade := hreached.madeOf
  have hskipped := hreached.length_skipped_le
  have houtput := hreached.length_output_le hloops
  refine List.mem_flatMap.mpr ⟨state.node, hmade.node, List.mem_map.mpr
    ⟨padded state.skipped task.sentence.length ++ padded state.output task.longestOutput, ?_, ?_⟩⟩
  · have hlength : (padded state.skipped task.sentence.length ++
        padded state.output task.longestOutput).length =
          task.sentence.length + task.longestOutput := by
      rw [List.length_append, length_padded hskipped, length_padded houtput]
    -- each place holds a token that can be put out, or a blank
    rw [← hlength]
    refine mem_listsOver fun token htoken => ?_
    simp only [padded, List.mem_append, List.mem_map, List.mem_replicate] at htoken
    rcases htoken with (⟨old, hold, rfl⟩ | ⟨-, rfl⟩) | ⟨old, hold, rfl⟩ | ⟨-, rfl⟩
    · exact List.mem_cons_of_mem _ (List.mem_map_of_mem (hmade.skipped old hold))
    · exact List.mem_cons_self ..
    · exact List.mem_cons_of_mem _ (List.mem_map_of_mem (hmade.output old hold))
    · exact List.mem_cons_self ..
  · -- without the blanks, the two parts are the skipped words and the output
    rw [Task.keyOf, List.take_left' (length_padded hskipped),
      List.drop_left' (length_padded hskipped), filterMap_padded, filterMap_padded]
    rfl

/-! ## Room for every key -/

/-- While a state that waits is new, there is room for its key. -/
theorem Snapshot.Sound.room {snapshot : Snapshot} (hsound : snapshot.Sound task)
    (hloops : task.grammar.NoOpeningLoop) (hreached : task.Reached state)
    (hkept : ¬snapshot.ledger.passesOver state = true) :
    snapshot.ledger.seen.size < keyBound task := by
  have hnew : StateKey.ofState state ∉ snapshot.ledger.seen.toList := by
    intro hmem
    rw [Std.TreeSet.mem_toList, Std.TreeSet.mem_iff_contains] at hmem
    exact hkept (by rw [Ledger.passesOver, hmem, Bool.or_true])
  -- the new key and those already met are different possible keys
  have hnodup : (StateKey.ofState state :: snapshot.ledger.seen.toList).Nodup := by
    refine List.nodup_cons.mpr ⟨hnew, ?_⟩
    refine Std.TreeSet.distinct_toList.imp fun {a b} hne heq => hne ?_
    rw [heq]
    exact Std.ReflCmp.compare_self
  have hsubset : (StateKey.ofState state :: snapshot.ledger.seen.toList) ⊆ task.possibleKeys := by
    intro key hkey
    rcases List.mem_cons.mp hkey with rfl | hkey
    · exact hreached.key_mem_possibleKeys hloops
    · obtain ⟨other, hother, rfl⟩ := hsound.seen key (Std.TreeSet.mem_toList.mp hkey)
      exact hother.key_mem_possibleKeys hloops
  have hlength := (List.subperm_of_subset hnodup hsubset).length_le
  rw [List.length_cons, Std.TreeSet.length_toList, task.length_possibleKeys] at hlength
  exact hlength

end Phraseology
