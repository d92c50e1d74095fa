import Phraseology.Proofs.Search.Moves

/-!
# Runs of a search, step by step

`Task.Reached` forgets on which way a state is reached.  A `Task.Path` keeps it: each of its
strides goes along an arc of the grammar, or past a word.  The states at the ends of the
paths from the start of a sentence are those that are reached (`reached_iff_exists_path`).
-/

namespace Phraseology

/-- One step of a run. -/
inductive Stride where
  | along (target : Nat) (arc : Arc)
  | skip

namespace Task

/-- A state goes over into another one by a stride. -/
inductive Takes (task : Task) (state : State) : Stride → State → Prop
  | stay {target : Nat} {arc : Arc} {next : State}
      (leaves : (target, arc) ∈ task.grammar.transitions state.node)
      (stays : state.stay? task.pruned target arc = some next) :
      Takes task state (.along target arc) next
  | read {target : Nat} {arc : Arc} {next : State}
      (leaves : (target, arc) ∈ task.grammar.transitions state.node)
      (reads : state.read? target arc = some next) : Takes task state (.along target arc) next
  | skip {next : State}
      (skips : state.skip? task.policy (task.grammar.transitions state.node) = some next) :
      Takes task state .skip next

/-- A run from a state to another one. -/
inductive Path (task : Task) : State → List Stride → State → Prop
  | nil {state : State} : Path task state [] state
  | cons {state middle last : State} {stride : Stride} {strides : List Stride}
      (takes : task.Takes state stride middle) (rest : Path task middle strides last) :
      Path task state (stride :: strides) last

variable {task : Task} {state next middle last : State} {stride : Stride}
  {strides first second : List Stride} {target : Nat} {arc : Arc} {text : String}

/-! ## One stride -/

/-- The strides of a search are its moves. -/
theorem move_iff_exists_takes : task.Move state next ↔ ∃ stride, task.Takes state stride next := by
  constructor
  · intro hmove
    cases hmove with
    | pass hleaves hlabel => exact ⟨_, .stay hleaves (by simp [State.stay?, hlabel])⟩
    | openTag hleaves hlabel hkept =>
        exact ⟨_, .stay hleaves (by simp [State.stay?, hlabel, hkept])⟩
    | closeTag hleaves hlabel => exact ⟨_, .stay hleaves (by simp [State.stay?, hlabel])⟩
    | readWord hleaves hlabel hnext =>
        exact ⟨_, .read hleaves (State.read?_eq_some_iff.mpr ⟨_, _, hlabel, hnext, rfl⟩)⟩
    | skipWord hword hnext hcost =>
        exact ⟨_, .skip (State.skip?_eq_some_iff.mpr ⟨_, _, _, hword, hnext, hcost, rfl⟩)⟩
  · rintro ⟨stride, htakes⟩
    cases htakes with
    | stay hleaves hstays => exact State.move_of_stay? hleaves hstays
    | read hleaves hreads =>
        obtain ⟨heard, rest, hlabel, hunread, rfl⟩ := State.read?_eq_some_iff.mp hreads
        exact .readWord hleaves hlabel hunread
    | skip hskips =>
        obtain ⟨heard, rest, cost, hword, hunread, hcost, rfl⟩ := State.skip?_eq_some_iff.mp hskips
        exact .skipWord hword hunread hcost

/-- Going along an arc leads to its target. -/
theorem Takes.along_node (htakes : task.Takes state (.along target arc) next) :
    (target, arc) ∈ task.grammar.transitions state.node ∧ next.node = target := by
  cases htakes with
  | stay hleaves hstays =>
      refine ⟨hleaves, ?_⟩
      unfold State.stay? at hstays
      split at hstays
      · obtain rfl := Option.some.inj hstays
        rfl
      · split at hstays
        · cases hstays
        · obtain rfl := Option.some.inj hstays
          rfl
      · obtain rfl := Option.some.inj hstays
        rfl
      · cases hstays
  | read hleaves hreads =>
      obtain ⟨heard, rest, -, -, rfl⟩ := State.read?_eq_some_iff.mp hreads
      exact ⟨hleaves, rfl⟩

/-- Going past a word leaves the node as it is. -/
theorem Takes.skip_node (htakes : task.Takes state .skip next) : next.node = state.node := by
  cases htakes with
  | skip hskips =>
      obtain ⟨heard, rest, cost, -, -, -, rfl⟩ := State.skip?_eq_some_iff.mp hskips
      rfl

/-- An arc with a word is taken where this word comes next. -/
theorem Takes.unread_of_word (htakes : task.Takes state (.along target arc) next)
    (hlabel : arc.label = .word text) :
    ∃ heard, state.unread = heard :: next.unread ∧ heard.observation = text := by
  cases htakes with
  | stay _ hstays => simp [State.stay?, hlabel] at hstays
  | read _ hreads =>
      obtain ⟨heard, rest, hword, hunread, rfl⟩ := State.read?_eq_some_iff.mp hreads
      exact ⟨heard, hunread, (Label.word.inj (hlabel.symm.trans hword)).symm⟩

/-- No stride takes back a word. -/
theorem Takes.unread_suffix (htakes : task.Takes state stride next) :
    next.unread <:+ state.unread := by
  have hmove : task.Move state next := move_iff_exists_takes.mpr ⟨stride, htakes⟩
  cases hmove with
  | pass _ _ => exact List.suffix_rfl
  | openTag _ _ _ => exact List.suffix_rfl
  | closeTag _ _ => exact List.suffix_rfl
  | readWord _ _ hnext =>
      rw [hnext]
      exact List.suffix_cons ..
  | skipWord _ hnext _ =>
      rw [hnext]
      exact List.suffix_cons ..

/-! ## Runs -/

theorem Path.append (hfirst : task.Path state first middle)
    (hsecond : task.Path middle second last) : task.Path state (first ++ second) last := by
  induction hfirst with
  | nil => exact hsecond
  | cons htakes _ ih => exact .cons htakes (ih hsecond)

/-- A run leads through a state at each of its places. -/
theorem Path.split (hpath : task.Path state (first ++ second) last) :
    ∃ middle, task.Path state first middle ∧ task.Path middle second last := by
  induction first generalizing state with
  | nil => exact ⟨state, .nil, hpath⟩
  | cons stride first ih =>
      cases hpath with
      | cons htakes hrest =>
          obtain ⟨middle, hfirst, hsecond⟩ := ih hrest
          exact ⟨middle, .cons htakes hfirst, hsecond⟩

theorem Path.unread_suffix (hpath : task.Path state strides last) :
    last.unread <:+ state.unread := by
  induction hpath with
  | nil => exact List.suffix_rfl
  | cons htakes _ ih => exact ih.trans htakes.unread_suffix

/-- Runs lead from reached states to reached states. -/
theorem Path.reached (hpath : task.Path state strides last) (hreached : task.Reached state) :
    task.Reached last := by
  induction hpath with
  | nil => exact hreached
  | cons htakes _ ih => exact ih (hreached.move (move_iff_exists_takes.mpr ⟨_, htakes⟩))

/-- The states that are reached are those at the end of some run. -/
theorem reached_iff_exists_path :
    task.Reached state ↔ ∃ strides, task.Path (State.initial task.sentence) strides state := by
  constructor
  · intro hreached
    induction hreached with
    | initial => exact ⟨[], .nil⟩
    | move _ hmove ih =>
        obtain ⟨strides, hpath⟩ := ih
        obtain ⟨stride, htakes⟩ := move_iff_exists_takes.mp hmove
        exact ⟨strides ++ [stride], hpath.append (.cons htakes .nil)⟩
  · rintro ⟨strides, hpath⟩
    exact hpath.reached .initial

end Task

end Phraseology
