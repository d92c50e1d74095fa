import Phraseology.Proofs.Frame.Reading
import Phraseology.Proofs.Frame.Repair

/-!
# What is opened is closed

A repair closes each tag that it takes for an opening one, whatever the tag is called, and
of the tags that are open it closes those first that were opened last.  `Closes stack words`
says so of the tags that are open in front of some words and of those that are opened among
them.  It asks less than `Nests`: names need not be plain, and a closing tag need not belong
to any open one.  So it holds of every repair (`run_closes`), and it is all that counts for
spans which are cut out of a frame by their words alone:

* `Closes.of_opener`: behind an opening tag there is one that closes it;
* `Closes.stays_open`: what is open around a tag is open until that tag is closed.

So the commands of a repaired frame are still closed when a span is cut out of it
(`Closes.commandsClosed_of_cut`), wherever in the frame this span is taken to end.
-/

namespace Phraseology.Repair

/-- Among some words all tags are closed that are open in front of them or are opened in
them, and those first that were opened last. -/
inductive Closes : List String → List String → Prop
  | nil : Closes [] []
  | pass {word : String} {stack words : List String} (inert : Tag.openAnyTagName? word = none)
      (rest : Closes stack words) : Closes stack (word :: words)
  | push {opener name : String} {stack words : List String}
      (opens : Tag.openAnyTagName? opener = some name)
      (rest : Closes (opener :: stack) words) : Closes stack (opener :: words)
  | pop {opener name : String} {stack words : List String}
      (opens : Tag.openAnyTagName? opener = some name)
      (rest : Closes stack words) : Closes (opener :: stack) (Tag.closingTag name :: words)

variable {stack below inside words first second : List String} {word opener name : String}
  {token : Token}

theorem openAnyTagName?_closingTag (name : String) :
    Tag.openAnyTagName? (Tag.closingTag name) = none := by
  rw [Tag.closingTag_eq, Tag.openAnyTagName?_closing]

/-! ## A repair -/

/-- Whether all tags of a stack can be closed. -/
def Closable (stack : List String) : Prop :=
  ∀ opener ∈ stack, (Tag.openAnyTagName? opener).isSome

/-- The tags that are added close what is open. -/
theorem Closes.closersOf (hinside : Closable inside) (hrest : Closes stack words) :
    Closes (inside ++ stack) ((closersOf inside).map (·.word) ++ words) := by
  induction inside with
  | nil => exact hrest
  | cons opener inside ih =>
      obtain ⟨hopener, hinside⟩ := List.forall_mem_cons.mp hinside
      obtain ⟨name, hname⟩ := Option.isSome_iff_exists.mp hopener
      have hcloser : closerOf opener = [Token.plain (Tag.closingTag name)] := by
        rw [closerOf, hname]
      rw [Repair.closersOf, List.flatMap_cons, hcloser]
      exact .pop hname (ih hinside)

/-- What a step puts out in front of some words, which close what is open behind it, closes
what was open in front of it. -/
def StepCloses (stack : List String) (token : Token) : Prop :=
  Closable (step stack token).2.1 ∧
    ∀ words, Closes (step stack token).2.1 words →
      Closes stack ((step stack token).1.map (·.word) ++ words)

theorem stepCloses_opening (hstack : Closable stack)
    (hopens : (Tag.openAnyTagName? token.word).isSome) : StepCloses stack token := by
  obtain ⟨name, hname⟩ := Option.isSome_iff_exists.mp hopens
  obtain ⟨inside, outside, rfl, hsiblings, -⟩ := exists_siblings_append token.word stack
  obtain ⟨hinside, houtside⟩ := List.forall_mem_append.mp hstack
  rw [StepCloses, step_of_opening hopens, hsiblings, List.drop_left]
  refine ⟨List.forall_mem_cons.mpr ⟨hopens, houtside⟩, fun words hwords => ?_⟩
  rw [List.map_append, List.append_assoc]
  exact Closes.closersOf hinside (.push hname hwords)

theorem stepCloses_closing (hstack : Closable stack)
    (hcloses : (Tag.closeTagName? token.word).isSome) : StepCloses stack token := by
  unfold StepCloses
  rcases step_closing_cases hcloses stack with
    ⟨inside, opener, outside, rfl, hmatch, hstep⟩ | ⟨base, hbase, hword, hstep⟩
  · -- the tag of an open span, behind the tags for what was opened in this span
    obtain ⟨hinside, houtside⟩ := List.forall_mem_append.mp hstack
    obtain ⟨name, hname, hclosing⟩ := (Option.any_eq_true ..).mp hmatch
    rw [hstep]
    refine ⟨(List.forall_mem_cons.mp houtside).2, fun words hwords => ?_⟩
    rw [List.map_append, List.append_assoc, List.map_singleton, ← eq_of_beq hclosing]
    exact Closes.closersOf hinside (.pop hname hwords)
  · -- the tag of no open span, behind the opening tag that is added
    have hadded : Tag.openAnyTagName? (Tag.opener base) = some base :=
      (Tag.OpenName.plain hbase).openAnyTagName?_opener
    rw [hstep, List.map_cons, List.map_singleton, hword]
    exact ⟨hstack, fun words hwords => .push hadded (.pop hadded hwords)⟩

theorem step_closes (hstack : Closable stack) (token : Token) : StepCloses stack token := by
  cases hopens : Tag.openAnyTagName? token.word with
  | some name => exact stepCloses_opening hstack (Option.isSome_of_eq_some hopens)
  | none =>
      by_cases hcloses : (Tag.closeTagName? token.word).isSome
      · exact stepCloses_closing hstack hcloses
      · rw [StepCloses, step_of_word hopens hcloses]
        exact ⟨hstack, fun words hwords => .pass hopens hwords⟩

theorem runFrom_closes (hstack : Closable stack) (tokens : List Token) :
    Closes stack ((runFrom stack tokens).1.map (·.word)) := by
  induction tokens generalizing stack with
  | nil =>
      have hclosed := Closes.closersOf hstack .nil
      rwa [List.append_nil, List.append_nil] at hclosed
  | cons token tokens ih =>
      obtain ⟨hleft, hput⟩ := step_closes hstack token
      have hrest := hput _ (ih hleft)
      rwa [← List.map_append] at hrest

/-- A repaired text closes what it opens. -/
theorem run_closes (tokens : List Token) : Closes [] ((run tokens).1.map (·.word)) :=
  runFrom_closes (by simp [Closable]) tokens

/-! ## Reading from a place on -/

/-- From any place on, the tags are closed that are open there. -/
theorem Closes.from_append (hcloses : Closes stack (first ++ second)) :
    ∃ opened, Closes opened second := by
  induction first generalizing stack with
  | nil => exact ⟨stack, hcloses⟩
  | cons word first ih =>
      cases hcloses with
      | pass _ hrest => exact ih hrest
      | push _ hrest => exact ih hrest
      | pop _ hrest => exact ih hrest

/-- Behind an opening tag this tag is open. -/
theorem Closes.of_opener (hopens : Tag.openAnyTagName? opener = some name)
    (hcloses : Closes stack (opener :: words)) : Closes (opener :: stack) words := by
  cases hcloses with
  | pass hinert _ =>
      rw [hinert] at hopens
      cases hopens
  | push _ hrest => exact hrest
  | pop _ _ =>
      rw [openAnyTagName?_closingTag] at hopens
      cases hopens

/-- A tag stays open, as does what was open around it, up to a tag that closes it. -/
theorem Closes.stays_open (hopens : Tag.openAnyTagName? opener = some name)
    (hopen : opener :: below <:+ stack) (hcloses : Closes stack (first ++ second)) :
    Tag.closingTag name ∈ first ∨
      ∃ opened, opener :: below <:+ opened ∧ Closes opened second := by
  induction first generalizing stack with
  | nil => exact .inr ⟨stack, hopen, hcloses⟩
  | cons word first ih =>
      cases hcloses with
      | pass _ hrest => exact (ih hopen hrest).imp_left (List.mem_cons_of_mem word)
      | push _ hrest =>
          have hinside := hopen.trans (List.suffix_cons word stack)
          exact (ih hinside hrest).imp_left (List.mem_cons_of_mem word)
      | pop hother hrest =>
          rcases List.suffix_cons_iff.mp hopen with htop | hbelow
          · obtain ⟨rfl, -⟩ := List.cons.inj htop
            rw [hother] at hopens
            obtain rfl := Option.some.inj hopens
            exact .inl List.mem_cons_self
          · exact (ih hbelow hrest).imp_left (List.mem_cons_of_mem _)

/-- An open tag is closed. -/
theorem Closes.closingTag_mem (hopens : Tag.openAnyTagName? opener = some name)
    (hopen : opener :: below <:+ stack) (hcloses : Closes stack words) :
    Tag.closingTag name ∈ words := by
  rw [← List.append_nil words] at hcloses
  rcases hcloses.stays_open hopens hopen with hmem | ⟨opened, hopened, hnil⟩
  · exact hmem
  · cases hnil
    exact absurd (List.eq_nil_of_suffix_nil hopened) (List.cons_ne_nil _ _)

/-! ## Taking out a span -/

/-- A place in two appended texts lies in the first of them or in the second. -/
theorem append_eq_append_cons {before after : List String}
    (hsplit : before ++ after = first ++ word :: second) :
    (∃ more, before = first ++ word :: more ∧ second = more ++ after) ∨
      ∃ more, first = before ++ more ∧ after = more ++ word :: second := by
  rcases List.append_eq_append_iff.mp hsplit with h | ⟨more, hbefore, hafter⟩
  · exact .inr h
  · cases more with
    | nil =>
        refine .inr ⟨[], ?_, ?_⟩
        · rw [hbefore, List.append_nil, List.append_nil]
        · exact hafter.symm
    | cons other more =>
        obtain ⟨rfl, rfl⟩ := List.cons.inj hafter
        exact .inl ⟨more, hbefore, rfl⟩

/-- What is opened is still closed if a span is taken out, from a tag to the first one that
closes it. -/
theorem Closes.closingTag_mem_of_cut {before body after : List String} {outer other : String}
    (hopens : Tag.openAnyTagName? opener = some name) (hbody : Tag.closingTag name ∉ body)
    (hcloses : Closes stack (before ++ opener :: body ++ Tag.closingTag name :: after))
    (houter : Tag.openAnyTagName? outer = some other)
    (hother : Tag.closingTag other ≠ Tag.closingTag name)
    (hsplit : before ++ after = first ++ outer :: second) : Tag.closingTag other ∈ second := by
  rcases append_eq_append_cons hsplit with ⟨more, rfl, rfl⟩ | ⟨more, rfl, rfl⟩
  · -- a tag in front of the span, which is closed in front of it or stays open through it
    have hwhole : Closes stack
        (first ++ outer :: (more ++ opener :: (body ++ Tag.closingTag name :: after))) := by
      simpa using hcloses
    obtain ⟨around, haround⟩ := hwhole.from_append
    rw [List.mem_append]
    have hinside := haround.of_opener houter
    rcases hinside.stays_open houter List.suffix_rfl with hmore | ⟨opened, hopened, hspan⟩
    · exact .inl hmore
    · rcases (hspan.of_opener hopens).stays_open hopens List.suffix_rfl with
        hmem | ⟨inside, hinside, hcloser⟩
      · exact absurd hmem hbody
      · have hstill : outer :: around <:+ inside :=
          hopened.trans ((List.suffix_cons opener opened).trans hinside)
        rw [← List.singleton_append] at hcloser
        rcases hcloser.stays_open houter hstill with hmem | ⟨left, hleft, hafter⟩
        · exact absurd (List.mem_singleton.mp hmem) hother
        · exact .inr (hafter.closingTag_mem houter hleft)
  · -- a tag behind the span
    have hwhole : Closes stack
        ((before ++ opener :: body ++ Tag.closingTag name :: more) ++ outer :: second) := by
      simpa using hcloses
    obtain ⟨opened, hopened⟩ := hwhole.from_append
    exact (hopened.of_opener houter).closingTag_mem houter List.suffix_rfl

/-! ## Commands -/

/-- What starts like the tag of a command of some type is such a tag. -/
def ExactCommands (words : List String) : Prop :=
  ∀ word ∈ words, Tag.isCommandOpen word = true →
    ∃ type, Tag.IsName type ∧ word = Tag.commandOpener type

/-- Behind each tag that opens a command some tag closes one. -/
def CommandsClosed (words : List String) : Prop :=
  ∀ before opener after, words = before ++ opener :: after → Tag.isCommandOpen opener = true →
    Tag.commandClose ∈ after

theorem ExactCommands.exists_name (hexact : ExactCommands words) (hword : word ∈ words)
    (hcommand : Tag.isCommandOpen word = true) :
    ∃ name, Tag.openAnyTagName? word = some name ∧ Tag.closingTag name = Tag.commandClose := by
  obtain ⟨type, htype, rfl⟩ := hexact word hword hcommand
  refine ⟨"command=\"" ++ type ++ "\"", ?_, Tag.closingTag_command type⟩
  rw [← Tag.opener_command, (Tag.OpenName.command htype).openAnyTagName?_opener]

/-- A text that closes what it opens closes its commands. -/
theorem Closes.commandsClosed (hcloses : Closes stack words) (hexact : ExactCommands words) :
    CommandsClosed words := by
  rintro before command after rfl hcommand
  obtain ⟨name, hname, hclosing⟩ := hexact.exists_name (by simp) hcommand
  obtain ⟨opened, hopened⟩ := hcloses.from_append
  exact hclosing ▸ (hopened.of_opener hname).closingTag_mem hname List.suffix_rfl

/-- Commands stay closed if something is taken out that no command stands in front of. -/
theorem CommandsClosed.of_cut {before inside after : List String}
    (hbefore : ∀ word ∈ before, Tag.isCommandOpen word = false)
    (hclosed : CommandsClosed (before ++ inside ++ after)) : CommandsClosed (before ++ after) := by
  intro first command second hsplit hcommand
  rcases append_eq_append_cons hsplit with ⟨more, rfl, -⟩ | ⟨more, -, rfl⟩
  · have hnone : Tag.isCommandOpen command = false := hbefore command (by simp)
    rw [hcommand] at hnone
    cases hnone
  · refine hclosed (before ++ inside ++ more) command second ?_ hcommand
    rw [List.append_assoc (before ++ inside)]

/-- A text still closes its commands if a span is taken out, from a tag to
the first one that closes it. -/
theorem Closes.commandsClosed_of_cut {before body after : List String}
    (hopens : Tag.openAnyTagName? opener = some name)
    (hname : Tag.closingTag name ≠ Tag.commandClose) (hbody : Tag.closingTag name ∉ body)
    (hcloses : Closes stack (before ++ opener :: body ++ Tag.closingTag name :: after))
    (hexact : ExactCommands (before ++ opener :: body ++ Tag.closingTag name :: after)) :
    CommandsClosed (before ++ after) := by
  intro first command second hsplit hcommand
  have hcommandMem : command ∈ before ++ after := by
    rw [hsplit]
    exact List.mem_append_right _ List.mem_cons_self
  obtain ⟨other, hother, hclosing⟩ := hexact.exists_name (by grind) hcommand
  rw [← hclosing]
  exact hcloses.closingTag_mem_of_cut hopens hbody hother (hclosing ▸ hname.symm) hsplit

end Phraseology.Repair

namespace Phraseology.Frame

/-- What is read from a text closes its tags. -/
theorem closes_of_read {text : String} {strict : Bool} {frame : Frame}
    (hread : read text strict = .ok (some frame)) : Repair.Closes [] frame.words := by
  obtain ⟨tokens, -, htokens, -⟩ := exists_readAll_of_read hread
  rw [words, htokens]
  exact Repair.run_closes tokens

end Phraseology.Frame
