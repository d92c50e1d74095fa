import Phraseology.Proofs.Frame.Nesting
import Phraseology.Proofs.Tag.Replay

/-!
# Taking a span out of nested spans

A search and a repair do not take the same words for tags, but they replay them in the same way.  So
what is said here holds for any `Tagging` of words: a name is pushed for a word that opens a tag,
and a word that closes one has to be the closing tag for the name on top.

Words are replayed above an open tag without looking at it, as long as its closing tag is not among
them (`exists_replay?_above`).  So if words are well nested and a span in them reaches from an
opening tag to the first closing tag that fits, both the span and the words around it are well
nested (`WellNested.split`), unless a tag with the same closing tag is opened in the span.
-/

namespace Phraseology.Tag

/-- A way to take words for tags: the name of the tag that a word opens, and whether a word that
opens none closes one. -/
structure Tagging where
  opened? : String → Option String
  closes : String → Bool

namespace Tagging

/-- The names of the open tags behind a word, innermost first, if the word may stand there. -/
def step? (tagging : Tagging) (stack : List String) (word : String) : Option (List String) :=
  match tagging.opened? word with
  | some name => some (name :: stack)
  | none =>
    if tagging.closes word then
      match stack with
      | [] => none
      | top :: below => if word = closingTag top then some below else none
    else some stack

/-- The names of the open tags behind some words. -/
def replay? (tagging : Tagging) : List String → List String → Option (List String)
  | [], stack => some stack
  | word :: rest, stack => (tagging.step? stack word).bind (tagging.replay? rest)

/-- Each closing tag closes the innermost open tag, and nothing stays open. -/
def WellNested (tagging : Tagging) (words : List String) : Prop :=
  tagging.replay? words [] = some []

variable {tagging : Tagging} {stack below above left words before inside after : List String}
  {word name : String}

/-! ## Replaying -/

theorem step?_of_opened (hopens : tagging.opened? word = some name) :
    tagging.step? stack word = some (name :: stack) := by
  simp only [step?, hopens]

theorem step?_closingTag (hopens : tagging.opened? (closingTag name) = none)
    (hcloses : tagging.closes (closingTag name) = true) :
    tagging.step? (name :: stack) (closingTag name) = some stack := by
  simp only [step?, hopens, hcloses, if_true]

/-- A closing tag that may stand somewhere closes the innermost open tag. -/
theorem exists_top_of_step? (hopens : tagging.opened? word = none)
    (hcloses : tagging.closes word = true) (hstep : tagging.step? stack word = some left) :
    ∃ top, stack = top :: left ∧ word = closingTag top := by
  simp only [step?, hopens, hcloses, if_true] at hstep
  cases stack with
  | nil => cases hstep
  | cons top below =>
      simp only [Option.ite_none_right_eq_some, Option.some.injEq] at hstep
      obtain ⟨htop, rfl⟩ := hstep
      exact ⟨top, rfl, htop⟩

/-- What a word does to the open tags. -/
theorem step?_cases (hstep : tagging.step? stack word = some left) :
    (∃ name, tagging.opened? word = some name ∧ left = name :: stack) ∨
      (tagging.closes word = true ∧ ∃ top, stack = top :: left ∧ word = closingTag top ∧
        ∀ rest, tagging.step? (top :: rest) word = some rest) ∨
      left = stack ∧ ∀ rest, tagging.step? rest word = some rest := by
  cases hopens : tagging.opened? word with
  | some name =>
      rw [step?_of_opened hopens] at hstep
      exact .inl ⟨name, rfl, (Option.some.inj hstep).symm⟩
  | none =>
      cases hcloses : tagging.closes word with
      | true =>
          obtain ⟨top, rfl, rfl⟩ := exists_top_of_step? hopens hcloses hstep
          exact .inr (.inl ⟨rfl, top, rfl, rfl, fun rest => step?_closingTag hopens hcloses⟩)
      | false =>
          have hsame : ∀ rest, tagging.step? rest word = some rest := by
            intro rest
            simp only [step?, hopens, hcloses, Bool.false_eq_true, if_false]
          rw [hsame] at hstep
          exact .inr (.inr ⟨(Option.some.inj hstep).symm, hsame⟩)

theorem replay?_append (first second : List String) :
    tagging.replay? (first ++ second) stack =
      (tagging.replay? first stack).bind (tagging.replay? second) := by
  induction first generalizing stack with
  | nil => rfl
  | cons word first ih =>
      rw [List.cons_append, replay?, replay?, Option.bind_assoc]
      exact Option.bind_congr fun below _ => ih

/-! ## Inside an open tag -/

/-- A word that does not close an open tag does not look at it, nor at what is open around it. -/
theorem exists_step?_above (hstep : tagging.step? (above ++ name :: below) word = some left)
    (hword : closingTag name ≠ word) :
    ∃ names, left = names ++ name :: below ∧
      (∀ other ∈ names, other ∈ above ∨ tagging.opened? word = some other) ∧
      ∀ rest, tagging.step? (above ++ name :: rest) word = some (names ++ name :: rest) := by
  rcases step?_cases hstep with ⟨opening, hopens, rfl⟩ | ⟨-, top, hstack, htop, hsame⟩ |
    ⟨rfl, hsame⟩
  · refine ⟨opening :: above, rfl, fun other hother => ?_, fun rest => step?_of_opened hopens⟩
    rcases List.mem_cons.mp hother with rfl | hother
    · exact .inr hopens
    · exact .inl hother
  · cases above with
    | nil =>
        obtain ⟨rfl, -⟩ := List.cons.inj hstack
        exact absurd htop.symm hword
    | cons first above =>
        obtain ⟨rfl, rfl⟩ := List.cons.inj hstack
        exact ⟨above, rfl, fun other hother => .inl (List.mem_cons_of_mem first hother),
          fun rest => hsame _⟩
  · exact ⟨above, rfl, fun other hother => .inl hother, fun rest => hsame _⟩

/-- The same holds for words that are replayed as long as the tag stays open. -/
theorem exists_replay?_above (hreplay : tagging.replay? words (above ++ name :: below) = some left)
    (hclosing : closingTag name ∉ words) :
    ∃ names, left = names ++ name :: below ∧
      (∀ other ∈ names, other ∈ above ∨ ∃ word ∈ words, tagging.opened? word = some other) ∧
      ∀ rest, tagging.replay? words (above ++ name :: rest) = some (names ++ name :: rest) := by
  induction words generalizing above with
  | nil =>
      exact ⟨above, (Option.some.inj hreplay).symm, fun other hother => .inl hother,
        fun rest => rfl⟩
  | cons word words ih =>
      rw [List.mem_cons, not_or] at hclosing
      obtain ⟨next, hstep, hrest⟩ := Option.bind_eq_some_iff.mp hreplay
      obtain ⟨more, rfl, hmore, hword⟩ := exists_step?_above hstep hclosing.1
      obtain ⟨names, rfl, hnames, hwords⟩ := ih hrest hclosing.2
      refine ⟨names, rfl, fun other hother => ?_, fun rest => ?_⟩
      · rcases hnames other hother with hother | ⟨opener, hopener, hopens⟩
        · rcases hmore other hother with hother | hopens
          · exact .inl hother
          · exact .inr ⟨word, List.mem_cons_self, hopens⟩
        · exact .inr ⟨opener, List.mem_cons_of_mem word hopener, hopens⟩
      · rw [replay?, hword, Option.bind_some, hwords]

/-- So words that do not close the innermost open tag are replayed without looking at it. -/
theorem exists_replay?_inside (hreplay : tagging.replay? words (name :: below) = some left)
    (hclosing : closingTag name ∉ words) :
    ∃ names, left = names ++ name :: below ∧
      (∀ other ∈ names, ∃ word ∈ words, tagging.opened? word = some other) ∧
      ∀ rest, tagging.replay? words (name :: rest) = some (names ++ name :: rest) := by
  have hnothing : tagging.replay? words ([] ++ name :: below) = some left := hreplay
  obtain ⟨names, hleft, hnames, hany⟩ := exists_replay?_above hnothing hclosing
  exact ⟨names, hleft, fun other hother => by simpa using hnames other hother, hany⟩

/-- A tag whose closing tag is not read as one stays open. -/
theorem mem_of_replay? (hcloses : tagging.closes (closingTag name) = false) (hname : name ∈ stack)
    (hreplay : tagging.replay? words stack = some left) : name ∈ left := by
  induction words generalizing stack with
  | nil => rwa [← Option.some.inj hreplay]
  | cons word words ih =>
      obtain ⟨next, hstep, hrest⟩ := Option.bind_eq_some_iff.mp hreplay
      refine ih ?_ hrest
      rcases step?_cases hstep with ⟨opening, -, rfl⟩ | ⟨hword, top, rfl, htop, -⟩ | ⟨rfl, -⟩
      · exact List.mem_cons_of_mem opening hname
      · rcases List.mem_cons.mp hname with rfl | hbelow
        · rw [htop, hcloses] at hword
          cases hword
        · exact hbelow
      · exact hname

/-! ## Spans -/

/-- In well nested words the closing tag of an opening tag follows. -/
theorem WellNested.closingTag_mem (hnested : tagging.WellNested (before ++ word :: words))
    (hopens : tagging.opened? word = some name) : closingTag name ∈ words := by
  rw [WellNested, replay?_append] at hnested
  obtain ⟨stack, -, hrest⟩ := Option.bind_eq_some_iff.mp hnested
  rw [replay?, step?_of_opened hopens, Option.bind_some] at hrest
  by_cases hclosing : closingTag name ∈ words
  · exact hclosing
  · obtain ⟨names, hleft, -⟩ := exists_replay?_inside hrest hclosing
    simp at hleft

/-- A span that reaches to the first closing tag for its opening tag can be taken out, and leaves
well nested words, if no tag with the same closing tag is opened in it. -/
theorem WellNested.split
    (hnested : tagging.WellNested (before ++ word :: inside ++ closingTag name :: after))
    (hopens : tagging.opened? word = some name)
    (hcloses : tagging.opened? (closingTag name) = none) (hfirst : closingTag name ∉ inside)
    (hinside : ∀ other ∈ inside, ∀ opening, tagging.opened? other = some opening →
      closingTag opening ≠ closingTag name) :
    tagging.WellNested (word :: inside ++ [closingTag name]) ∧
      tagging.WellNested (before ++ after) := by
  rw [WellNested, List.append_assoc, replay?_append] at hnested
  obtain ⟨stack, hbefore, hrest⟩ := Option.bind_eq_some_iff.mp hnested
  rw [List.cons_append, replay?, step?_of_opened hopens, Option.bind_some, replay?_append] at hrest
  obtain ⟨left, hspan, hafter⟩ := Option.bind_eq_some_iff.mp hrest
  obtain ⟨names, rfl, hnames, hany⟩ := exists_replay?_inside hspan hfirst
  cases hclosing : tagging.closes (closingTag name) with
  | false =>
      have hopen := mem_of_replay? hclosing (by simp) hafter
      cases hopen
  | true =>
      obtain ⟨next, hstep, hlast⟩ := Option.bind_eq_some_iff.mp hafter
      obtain ⟨top, hstack, htop⟩ := exists_top_of_step? hcloses hclosing hstep
      cases names with
      | cons first names =>
          -- then a tag with the same closing tag would have been opened in the span
          obtain ⟨rfl, -⟩ := List.cons.inj hstack
          obtain ⟨other, hother, hopening⟩ := hnames first List.mem_cons_self
          exact absurd htop.symm (hinside other hother first hopening)
      | nil =>
          obtain ⟨-, rfl⟩ := List.cons.inj hstack
          have hspan' : tagging.replay? inside [name] = some [name] := hany []
          constructor
          · rw [WellNested, List.cons_append, replay?, step?_of_opened hopens, Option.bind_some,
              replay?_append, hspan', Option.bind_some, replay?, step?_closingTag hcloses hclosing]
            rfl
          · rw [WellNested, replay?_append, hbefore, Option.bind_some]
            exact hlast

/-! ## The two ways in use -/

/-- A search takes a word for a tag if one stands at its start. -/
def ofStart : Tagging where
  opened? word := if isClosing word then none else tagName? word
  closes word := isClosing word && (tagName? word).isSome

/-- A repair takes a word for a tag if the whole word is one. -/
def ofWord : Tagging where
  opened? := openAnyTagName?
  closes word := (closeTagName? word).isSome

theorem opened?_ofStart_iff :
    ofStart.opened? word = some name ↔ isClosing word = false ∧ tagName? word = some name := by
  simp [ofStart]

theorem opened?_ofStart_closingTag (name : String) : ofStart.opened? (closingTag name) = none := by
  simp [ofStart, isClosing_closingTag]

theorem opened?_ofWord_closingTag (name : String) : ofWord.opened? (closingTag name) = none := by
  rw [closingTag_eq]
  exact openAnyTagName?_closing (baseName name)

theorem step?_ofStart (stack : List String) (word : String) :
    ofStart.step? stack word = replayToken? stack word := by
  cases hname : tagName? word with
  | none => simp [step?, replayToken?, ofStart, hname]
  | some name =>
      cases hcloses : isClosing word with
      | false => simp [step?, replayToken?, ofStart, hname, hcloses]
      | true => cases stack <;> simp [step?, replayToken?, ofStart, hname, hcloses]

theorem replay?_ofStart (words stack : List String) :
    ofStart.replay? words stack = Tag.replay? words stack := by
  induction words generalizing stack with
  | nil => rfl
  | cons word words ih =>
      rw [replay?, step?_ofStart, Tag.replay?_cons]
      exact Option.bind_congr fun below _ => ih below

theorem wellNested_ofStart_iff (words : List String) :
    ofStart.WellNested words ↔ Tag.WellNested words := by
  rw [WellNested, replay?_ofStart]
  rfl

theorem replay?_ofWord (words stack : List String) :
    ofWord.replay? words stack = Repair.replay? words stack := by
  induction words generalizing stack with
  | nil => rfl
  | cons word words ih =>
      have hstep : ofWord.step? stack word = Repair.replayWord? stack word := rfl
      rw [replay?, hstep, Repair.replay?]
      exact Option.bind_congr fun below _ => ih below

end Tagging

end Phraseology.Tag
