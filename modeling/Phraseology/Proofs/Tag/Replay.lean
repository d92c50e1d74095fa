import Phraseology.Proofs.Tag.Shape

/-!
# Replaying tags

`Tag.replay?` goes through some tokens with a stack of names: an opening tag pushes
its name, and a closing tag has to be the closing tag for the name on top, which it
pops.  Tokens are well nested if this succeeds and leaves nothing on the stack.
-/

namespace Phraseology.Tag

/-- The names of the open tags behind a token, innermost first, when those of `stack`
are open in front of it.  There are none if the token is a closing tag that does not
belong to the innermost open tag. -/
def replayToken? (stack : List String) (token : String) : Option (List String) :=
  match tagName? token with
  | none => some stack
  | some name =>
    if isClosing token then
      match stack with
      | [] => none
      | top :: below => if token = closingTag top then some below else none
    else some (name :: stack)

/-- The names of the open tags behind some tokens. -/
def replay? : List String → List String → Option (List String)
  | [], stack => some stack
  | token :: rest, stack => (replayToken? stack token).bind (replay? rest)

/-- Each closing tag closes the innermost open tag, and nothing stays open. -/
def WellNested (tokens : List String) : Prop :=
  replay? tokens [] = some []

instance (tokens : List String) : Decidable (WellNested tokens) :=
  inferInstanceAs (Decidable (replay? tokens [] = some []))

variable {tokens first second stack : List String} {token name : String}

/-! ## One token -/

@[simp] theorem replay?_nil : replay? [] stack = some stack := rfl

theorem replay?_cons :
    replay? (token :: tokens) stack = (replayToken? stack token).bind (replay? tokens) := rfl

theorem replay?_cons_word (hword : tagName? token = none) :
    replay? (token :: tokens) stack = replay? tokens stack := by
  simp [replay?_cons, replayToken?, hword]

theorem replay?_cons_opening (hname : tagName? token = some name)
    (hopens : isClosing token = false) :
    replay? (token :: tokens) stack = replay? tokens (name :: stack) := by
  simp [replay?_cons, replayToken?, hname, hopens]

theorem replay?_cons_closingTag (hname : '\n' ∉ name.toList) :
    replay? (closingTag name :: tokens) (name :: stack) = replay? tokens stack := by
  obtain ⟨found, hfound⟩ := Option.isSome_iff_exists.mp (isSome_tagName?_closingTag hname)
  simp [replay?_cons, replayToken?, hfound, isClosing_closingTag]

/-- A closing tag that can be replayed closes the innermost open tag. -/
theorem exists_top_of_replay?_closing {left : List String} (hname : tagName? token = some name)
    (hcloses : isClosing token = true) (hreplay : replay? (token :: tokens) stack = some left) :
    ∃ top below, stack = top :: below ∧ token = closingTag top ∧
      replay? tokens below = some left := by
  rw [replay?_cons] at hreplay
  unfold replayToken? at hreplay
  rw [hname] at hreplay
  simp only [hcloses, if_true] at hreplay
  cases stack with
  | nil => exact absurd hreplay (by simp)
  | cons top below =>
      by_cases htop : token = closingTag top
      · simp only [if_pos htop, Option.bind_some] at hreplay
        exact ⟨top, below, rfl, htop, hreplay⟩
      · simp only [if_neg htop, Option.bind_none] at hreplay
        exact absurd hreplay (by simp)

/-! ## Several tokens -/

theorem replay?_append :
    replay? (first ++ second) stack = (replay? first stack).bind (replay? second) := by
  induction first generalizing stack with
  | nil => rfl
  | cons token first ih =>
      rw [List.cons_append, replay?_cons, replay?_cons, Option.bind_assoc]
      exact Option.bind_congr fun below _ => ih

theorem replay?_words (hwords : ∀ token ∈ tokens, tagName? token = none) :
    replay? tokens stack = some stack := by
  induction tokens with
  | nil => rfl
  | cons token tokens ih =>
      rw [replay?_cons_word (hwords token (List.mem_cons_self ..))]
      exact ih fun other hother => hwords other (List.mem_cons_of_mem _ hother)

theorem replay?_map_closingTag {names : List String} (hnames : ∀ name ∈ names, '\n' ∉ name.toList)
    (stack : List String) :
    replay? (names.map closingTag) (names ++ stack) = some stack := by
  induction names with
  | nil => rfl
  | cons name names ih =>
      rw [List.map_cons, List.cons_append,
        replay?_cons_closingTag (hnames name (List.mem_cons_self ..))]
      exact ih fun other hother => hnames other (List.mem_cons_of_mem _ hother)

end Phraseology.Tag
