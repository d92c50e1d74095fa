import Phraseology.Proofs.Tag.Opening

/-!
# Nested spans of a frame

A frame is replayed with the names of the tags that are open, innermost first: an
opening tag pushes its name, and a closing tag has to be the one for the name on top.
`Nests stack words left` says that this succeeds and leads from the open tags `stack` to
`left`, and that each command is opened where one may stand: outside of all tags, or
directly inside the sentence or the list of commands.  A frame is balanced if it leads
from no open tags to none.
-/

namespace Phraseology.Repair

/-- The names of the open tags behind a word, or none for a closing tag that does not
belong to the innermost open tag. -/
def replayWord? (stack : List String) (word : String) : Option (List String) :=
  match Tag.openAnyTagName? word with
  | some name => some (name :: stack)
  | none =>
    if (Tag.closeTagName? word).isSome then
      match stack with
      | [] => none
      | top :: below => if word = Tag.closingTag top then some below else none
    else some stack

/-- The names of the open tags behind some words. -/
def replay? : List String → List String → Option (List String)
  | [], stack => some stack
  | word :: rest, stack => (replayWord? stack word).bind (replay? rest)

/-- Whether a command may be opened inside some open tags. -/
def HoldsCommands (stack : List String) : Prop :=
  ∀ top ∈ stack.head?, top = "s" ∨ top = "commands"

instance (stack : List String) : Decidable (HoldsCommands stack) :=
  inferInstanceAs (Decidable (∀ top ∈ stack.head?, top = "s" ∨ top = "commands"))

/-- Words that are nested spans, with their commands where commands may stand. -/
structure Nests (stack words left : List String) : Prop where
  replays : replay? words stack = some left
  placed : ∀ before type after, words = before ++ Tag.commandOpener type :: after →
    Tag.IsName type → ∃ opened, replay? before stack = some opened ∧ HoldsCommands opened

/-- Each tag is closed, innermost first, and each command stands where it may. -/
def Balanced (words : List String) : Prop :=
  Nests [] words []

variable {stack below left words first second : List String} {word name : String}

/-! ## One word -/

theorem replayWord?_opener (hname : Tag.OpenName name) :
    replayWord? stack (Tag.opener name) = some (name :: stack) := by
  simp [replayWord?, hname.openAnyTagName?_opener]

theorem replayWord?_closingTag (hname : Tag.OpenName name) :
    replayWord? (name :: stack) (Tag.closingTag name) = some stack := by
  obtain ⟨base, hbase, hclosing⟩ := hname.closingTag_eq
  simp [replayWord?, hclosing, Tag.openAnyTagName?_closing, hbase.closeTagName?_closing]

/-- A closing tag that can be replayed closes the innermost open tag. -/
theorem exists_top_of_replayWord?_closing (hopens : Tag.openAnyTagName? word = none)
    (hcloses : (Tag.closeTagName? word).isSome) (hreplay : replayWord? stack word = some below) :
    ∃ top, stack = top :: below ∧ word = Tag.closingTag top := by
  unfold replayWord? at hreplay
  rw [hopens] at hreplay
  simp only [hcloses, if_true] at hreplay
  cases stack with
  | nil => cases hreplay
  | cons top rest =>
      by_cases htop : word = Tag.closingTag top
      · simp only [if_pos htop, Option.some.injEq] at hreplay
        exact ⟨top, hreplay ▸ rfl, htop⟩
      · simp [if_neg htop] at hreplay

/-- A word that is no tag changes nothing. -/
theorem replayWord?_word (hopens : Tag.openAnyTagName? word = none)
    (hcloses : ¬ (Tag.closeTagName? word).isSome) : replayWord? stack word = some stack := by
  simp [replayWord?, hopens, hcloses]

/-! ## Several words -/

theorem nests_nil_iff : Nests stack [] left ↔ stack = left := by
  constructor
  · intro hnests
    exact Option.some.inj hnests.replays
  · rintro rfl
    exact ⟨rfl, by simp⟩

theorem nests_cons_iff :
    Nests stack (word :: words) left ↔
      ∃ below, replayWord? stack word = some below ∧
        (∀ type, word = Tag.commandOpener type → Tag.IsName type → HoldsCommands stack) ∧
        Nests below words left := by
  constructor
  · rintro ⟨hreplays, hplaced⟩
    obtain ⟨below, hword, hwords⟩ := Option.bind_eq_some_iff.mp hreplays
    refine ⟨below, hword, fun type htype hname => ?_, hwords,
      fun before type after hsplit hname => ?_⟩
    · obtain ⟨opened, hopened, hholds⟩ := hplaced [] type words (by rw [htype]; rfl) hname
      exact Option.some.inj hopened ▸ hholds
    · obtain ⟨opened, hopened, hholds⟩ :=
        hplaced (word :: before) type after (by rw [hsplit]; rfl) hname
      rw [replay?, hword] at hopened
      exact ⟨opened, hopened, hholds⟩
  · rintro ⟨below, hword, hhead, hreplays, hplaced⟩
    refine ⟨by rw [replay?, hword]; exact hreplays, fun before type after hsplit hname => ?_⟩
    cases before with
    | nil =>
        exact ⟨stack, rfl, hhead type (List.cons.inj hsplit).1 hname⟩
    | cons other before =>
        obtain ⟨rfl, hrest⟩ := List.cons.inj hsplit
        obtain ⟨opened, hopened, hholds⟩ := hplaced before type after hrest hname
        exact ⟨opened, by rw [replay?, hword]; exact hopened, hholds⟩

theorem Nests.append {middle : List String} (hfirst : Nests stack first middle)
    (hsecond : Nests middle second left) : Nests stack (first ++ second) left := by
  induction first generalizing stack with
  | nil =>
      obtain rfl := nests_nil_iff.mp hfirst
      exact hsecond
  | cons word first ih =>
      obtain ⟨below, hword, hhead, hrest⟩ := nests_cons_iff.mp hfirst
      exact nests_cons_iff.mpr ⟨below, hword, hhead, ih hrest⟩

/-! ## Single tags -/

/-- A word that opens nothing may stand anywhere. -/
theorem nests_singleton (hword : replayWord? stack word = some left)
    (hopens : Tag.openAnyTagName? word = none) : Nests stack [word] left := by
  refine nests_cons_iff.mpr ⟨left, hword, fun type htype hname => ?_, nests_nil_iff.mpr rfl⟩
  rw [htype, ← Tag.opener_command, (Tag.OpenName.command hname).openAnyTagName?_opener] at hopens
  cases hopens

/-- An opening tag stands where it may if it opens no command or commands are held. -/
theorem nests_opener (hname : Tag.OpenName name)
    (hplace : Tag.isCommandOpen (Tag.opener name) = true → HoldsCommands stack) :
    Nests stack [Tag.opener name] (name :: stack) := by
  refine nests_cons_iff.mpr ⟨name :: stack, replayWord?_opener hname, fun type htype hnamed => ?_,
    nests_nil_iff.mpr rfl⟩
  exact hplace (by rw [htype]; exact hnamed.isCommandOpen_command)

theorem nests_closingTag (hname : Tag.OpenName name) :
    Nests (name :: stack) [Tag.closingTag name] stack := by
  refine nests_singleton (replayWord?_closingTag hname) ?_
  rw [Tag.closingTag_eq, Tag.openAnyTagName?_closing]

/-- Closing tags for the innermost open tags close just these. -/
theorem nests_map_closingTag {names : List String} (hnames : ∀ name ∈ names, Tag.OpenName name)
    (stack : List String) : Nests (names ++ stack) (names.map Tag.closingTag) stack := by
  induction names with
  | nil => exact nests_nil_iff.mpr rfl
  | cons name names ih =>
      have hrest := ih fun other hother => hnames other (List.mem_cons_of_mem name hother)
      exact (nests_closingTag (hnames name List.mem_cons_self)).append hrest

end Phraseology.Repair
