import Phraseology.Frame.Reader
import Phraseology.Proofs.Frame.Reading
import Phraseology.Proofs.Frame.Repair

/-!
# Commands stand one after the other

Spans are cut out of a frame by their text alone: a command runs from a tag that opens one
to the next `</command>`, and a callsign to the next `</callsign>`.  So what counts for a
cut is not which tags are open in a repair, but what was opened last in the text.  That is
the `Region` of a word.

A repair keeps the two in step (`Tracks`).  Of the open tags at most one is a command, and
what stands inside of it holds no commands; a callsign that is open in the text is open in
the repair, with no command and nothing that holds commands inside.  From this follows
that each command is opened outside of commands and callsigns, and closed in a command,
outside of callsigns (`Allows`).

It takes two things of the text.  What starts like a command has to be one
(`PlainCommands`), for any other tag named like a command is closed by `</command>` as
well.  And sentences and lists of commands have to stand outside of commands and callsigns
(`HoldersOutside`), for they keep a command from closing what is open around them.
-/

namespace Phraseology.Repair

/-- Whether words stand in a command and in a callsign: behind a tag that opens one, and in
front of the next tag that closes one. -/
@[ext] structure Region where
  command : Bool
  callsign : Bool
deriving DecidableEq, Repr

namespace Region

/-- Outside of commands and callsigns. -/
def outside : Region := ⟨false, false⟩

/-- Where the words behind a word stand. -/
def enter (region : Region) (word : String) : Region where
  command := Tag.isCommandOpen word || (region.command && word != Tag.commandClose)
  callsign := word == Tag.callsignOpen || (region.callsign && word != Tag.callsignClose)

/-- Where the words behind some words stand. -/
def after (region : Region) (words : List String) : Region :=
  words.foldl enter region

theorem after_append (region : Region) (first second : List String) :
    region.after (first ++ second) = (region.after first).after second :=
  List.foldl_append

end Region

/-- Each of some words stands where it may. -/
def Placed (allowed : Region → String → Prop) : Region → List String → Prop
  | _, [] => True
  | region, word :: rest => allowed region word ∧ Placed allowed (region.enter word) rest

/-- Commands are opened outside of commands and callsigns, and are closed outside of
callsigns. -/
structure Allows (region : Region) (word : String) : Prop where
  opener : Tag.isCommandOpen word = true → region = .outside
  closer : word = Tag.commandClose → region = ⟨true, false⟩

/-- Sentences and lists of commands are opened outside of commands and callsigns. -/
def HoldersOutside (region : Region) (words : List String) : Prop :=
  Placed (fun region word => holdsCommands word = true → region = .outside) region words

/-- Words that start like a command are either the tag of a list of commands or that of a
command with its type. -/
def PlainCommands (words : List String) : Prop :=
  ∀ word ∈ words, "<command".toList.isPrefixOf word.toList = true →
    word = Tag.commandsOpen ∨ ∃ type, Tag.IsName type ∧ word = Tag.commandOpener type

section

variable {allowed : Region → String → Prop}

instance decidablePlaced [∀ region word, Decidable (allowed region word)] :
    (region : Region) → (words : List String) → Decidable (Placed allowed region words)
  | _, [] => isTrue trivial
  | region, word :: rest =>
    have := decidablePlaced (region.enter word) rest
    inferInstanceAs (Decidable (_ ∧ _))

instance (region : Region) (words : List String) : Decidable (HoldersOutside region words) :=
  decidablePlaced region words

theorem placed_append {region : Region} {first second : List String} :
    Placed allowed region (first ++ second) ↔
      Placed allowed region first ∧ Placed allowed (region.after first) second := by
  induction first generalizing region with
  | nil => exact (and_iff_right trivial).symm
  | cons word first ih => rw [List.cons_append, Placed, Placed, ih, and_assoc]; rfl

end

variable {region : Region} {stack words : List String} {word opener name : String}
  {token : Token} {tokens : List Token}

/-! ## Words of a region -/

theorem isCommandOpen_of_holdsCommands (hholds : holdsCommands word = true) :
    Tag.isCommandOpen word = false := by
  rw [holdsCommands, Bool.or_eq_true, beq_iff_eq, beq_iff_eq] at hholds
  rcases hholds with rfl | rfl
  · decide
  · decide

theorem isCommandOpen_closing (base : String) :
    Tag.isCommandOpen ("</" ++ base ++ ">") = false := by
  simp [Tag.isCommandOpen, Tag.commandType?, Tag.dropStart?, List.isPrefixOf]

/-- A word that starts like a command of some type starts like a command. -/
theorem isPrefixOf_of_isCommandOpen (hcommand : Tag.isCommandOpen word = true) :
    "<command".toList.isPrefixOf word.toList = true := by
  unfold Tag.isCommandOpen Tag.commandType? Tag.dropStart? at hcommand
  split at hcommand
  · next hprefix =>
      rw [List.isPrefixOf_iff_prefix] at hprefix ⊢
      have hstart : "<command".toList <+: "<command=\"".toList := ⟨"=\"".toList, rfl⟩
      exact hstart.trans hprefix
  · simp at hcommand

/-- Among plain commands an opening tag is closed by `</command>` exactly if it opens a
command. -/
theorem PlainCommands.closes_iff (hplain : PlainCommands words) (hword : word ∈ words)
    (hopens : Tag.openAnyTagName? word = some name) :
    Tag.closingTag name = Tag.commandClose ↔ Tag.isCommandOpen word = true := by
  have htyped : ∀ {type : String}, Tag.IsName type → word = Tag.commandOpener type →
      Tag.isCommandOpen word = true ∧ Tag.closingTag name = Tag.commandClose := by
    rintro type htype rfl
    rw [← Tag.opener_command, (Tag.OpenName.command htype).openAnyTagName?_opener] at hopens
    obtain rfl := Option.some.inj hopens
    exact ⟨htype.isCommandOpen_command, Tag.closingTag_command type⟩
  constructor
  · intro hcloses
    have hbase : Tag.baseName name = "command" := by
      have hsame : "</" ++ Tag.baseName name ++ ">" = "</" ++ "command" ++ ">" := by
        rw [← Tag.closingTag_eq, hcloses]
        rfl
      rw [← String.toList_inj, String.toList_append, String.toList_append, String.toList_append,
        String.toList_append, List.append_left_inj, List.append_right_inj] at hsame
      exact String.toList_inj.mp hsame
    have hstart : "command".toList <+: name.toList := by
      by_cases hnamed : Tag.namesCommand name = true
      · have hkeyword : "command".toList <+: "command=".toList := ⟨"=".toList, rfl⟩
        exact hkeyword.trans (List.isPrefixOf_iff_prefix.mp hnamed)
      · rw [Tag.baseName, if_neg hnamed] at hbase
        exact hbase ▸ List.prefix_rfl
    obtain ⟨more, hmore⟩ := hstart
    have hprefix : "<command".toList.isPrefixOf word.toList = true := by
      rw [(Tag.openAnyTagName?_eq_some hopens).1, List.isPrefixOf_iff_prefix]
      exact ⟨more ++ ['>'], by simp [Tag.opener, ← hmore]⟩
    rcases hplain word hword hprefix with rfl | ⟨type, htype, hcommand⟩
    · -- a list of commands has a closing tag of its own
      have hname : Tag.openAnyTagName? Tag.commandsOpen = some "commands" := by decide
      obtain rfl := Option.some.inj (hname.symm.trans hopens)
      exact absurd hcloses (by decide)
    · exact (htyped htype hcommand).1
  · intro hcommand
    rcases hplain word hword (isPrefixOf_of_isCommandOpen hcommand) with rfl | ⟨type, htype, htag⟩
    · exact absurd hcommand (by decide)
    · exact (htyped htype htag).2

/-! ## The open tags and the region -/

/-- An open tag whose closing tag closes a command only if it opens one. -/
def Proper (opener : String) : Prop :=
  ∃ name, Tag.openAnyTagName? opener = some name ∧
    (Tag.closingTag name = Tag.commandClose ↔ Tag.isCommandOpen opener = true)

/-- A tag that opens no command and nothing that holds commands. -/
def IsField (opener : String) : Prop :=
  holdsCommands opener = false ∧ Tag.isCommandOpen opener = false

/-- The open tags of a repair in some region, innermost first. -/
structure Tracks (region : Region) (stack : List String) : Prop where
  proper : ∀ opener ∈ stack, Proper opener
  command : region.command = stack.any Tag.isCommandOpen
  fields : stack.Pairwise fun upper lower => Tag.isCommandOpen lower = true → IsField upper
  callsign : region.callsign = true →
    ∃ above below, stack = above ++ Tag.callsignOpen :: below ∧ ∀ opener ∈ above, IsField opener

/-- Some words stand where they may and lead to some open tags. -/
def Leads (region : Region) (words stack : List String) : Prop :=
  Placed Allows region words ∧ Tracks (region.after words) stack

theorem Leads.append {first second middle left : List String} (hfirst : Leads region first middle)
    (hsecond : Leads (region.after first) second left) : Leads region (first ++ second) left := by
  refine ⟨placed_append.mpr ⟨hfirst.1, hsecond.1⟩, ?_⟩
  rw [Region.after_append]
  exact hsecond.2

namespace Tracks

/-- No callsign is open below what may not stand in one. -/
theorem callsign_eq_false {below : List String} (htracks : Tracks region (opener :: below))
    (hcallsign : opener ≠ Tag.callsignOpen) (hfield : ¬ IsField opener) :
    region.callsign = false := by
  rw [← Bool.not_eq_true]
  intro hopen
  obtain ⟨above, rest, hstack, hfields⟩ := htracks.callsign hopen
  cases above with
  | nil => exact hcallsign (List.cons.inj hstack).1
  | cons upper above =>
      rw [(List.cons.inj hstack).1] at hfield
      exact hfield (hfields upper List.mem_cons_self)

/-- Where a tag stands on top that holds commands, no command and no callsign is open. -/
theorem eq_outside_of_holder {below : List String} (htracks : Tracks region (opener :: below))
    (hholds : holdsCommands opener = true) : region = .outside := by
  have hfield : ¬ IsField opener := by
    intro hfield
    rw [hfield.1] at hholds
    cases hholds
  have hcommand : region.command = false := by
    rw [htracks.command, List.any_cons, isCommandOpen_of_holdsCommands hholds, Bool.false_or,
      List.any_eq_false]
    intro lower hlower hopens
    exact hfield ((List.pairwise_cons.mp htracks.fields).1 lower hlower hopens)
  have hcallsign : region.callsign = false := by
    refine htracks.callsign_eq_false ?_ hfield
    rintro rfl
    exact absurd hholds (by decide)
  exact Region.ext hcommand hcallsign

/-- At the end nothing is open. -/
theorem eq_outside_of_nil (htracks : Tracks region []) : region = .outside := by
  have hcallsign : region.callsign = false := by
    rw [← Bool.not_eq_true]
    intro hopen
    obtain ⟨above, below, hstack, -⟩ := htracks.callsign hopen
    simp at hstack
  exact Region.ext htracks.command hcallsign

/-- Where a command may be opened, no command and no callsign is open. -/
theorem eq_outside (htracks : Tracks region stack)
    (hholds : ∀ top ∈ stack.head?, holdsCommands top = true) : region = .outside := by
  cases stack with
  | nil => exact htracks.eq_outside_of_nil
  | cons top below => exact htracks.eq_outside_of_holder (hholds top rfl)

/-- Where a command stands on top, no callsign is open. -/
theorem eq_command_of_command {below : List String} (htracks : Tracks region (opener :: below))
    (hopens : Tag.isCommandOpen opener = true) : region = ⟨true, false⟩ := by
  have hcommand : region.command = true := by
    rw [htracks.command, List.any_cons, hopens, Bool.true_or]
  have hcallsign : region.callsign = false := by
    apply htracks.callsign_eq_false
    · rintro rfl
      exact absurd hopens (by decide)
    · intro hfield
      rw [hfield.2] at hopens
      cases hopens
  exact Region.ext hcommand hcallsign

/-! ## Closing a tag -/

/-- The innermost open tag is closed by its closing tag. -/
theorem pop {below : List String} (htracks : Tracks region (opener :: below))
    (hopens : Tag.openAnyTagName? opener = some name) :
    Leads region [Tag.closingTag name] below := by
  have hcloses : Tag.closingTag name = Tag.commandClose ↔ Tag.isCommandOpen opener = true := by
    obtain ⟨other, hother, hiff⟩ := htracks.proper opener List.mem_cons_self
    rwa [Option.some.inj (hopens.symm.trans hother)]
  have hnocommand : Tag.isCommandOpen (Tag.closingTag name) = false := by
    rw [Tag.closingTag_eq]
    exact isCommandOpen_closing _
  have hnocallsign : (Tag.closingTag name == Tag.callsignOpen) = false := by
    rw [beq_eq_false_iff_ne]
    intro hsame
    have hclosing := Tag.isClosing_closingTag name
    rw [hsame] at hclosing
    exact absurd hclosing (by decide)
  refine ⟨⟨⟨fun h => ?_, fun h => ?_⟩, trivial⟩, ⟨?_, ?_, ?_, ?_⟩⟩
  · rw [hnocommand] at h
    cases h
  · exact htracks.eq_command_of_command (hcloses.mp h)
  · exact fun other hother => htracks.proper other (List.mem_cons_of_mem _ hother)
  · show (Tag.isCommandOpen (Tag.closingTag name) ||
      (region.command && Tag.closingTag name != Tag.commandClose)) = _
    rw [hnocommand, Bool.false_or, htracks.command, List.any_cons]
    by_cases hcommand : Tag.isCommandOpen opener = true
    · -- the only command is closed
      have hnone : below.any Tag.isCommandOpen = false := by
        rw [List.any_eq_false]
        intro lower hlower hother
        have hfield := (List.pairwise_cons.mp htracks.fields).1 lower hlower hother
        rw [hfield.2] at hcommand
        cases hcommand
      rw [hcloses.mpr hcommand, hnone]
      simp
    · have hdiffers : Tag.closingTag name ≠ Tag.commandClose := fun h => hcommand (hcloses.mp h)
      simp [hcommand, hdiffers]
  · exact (List.pairwise_cons.mp htracks.fields).2
  · intro hopen
    have hinside : region.callsign = true ∧ Tag.closingTag name ≠ Tag.callsignClose := by
      have hcase : (Tag.closingTag name == Tag.callsignOpen ||
        (region.callsign && Tag.closingTag name != Tag.callsignClose)) = true := hopen
      simpa [hnocallsign] using hcase
    obtain ⟨above, rest, hstack, hfields⟩ := htracks.callsign hinside.1
    cases above with
    | nil =>
        -- the callsign itself is on top, and its closing tag closes it
        obtain ⟨rfl, -⟩ := List.cons.inj hstack
        have hname : Tag.openAnyTagName? Tag.callsignOpen = some "callsign" := by decide
        obtain rfl := Option.some.inj (hname.symm.trans hopens)
        exact absurd rfl hinside.2
    | cons upper above =>
        refine ⟨above, rest, (List.cons.inj hstack).2, ?_⟩
        exact fun other hother => hfields other (List.mem_cons_of_mem _ hother)

/-- The innermost open tags are closed one after the other. -/
theorem popAll {inside outside : List String} (htracks : Tracks region (inside ++ outside)) :
    Leads region ((closersOf inside).map (·.word)) outside := by
  induction inside generalizing region with
  | nil => exact ⟨trivial, htracks⟩
  | cons opener inside ih =>
      obtain ⟨name, hopens, -⟩ := htracks.proper opener List.mem_cons_self
      have hpop := htracks.pop hopens
      have hwords : (closersOf (opener :: inside)).map (·.word) =
          [Tag.closingTag name] ++ (closersOf inside).map (·.word) := by
        simp [closersOf, closerOf, hopens, Token.plain]
      rw [hwords]
      exact hpop.append (ih hpop.2)

/-! ## Opening a tag -/

theorem ne_closing (hopens : Tag.openAnyTagName? word = some name) (base : String) :
    word ≠ "</" ++ base ++ ">" := by
  rintro rfl
  rw [Tag.openAnyTagName?_closing] at hopens
  cases hopens

/-- A tag other than that of a command is opened; one that holds commands only outside. -/
theorem pushField (htracks : Tracks region stack) (hproper : Proper opener)
    (hfield : Tag.isCommandOpen opener = false)
    (hholds : holdsCommands opener = true → region = .outside) :
    Leads region [opener] (opener :: stack) := by
  obtain ⟨name, hopens, hcloses⟩ := hproper
  have hnocommand : opener ≠ Tag.commandClose := ne_closing hopens "command"
  have hinner : region ≠ .outside → IsField opener :=
    fun hopen => ⟨Bool.not_eq_true _ ▸ fun h => hopen (hholds h), hfield⟩
  refine ⟨⟨⟨fun h => ?_, fun h => absurd h hnocommand⟩, trivial⟩, ⟨?_, ?_, ?_, ?_⟩⟩
  · rw [hfield] at h
    cases h
  · exact List.forall_mem_cons.mpr ⟨⟨name, hopens, hcloses⟩, htracks.proper⟩
  · show (Tag.isCommandOpen opener || (region.command && opener != Tag.commandClose)) = _
    rw [List.any_cons, hfield, htracks.command]
    simp [hnocommand]
  · refine List.pairwise_cons.mpr ⟨fun lower hlower hcommand => ?_, htracks.fields⟩
    refine hinner fun hregion => ?_
    have hany : stack.any Tag.isCommandOpen = true := List.any_eq_true.mpr ⟨lower, hlower, hcommand⟩
    rw [← htracks.command, hregion] at hany
    exact absurd hany (by decide)
  · intro hopen
    have hcase : (opener == Tag.callsignOpen || (region.callsign && opener != Tag.callsignClose)) =
        true := hopen
    by_cases hcallsign : opener = Tag.callsignOpen
    · exact ⟨[], stack, by rw [hcallsign]; rfl, by simp⟩
    · have hinside : region.callsign = true := by
        simp only [beq_false_of_ne hcallsign, Bool.false_or, Bool.and_eq_true] at hcase
        exact hcase.1
      obtain ⟨above, below, rfl, hfields⟩ := htracks.callsign hinside
      refine ⟨opener :: above, below, rfl, List.forall_mem_cons.mpr ⟨?_, hfields⟩⟩
      refine hinner fun hregion => ?_
      rw [hregion] at hinside
      exact absurd hinside (by decide)

/-- A command is opened outside. -/
theorem pushCommand (htracks : Tracks region stack) (hproper : Proper opener)
    (hcommand : Tag.isCommandOpen opener = true) (hregion : region = .outside) :
    Leads region [opener] (opener :: stack) := by
  obtain ⟨name, hopens, hcloses⟩ := hproper
  subst hregion
  refine ⟨⟨⟨fun _ => rfl, fun h => absurd h (ne_closing hopens "command")⟩, trivial⟩,
    ⟨?_, ?_, ?_, ?_⟩⟩
  · exact List.forall_mem_cons.mpr ⟨⟨name, hopens, hcloses⟩, htracks.proper⟩
  · show (Tag.isCommandOpen opener || (false && opener != Tag.commandClose)) = _
    rw [List.any_cons, hcommand, Bool.true_or, Bool.true_or]
  · refine List.pairwise_cons.mpr ⟨fun lower hlower hother => ?_, htracks.fields⟩
    have hany : stack.any Tag.isCommandOpen = true := List.any_eq_true.mpr ⟨lower, hlower, hother⟩
    rw [← htracks.command] at hany
    exact absurd hany (by decide)
  · intro hopen
    have hcase : (opener == Tag.callsignOpen || (false && opener != Tag.callsignClose)) = true :=
      hopen
    rw [Bool.false_and, Bool.or_false, beq_iff_eq] at hcase
    rw [hcase] at hcommand
    exact absurd hcommand (by decide)

/-- A word that is no tag changes nothing. -/
theorem keepWord (htracks : Tracks region stack) (hcommand : Tag.isCommandOpen word = false)
    (hopens : Tag.openAnyTagName? word = none) (hcloses : ¬ (Tag.closeTagName? word).isSome) :
    Leads region [word] stack := by
  have hcallsign : word ≠ Tag.callsignOpen := by
    rintro rfl
    exact absurd hopens (by decide)
  have hnocommand : word ≠ Tag.commandClose := by
    rintro rfl
    exact absurd hcloses (by decide)
  have hnocallsign : word ≠ Tag.callsignClose := by
    rintro rfl
    exact absurd hcloses (by decide)
  have hsame : region.after [word] = region := by
    show region.enter word = region
    rw [Region.enter, hcommand, beq_false_of_ne hcallsign, bne_iff_ne.mpr hnocommand,
      bne_iff_ne.mpr hnocallsign]
    simp
  refine ⟨⟨⟨fun h => ?_, fun h => absurd h hnocommand⟩, trivial⟩, ?_⟩
  · rw [hcommand] at h
    cases h
  · rw [hsame]
    exact htracks

end Tracks

/-! ## One step -/

theorem proper_of_plainCommands (hplain : PlainCommands words) (hword : opener ∈ words)
    (hopens : (Tag.openAnyTagName? opener).isSome) : Proper opener := by
  obtain ⟨name, hname⟩ := Option.isSome_iff_exists.mp hopens
  exact ⟨name, hname, hplain.closes_iff hword hname⟩

/-- What a step puts out stands where it may and leads to the next open tags. -/
theorem step_leads (htracks : Tracks region stack)
    (hplain : PlainCommands ((step stack token).1.map (·.word)))
    (hholders : HoldersOutside region ((step stack token).1.map (·.word))) :
    Leads region ((step stack token).1.map (·.word)) (step stack token).2.1 := by
  by_cases hopens : (Tag.openAnyTagName? token.word).isSome
  · obtain ⟨inside, outside, rfl, hsiblings, hholds⟩ := exists_siblings_append token.word stack
    rw [step_of_opening hopens, hsiblings, List.drop_left, List.map_append,
      List.map_singleton] at hplain hholders ⊢
    have hproper : Proper token.word :=
      proper_of_plainCommands hplain (List.mem_append_right _ List.mem_cons_self) hopens
    have hclosed := htracks.popAll
    refine hclosed.append ?_
    by_cases hcommand : Tag.isCommandOpen token.word = true
    · exact hclosed.2.pushCommand hproper hcommand (hclosed.2.eq_outside (hholds hcommand))
    · refine hclosed.2.pushField hproper (Bool.not_eq_true _ ▸ hcommand) ?_
      exact (placed_append.mp hholders).2.1
  · have hnone := Option.not_isSome_iff_eq_none.mp hopens
    by_cases hcloses : (Tag.closeTagName? token.word).isSome
    · rcases step_closing_cases hcloses stack with
        ⟨inside, top, below, rfl, hmatch, hstep⟩ | ⟨base, hbase, hword, hstep⟩
      · obtain ⟨name, hname, hclosing⟩ : ∃ name, Tag.openAnyTagName? top = some name ∧
            Tag.closingTag name = token.word := by
          simpa [closes, Option.any_eq_true] using hmatch
        have hclosed := htracks.popAll
        rw [hstep, List.map_append, List.map_singleton, ← hclosing]
        exact hclosed.append (hclosed.2.pop hname)
      · have hname := (Tag.OpenName.plain hbase).openAnyTagName?_opener
        rw [hstep, List.map_cons, List.map_singleton, hword] at hplain hholders ⊢
        have hproper : Proper (Tag.opener base) :=
          proper_of_plainCommands hplain List.mem_cons_self (Option.isSome_of_eq_some hname)
        have hopened : Leads region [Tag.opener base] (Tag.opener base :: stack) :=
          htracks.pushField hproper hbase.isCommandOpen_opener hholders.1
        exact hopened.append (hopened.2.pop hname)
    · have hstep := step_of_word hnone hcloses stack
      rw [hstep, List.map_singleton] at hplain ⊢
      refine htracks.keepWord ?_ hnone hcloses
      rw [← Bool.not_eq_true]
      intro hcommand
      -- a word that starts with the tag of a command is that tag
      rcases hplain token.word List.mem_cons_self (isPrefixOf_of_isCommandOpen hcommand) with
        hlist | ⟨type, htype, htag⟩
      · rw [hlist] at hnone
        exact absurd hnone (by decide)
      · rw [htag, ← Tag.opener_command,
          (Tag.OpenName.command htype).openAnyTagName?_opener] at hnone
        cases hnone

/-! ## A run -/

/-- What a run puts out stands where it may, and nothing is open behind it. -/
theorem runFrom_leads (htracks : Tracks region stack)
    (hplain : PlainCommands ((runFrom stack tokens).1.map (·.word)))
    (hholders : HoldersOutside region ((runFrom stack tokens).1.map (·.word))) :
    Leads region ((runFrom stack tokens).1.map (·.word)) [] := by
  induction tokens generalizing region stack with
  | nil =>
      rw [← List.append_nil stack] at htracks
      exact htracks.popAll
  | cons token tokens ih =>
      simp only [runFrom, List.map_append] at hplain hholders ⊢
      have hstep : Leads region ((step stack token).1.map (·.word)) (step stack token).2.1 :=
        step_leads htracks (fun word hword => hplain word (List.mem_append_left _ hword))
          (placed_append.mp hholders).1
      refine hstep.append (ih hstep.2 ?_ (placed_append.mp hholders).2)
      exact fun word hword => hplain word (List.mem_append_right _ hword)

/-- In a repaired text each command is opened outside of commands and callsigns and closed
outside of callsigns, and in the end nothing is open. -/
theorem run_ordersCommands (tokens : List Token)
    (hplain : PlainCommands ((run tokens).1.map (·.word)))
    (hholders : HoldersOutside .outside ((run tokens).1.map (·.word))) :
    Placed Allows .outside ((run tokens).1.map (·.word)) ∧
      Region.outside.after ((run tokens).1.map (·.word)) = .outside := by
  have hnone : Tracks .outside [] := ⟨by simp, rfl, .nil, fun h => absurd h (by decide)⟩
  obtain ⟨hplaced, htracks⟩ := runFrom_leads hnone hplain hholders
  exact ⟨hplaced, htracks.eq_outside_of_nil⟩

end Phraseology.Repair

namespace Phraseology.Frame

/-- What is read from a text is the repair of some tokens. -/
theorem exists_run_of_read {text : String} {strict : Bool} {frame : Frame}
    (hread : read text strict = .ok (some frame)) :
    ∃ tokens, frame.tokens = (Repair.run tokens).1 ∧ frame.strict = strict :=
  have ⟨spoken, _, hframe⟩ := exists_readAll_of_read hread
  ⟨spoken, hframe⟩

/-- In what is read from a text, commands are opened outside of commands and callsigns and
closed outside of callsigns, and in the end nothing is open. -/
theorem read_ordersCommands {text : String} {strict : Bool} {frame : Frame}
    (hread : read text strict = .ok (some frame)) (hplain : Repair.PlainCommands frame.words)
    (hholders : Repair.HoldersOutside .outside frame.words) :
    Repair.Placed Repair.Allows .outside frame.words ∧
      Repair.Region.outside.after frame.words = .outside := by
  obtain ⟨tokens, htokens, -⟩ := exists_run_of_read hread
  unfold words at hplain hholders ⊢
  rw [htokens] at hplain hholders ⊢
  exact Repair.run_ordersCommands tokens hplain hholders

end Phraseology.Frame
