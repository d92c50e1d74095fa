import Phraseology.Frame.Repair
import Phraseology.Proofs.Frame.Nesting

/-!
# A repair balances the tags

The stack of a repair holds opening tags.  As long as the opening tags of the input are
plain, it is the list of opening tags for some names, and what one step puts out is nested
and leads from these names to those of the next stack (`step_nests`).  A whole run then
leads to no open tags (`runFrom_nests`), and all that it adds are plain tags without a
confidence of their own (`Supplements`).

Conversely a step adds nothing where the input is nested already
(`runFrom_eq_of_nests`), so the balanced texts are exactly those that a repair leaves as
they are.
-/

namespace Phraseology.Repair

variable {tokens more repaired : List Token} {token : Token} {names : List String}

/-! ## What is added -/

/-- Some tokens with tags added between them. -/
inductive Supplements : List Token → List Token → Prop
  | nil : Supplements [] []
  | keep (token : Token) {tokens repaired : List Token} (rest : Supplements tokens repaired) :
      Supplements (token :: tokens) (token :: repaired)
  | add {added : Token} {tokens repaired : List Token} (tag : Tag.Plain added.word)
      (unrated : added.confidence = 1.0) (rest : Supplements tokens repaired) :
      Supplements tokens (added :: repaired)

namespace Supplements

theorem append {first second : List Token} {repairedFirst repairedSecond : List Token}
    (hfirst : Supplements first repairedFirst) (hsecond : Supplements second repairedSecond) :
    Supplements (first ++ second) (repairedFirst ++ repairedSecond) := by
  induction hfirst with
  | nil => exact hsecond
  | keep token _ ih => exact .keep token ih
  | add tag unrated _ ih => exact .add tag unrated ih

theorem of_added {added : List Token}
    (hadded : ∀ token ∈ added, Tag.Plain token.word ∧ token.confidence = 1.0) :
    Supplements [] added := by
  induction added with
  | nil => exact .nil
  | cons token added ih =>
      obtain ⟨htag, hunrated⟩ := hadded token List.mem_cons_self
      exact .add htag hunrated (ih fun other hother => hadded other (List.mem_cons_of_mem _ hother))

theorem mem_or_plain (hsupplements : Supplements tokens repaired) :
    ∀ token ∈ repaired, token ∈ tokens ∨ Tag.Plain token.word := by
  induction hsupplements with
  | nil => simp
  | keep token _ ih =>
      intro other hother
      rcases List.mem_cons.mp hother with rfl | hother
      · exact .inl List.mem_cons_self
      · exact (ih other hother).imp_left (List.mem_cons_of_mem token)
  | add tag _ _ ih =>
      intro other hother
      rcases List.mem_cons.mp hother with rfl | hother
      · exact .inr tag
      · exact ih other hother

end Supplements

/-! ## Closing tags that are added -/

theorem closersOf_map_opener (hnames : ∀ name ∈ names, Tag.OpenName name) :
    closersOf (names.map Tag.opener) = (names.map Tag.closingTag).map Token.plain := by
  induction names with
  | nil => rfl
  | cons name names ih =>
      have hname : closerOf (Tag.opener name) = [Token.plain (Tag.closingTag name)] := by
        rw [closerOf, (hnames name List.mem_cons_self).openAnyTagName?_opener]
      have hrest := ih fun other hother => hnames other (List.mem_cons_of_mem name hother)
      rw [closersOf, List.map_cons, List.flatMap_cons, hname, ← closersOf, hrest]
      rfl

theorem map_word_closersOf (hnames : ∀ name ∈ names, Tag.OpenName name) :
    (closersOf (names.map Tag.opener)).map (·.word) = names.map Tag.closingTag := by
  rw [closersOf_map_opener hnames, List.map_map]
  exact List.map_id _

theorem supplements_closersOf (hnames : ∀ name ∈ names, Tag.OpenName name) :
    Supplements [] (closersOf (names.map Tag.opener)) := by
  rw [closersOf_map_opener hnames]
  refine Supplements.of_added fun token htoken => ?_
  simp only [List.map_map, List.mem_map, Function.comp_apply] at htoken
  obtain ⟨name, hname, rfl⟩ := htoken
  obtain ⟨base, hbase, hclosing⟩ := (hnames name hname).closingTag_eq
  exact ⟨hclosing ▸ .closing hbase, rfl⟩

/-! ## One step -/

/-- What a step does in front of which some names are open: it puts out a token with added
tags around it, nested, and leaves names open. -/
def Repairs (names : List String) (token : Token) : Prop :=
  ∃ left, (∀ name ∈ left, Tag.OpenName name) ∧
    (step (names.map Tag.opener) token).2.1 = left.map Tag.opener ∧
    Nests names ((step (names.map Tag.opener) token).1.map (·.word)) left ∧
    Supplements [token] (step (names.map Tag.opener) token).1

theorem holdsCommands_opener (name : String) :
    holdsCommands (Tag.opener name) = (name == "s" || name == "commands") := by
  have hinj : ∀ other : String, (Tag.opener name == Tag.opener other) = (name == other) := by
    intro other
    rw [Bool.eq_iff_iff, beq_iff_eq, beq_iff_eq, Tag.opener_injective.eq_iff]
  rw [holdsCommands, ← hinj "s", ← hinj "commands"]
  rfl

/-- The open tags that an opening tag closes. -/
def siblings (word : String) (stack : List String) : List String :=
  if Tag.isCommandOpen word then stack.takeWhile (!holdsCommands ·) else []

theorem step_of_opening (hopens : (Tag.openAnyTagName? token.word).isSome)
    (stack : List String) :
    step stack token = (closersOf (siblings token.word stack) ++ [token],
      token.word :: stack.drop (siblings token.word stack).length, []) := by
  rw [step, if_pos hopens]
  rfl

theorem step_of_word (hopens : Tag.openAnyTagName? token.word = none)
    (hcloses : ¬ (Tag.closeTagName? token.word).isSome) (stack : List String) :
    step stack token = ([token], stack, []) := by
  simp [step, hopens, hcloses]

/-- Tokens without tags are left as they are. -/
theorem run_of_untagged (htokens : ∀ token ∈ tokens, Tag.tagName? token.word = none) :
    run tokens = (tokens, []) := by
  unfold run
  induction tokens with
  | nil => rfl
  | cons token tokens ih =>
      obtain ⟨htoken, hrest⟩ := List.forall_mem_cons.mp htokens
      have hopens : Tag.openAnyTagName? token.word = none := by
        refine Option.eq_none_iff_forall_ne_some.mpr fun name hname => ?_
        have htag := Tag.isSome_tagName?_of_openAnyTagName? hname
        rw [htoken] at htag
        cases htag
      have hcloses : ¬ (Tag.closeTagName? token.word).isSome := by
        intro hcloses
        have htag := Tag.isSome_tagName?_of_closeTagName? hcloses
        rw [htoken] at htag
        cases htag
      simp only [runFrom, step_of_word hopens hcloses, ih hrest]
      rfl

/-- The opening tag that is added for a closing tag is the one with its name. -/
theorem openerFor_closing (name : String) :
    openerFor ("</" ++ name ++ ">") = Token.plain (Tag.opener name) := by
  have hdrop : ("</" ++ name ++ ">").toList.drop 2 = name.toList ++ ['>'] := by simp
  have hopener : String.ofList ('<' :: (name.toList ++ ['>'])) = Tag.opener name := by
    rw [← String.toList_inj]
    simp [Tag.opener]
  rw [openerFor, hdrop, hopener]

theorem exists_eq_append_of_findIdx? {α : Type} {items : List α} {p : α → Bool} {index : Nat}
    (hfind : items.findIdx? p = some index) :
    ∃ before item after, items = before ++ item :: after ∧ before.length = index ∧ p item := by
  obtain ⟨hlength, hitem, -⟩ := List.findIdx?_eq_some_iff_getElem.mp hfind
  refine ⟨items.take index, items[index], items.drop (index + 1), ?_, ?_, hitem⟩
  · rw [← List.drop_eq_getElem_cons hlength, List.take_append_drop]
  · rw [List.length_take, Nat.min_eq_left (Nat.le_of_lt hlength)]

/-- The open tags fall into those that a tag closes and others.  These hold it if it is a
command. -/
theorem exists_siblings_append (word : String) (stack : List String) :
    ∃ inside outside, stack = inside ++ outside ∧ siblings word stack = inside ∧
      (Tag.isCommandOpen word = true → ∀ top ∈ outside.head?, holdsCommands top = true) := by
  unfold siblings
  by_cases hcommand : Tag.isCommandOpen word = true
  · refine ⟨_, _, List.takeWhile_append_dropWhile.symm, by rw [if_pos hcommand], fun _ top htop => ?_⟩
    have hholds := List.head?_dropWhile_not (!holdsCommands ·) stack
    rw [Option.mem_def.mp htop] at hholds
    simpa using hholds
  · exact ⟨[], stack, rfl, by rw [if_neg hcommand], fun h => absurd h hcommand⟩

/-- A tag closes nothing where it may stand. -/
theorem siblings_eq_nil {word : String} {stack : List String}
    (hholds : Tag.isCommandOpen word = true → ∀ top ∈ stack.head?, holdsCommands top = true) :
    siblings word stack = [] := by
  unfold siblings
  split
  · next hcommand =>
      cases stack with
      | nil => rfl
      | cons top stack => rw [List.takeWhile_cons, hholds hcommand top rfl]; rfl
  · rfl

theorem head?_map_opener_iff :
    (∀ top ∈ (names.map Tag.opener).head?, holdsCommands top = true) ↔ HoldsCommands names := by
  cases names with
  | nil => simp [HoldsCommands]
  | cons top names => simp [HoldsCommands, holdsCommands_opener]

/-- A closing tag for the innermost open tag closes nothing else. -/
theorem step_of_innermost {opener : String} (hcloses : (Tag.closeTagName? token.word).isSome)
    (hopener : closes token.word opener = true) (stack : List String) :
    step (opener :: stack) token = ([token], stack, []) := by
  obtain ⟨base, -, hword⟩ := Tag.exists_isName_of_closeTagName? hcloses
  have hopens : Tag.openAnyTagName? token.word = none := by
    rw [hword, Tag.openAnyTagName?_closing]
  simp [step, hopens, hcloses, List.findIdx?_cons, hopener, closersOf]

/-- A closing tag closes an open span with all that was opened in it, or becomes a span of
its own. -/
theorem step_closing_cases (hcloses : (Tag.closeTagName? token.word).isSome)
    (stack : List String) :
    (∃ inside opener outside, stack = inside ++ opener :: outside ∧
        closes token.word opener = true ∧
        step stack token = (closersOf inside ++ [token], outside, [])) ∨
      ∃ base, Tag.IsName base ∧ token.word = Tag.closingTag base ∧
        step stack token =
          ([Token.plain (Tag.opener base), token], stack, [token.word]) := by
  obtain ⟨base, hbase, hword⟩ := Tag.exists_isName_of_closeTagName? hcloses
  have hopens : Tag.openAnyTagName? token.word = none := by
    rw [hword, Tag.openAnyTagName?_closing]
  cases hfind : stack.findIdx? (closes token.word) with
  | some index =>
      obtain ⟨inside, opener, outside, rfl, rfl, hmatch⟩ := exists_eq_append_of_findIdx? hfind
      refine .inl ⟨inside, opener, outside, rfl, hmatch, ?_⟩
      simp only [step, hopens, Option.isSome_none, Bool.false_eq_true, if_false, if_pos hcloses,
        hfind, List.take_left]
      rw [← List.drop_drop, List.drop_left]
      rfl
  | none =>
      refine .inr ⟨base, hbase, ?_, ?_⟩
      · rw [hword, Tag.closingTag_eq, hbase.baseName_eq]
      · rw [← openerFor_closing, ← hword]
        simp [step, hopens, hcloses, hfind]

theorem step_opener (hnames : ∀ name ∈ names, Tag.OpenName name) {name : String}
    (hname : Tag.OpenName name) (hword : token.word = Tag.opener name) : Repairs names token := by
  obtain ⟨front, rear, hsplit, hsiblings, hholds⟩ :=
    exists_siblings_append token.word (names.map Tag.opener)
  obtain ⟨inside, outside, rfl, rfl, rfl⟩ := List.map_eq_append_iff.mp hsplit
  have hinside : ∀ name ∈ inside, Tag.OpenName name :=
    fun other hother => hnames other (List.mem_append_left outside hother)
  have houtside : ∀ name ∈ outside, Tag.OpenName name :=
    fun other hother => hnames other (List.mem_append_right inside hother)
  have hopens : (Tag.openAnyTagName? token.word).isSome := by
    rw [hword, hname.openAnyTagName?_opener]
    rfl
  have hstep : step ((inside ++ outside).map Tag.opener) token =
      (closersOf (inside.map Tag.opener) ++ [token], (name :: outside).map Tag.opener, []) := by
    rw [step_of_opening hopens, hsiblings, List.map_append, List.drop_left, List.map_cons, hword]
  refine ⟨name :: outside, List.forall_mem_cons.mpr ⟨hname, houtside⟩, by rw [hstep], ?_, ?_⟩
  · rw [hstep, List.map_append, map_word_closersOf hinside, List.map_singleton, hword]
    refine (nests_map_closingTag hinside outside).append (nests_opener hname ?_)
    rw [← hword]
    exact fun h => head?_map_opener_iff.mp (hholds h)
  · rw [hstep]
    exact (supplements_closersOf hinside).append (.keep token .nil)

theorem closes_opener {name closer : String} (hname : Tag.OpenName name) :
    closes closer (Tag.opener name) = (Tag.closingTag name == closer) := by
  rw [closes, hname.openAnyTagName?_opener]
  rfl

theorem step_closing (hnames : ∀ name ∈ names, Tag.OpenName name)
    (hcloses : (Tag.closeTagName? token.word).isSome) : Repairs names token := by
  rcases step_closing_cases hcloses (names.map Tag.opener) with
    ⟨front, opener, rear, hsplit, hmatch, hstep⟩ | ⟨base, hbase, hword, hstep⟩
  · obtain ⟨inside, rest, rfl, rfl, hrest⟩ := List.map_eq_append_iff.mp hsplit
    obtain ⟨top, below, rfl, rfl, rfl⟩ := List.map_eq_cons_iff.mp hrest
    obtain ⟨hinside, htopbelow⟩ := List.forall_mem_append.mp hnames
    obtain ⟨htop, hbelow⟩ := List.forall_mem_cons.mp htopbelow
    have hclosing : Tag.closingTag top = token.word := by
      simpa [closes_opener htop] using hmatch
    refine ⟨below, hbelow, by rw [hstep], ?_, ?_⟩
    · rw [hstep, List.map_append, map_word_closersOf hinside, List.map_singleton, ← hclosing]
      exact (nests_map_closingTag hinside _).append (nests_closingTag htop)
    · rw [hstep]
      exact (supplements_closersOf hinside).append (.keep token .nil)
  · -- the tag that is added and the token are a span of their own
    refine ⟨names, hnames, by rw [hstep], ?_, ?_⟩
    · have hopener : Nests names [Tag.opener base] (base :: names) := by
        refine nests_opener (.plain hbase) fun hcommand => ?_
        rw [hbase.isCommandOpen_opener] at hcommand
        exact absurd hcommand (by decide)
      have hspan : Nests names [Tag.opener base, Tag.closingTag base] names :=
        hopener.append (nests_closingTag (.plain hbase))
      rw [hstep]
      simpa [hword, Token.plain] using hspan
    · rw [hstep]
      exact .add (.opening hbase) rfl (.keep token .nil)

theorem step_word (hnames : ∀ name ∈ names, Tag.OpenName name)
    (hopens : Tag.openAnyTagName? token.word = none)
    (hcloses : ¬ (Tag.closeTagName? token.word).isSome) : Repairs names token := by
  have hstep := step_of_word hopens hcloses (names.map Tag.opener)
  refine ⟨names, hnames, by rw [hstep], ?_, by rw [hstep]; exact .keep token .nil⟩
  rw [hstep]
  exact nests_singleton (replayWord?_word hopens hcloses) hopens

/-- One step puts out nested tokens and keeps the names on the stack. -/
theorem step_repairs (hnames : ∀ name ∈ names, Tag.OpenName name)
    (htoken : (Tag.openAnyTagName? token.word).isSome → Tag.Plain token.word) :
    Repairs names token := by
  cases hopens : Tag.openAnyTagName? token.word with
  | some opened =>
      have hsome : (Tag.openAnyTagName? token.word).isSome := Option.isSome_of_eq_some hopens
      obtain ⟨name, hname, hword⟩ := (htoken hsome).exists_openName hsome
      exact step_opener hnames hname hword
  | none =>
      by_cases hcloses : (Tag.closeTagName? token.word).isSome
      · exact step_closing hnames hcloses
      · exact step_word hnames hopens hcloses

/-! ## A run -/

/-- A run closes everything that is open. -/
theorem runFrom_nests (hnames : ∀ name ∈ names, Tag.OpenName name)
    (htokens : ∀ token ∈ tokens, (Tag.openAnyTagName? token.word).isSome → Tag.Plain token.word) :
    Nests names ((runFrom (names.map Tag.opener) tokens).1.map (·.word)) [] ∧
      Supplements tokens (runFrom (names.map Tag.opener) tokens).1 := by
  induction tokens generalizing names with
  | nil =>
      have hclosers := nests_map_closingTag hnames []
      rw [List.append_nil] at hclosers
      simp only [runFrom, map_word_closersOf hnames]
      exact ⟨hclosers, supplements_closersOf hnames⟩
  | cons token tokens ih =>
      obtain ⟨left, hleft, hstack, hnests, hsupplements⟩ :=
        step_repairs hnames (htokens token List.mem_cons_self)
      have hrest := ih hleft fun other hother => htokens other (List.mem_cons_of_mem token hother)
      simp only [runFrom, hstack, List.map_append]
      exact ⟨hnests.append hrest.1, hsupplements.append hrest.2⟩

/-! ## Balanced tokens -/

/-- A step leaves a token as it is that can be replayed, and stands where it may. -/
theorem step_eq_of_replayWord? {below : List String} (hnames : ∀ name ∈ names, Tag.OpenName name)
    (htoken : (Tag.openAnyTagName? token.word).isSome → Tag.Plain token.word)
    (hreplay : replayWord? names token.word = some below)
    (hplace : ∀ type, token.word = Tag.commandOpener type → Tag.IsName type →
      HoldsCommands names) :
    step (names.map Tag.opener) token = ([token], below.map Tag.opener, []) ∧
      ∀ name ∈ below, Tag.OpenName name := by
  cases hopens : Tag.openAnyTagName? token.word with
  | some opened =>
      have hsome : (Tag.openAnyTagName? token.word).isSome := Option.isSome_of_eq_some hopens
      obtain ⟨name, hname, hword⟩ := (htoken hsome).exists_openName hsome
      rw [hword, replayWord?_opener hname] at hreplay
      obtain rfl := Option.some.inj hreplay
      refine ⟨?_, List.forall_mem_cons.mpr ⟨hname, hnames⟩⟩
      have hholds : Tag.isCommandOpen token.word = true → HoldsCommands names := by
        intro hcommand
        cases hname with
        | plain hnamed =>
            rw [hword, hnamed.isCommandOpen_opener] at hcommand
            cases hcommand
        | @command type hnamed =>
            rw [Tag.opener_command] at hword
            exact hplace type hword hnamed
      -- the innermost open tag already holds the command, so nothing is closed
      rw [step_of_opening hsome, siblings_eq_nil fun h => head?_map_opener_iff.mpr (hholds h),
        List.map_cons, hword]
      rfl
  | none =>
      by_cases hcloses : (Tag.closeTagName? token.word).isSome
      · obtain ⟨top, rfl, hword⟩ := exists_top_of_replayWord?_closing hopens hcloses hreplay
        obtain ⟨htop, hbelow⟩ := List.forall_mem_cons.mp hnames
        have hmatch : closes token.word (Tag.opener top) = true := by
          rw [closes_opener htop, hword, beq_self_eq_true]
        exact ⟨step_of_innermost hcloses hmatch _, hbelow⟩
      · rw [replayWord?_word hopens hcloses] at hreplay
        obtain rfl := Option.some.inj hreplay
        exact ⟨step_of_word hopens hcloses _, hnames⟩

/-- A run leaves nested tokens as they are. -/
theorem runFrom_eq_of_nests (hnames : ∀ name ∈ names, Tag.OpenName name)
    (htokens : ∀ token ∈ tokens, (Tag.openAnyTagName? token.word).isSome → Tag.Plain token.word)
    (hnests : Nests names (tokens.map (·.word)) []) :
    runFrom (names.map Tag.opener) tokens = (tokens, []) := by
  induction tokens generalizing names with
  | nil =>
      obtain rfl := nests_nil_iff.mp hnests
      rfl
  | cons token tokens ih =>
      obtain ⟨below, hword, hplace, hrest⟩ := nests_cons_iff.mp hnests
      have htail : ∀ other ∈ tokens, (Tag.openAnyTagName? other.word).isSome →
          Tag.Plain other.word :=
        fun other hother => htokens other (List.mem_cons_of_mem token hother)
      obtain ⟨hstep, hbelow⟩ :=
        step_eq_of_replayWord? hnames (htokens token List.mem_cons_self) hword hplace
      simp only [runFrom, hstep, ih hbelow htail hrest]
      rfl

/-- A repair balances the tags of a text by adding plain tags to it.  The balanced texts are
those that it leaves as they are, without unmatched closing tags, and what it puts out is
one of them. -/
theorem run_balances (tokens : List Token)
    (hopeners : ∀ token ∈ tokens,
      (Tag.openAnyTagName? token.word).isSome → Tag.Plain token.word) :
    Balanced ((run tokens).1.map (·.word)) ∧
      Supplements tokens (run tokens).1 ∧
      (run tokens = (tokens, []) ↔ Balanced (tokens.map (·.word))) ∧
      run (run tokens).1 = ((run tokens).1, []) := by
  have hnone : ∀ name ∈ ([] : List String), Tag.OpenName name := by simp
  obtain ⟨hnests, hsupplements⟩ := runFrom_nests hnone hopeners
  have hbalanced : Balanced ((run tokens).1.map (·.word)) := hnests
  have hrepaired : ∀ token ∈ (run tokens).1,
      (Tag.openAnyTagName? token.word).isSome → Tag.Plain token.word := by
    intro token htoken hopens
    rcases hsupplements.mem_or_plain token htoken with hinput | hplain
    · exact hopeners token hinput hopens
    · exact hplain
  refine ⟨hbalanced, hsupplements, ⟨fun hfixed => ?_, ?_⟩, ?_⟩
  · rwa [hfixed] at hbalanced
  · exact runFrom_eq_of_nests hnone hopeners
  · exact runFrom_eq_of_nests hnone hrepaired hbalanced

/-- Commands that are not closed, a closing tag of an outer span and one of no span. -/
def strayTokens : List Token :=
  ["<s>", "<callsign>", "<command=\"turn\">", "left", "<command=\"climb\">", "</x>", "<A>",
    "</s>", "<command=\"turn\">:"].map Token.plain

theorem run_balances_strayTokens :
    (∀ token ∈ strayTokens, (Tag.openAnyTagName? token.word).isSome → Tag.Plain token.word) ∧
      (run strayTokens).1.map (·.word) =
        ["<s>", "<callsign>", "</callsign>", "<command=\"turn\">", "left", "</command>",
          "<command=\"climb\">", "<x>", "</x>", "<A>", "</command>", "</s>",
          "<command=\"turn\">:"] ∧
      Balanced ((run strayTokens).1.map (·.word)) := by
  have hplain : ∀ token ∈ strayTokens,
      (Tag.openAnyTagName? token.word).isSome → Tag.Plain token.word := by
    simp only [strayTokens, List.forall_mem_map, List.forall_mem_cons]
    refine ⟨fun _ => ?sentence, fun _ => ?callsign, fun _ => ?turn, ?_, fun _ => ?climb,
      ?_, ?_, ?_, ?_, by simp⟩
    case sentence => exact Tag.plain_sentenceOpen
    case callsign =>
      have hname : Tag.IsName "callsign" := by decide
      exact .opening hname
    case turn =>
      have hname : Tag.IsName "turn" := by decide
      exact .command hname
    case climb =>
      have hname : Tag.IsName "climb" := by decide
      exact .command hname
    all_goals exact fun hopens => absurd hopens (by decide)
  exact ⟨hplain, by decide, (run_balances strayTokens hplain).1⟩

end Phraseology.Repair
