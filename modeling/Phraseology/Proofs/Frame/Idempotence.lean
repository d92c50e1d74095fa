import Phraseology.Proofs.Frame.Closing

/-!
# Repairing a text twice

A repair reads more words as opening tags than it reads as closing ones: the name of an
opening tag may hold quotes and equals signs, that of a closing tag only letters.  Hence it
depends on the opening tags whether a second repair finds anything left to do.

* If each of them has a closing tag that is read as one, what a step puts out is left as it
  is by a repair that starts from the same open tags (`step_settles`), and so is what a run
  puts out (`runFrom_settles`).
* An opening tag that lacks such a closing tag stays open in every run, as the tag that was
  added to close it is no more than a word to the next one.  So each run adds a tag for each
  of them (`length_add_countP_le`), and the text grows without end.

Together: a repair is idempotent exactly on texts of the first kind (`run_idempotent_iff`).
-/

namespace Phraseology.Repair

/-- Whether a word opens a tag whose closing tag is not read as one, such as `<a="b">`. -/
def lacksCloser (word : String) : Bool :=
  (Tag.openAnyTagName? word).any fun name => !decide (Tag.IsName (Tag.baseName name))

/-- Whether a word is an opening tag whose closing tag is read as one. -/
def HasCloser (opener : String) : Prop :=
  ∃ name, Tag.openAnyTagName? opener = some name ∧ Tag.IsName (Tag.baseName name)

variable {stack below left inside : List String} {opener word : String}
  {token : Token} {tokens more : List Token}

theorem hasCloser_of_opens (hopens : (Tag.openAnyTagName? word).isSome)
    (hcloser : lacksCloser word = false) : HasCloser word := by
  obtain ⟨name, hname⟩ := Option.isSome_iff_exists.mp hopens
  refine ⟨name, hname, ?_⟩
  simpa [lacksCloser, hname] using hcloser

/-- What a closing tag closes has a closing tag. -/
theorem lacksCloser_of_closes (hcloses : (Tag.closeTagName? word).isSome)
    (hopener : closes word opener = true) : lacksCloser opener = false := by
  obtain ⟨name, hname, hclosing⟩ := (Option.any_eq_true ..).mp hopener
  obtain ⟨base, hbase, hword⟩ := Tag.exists_isName_of_closeTagName? hcloses
  have hsame : "</" ++ Tag.baseName name ++ ">" = "</" ++ base ++ ">" := by
    rw [← Tag.closingTag_eq, eq_of_beq hclosing, hword]
  have hchars : (Tag.baseName name).toList ++ ['>'] = base.toList ++ ['>'] := by
    simpa [← String.toList_inj] using hsame
  have hbaseName : Tag.baseName name = base :=
    String.toList_inj.mp (List.append_cancel_right hchars)
  simp [lacksCloser, hname, hbaseName, hbase]

/-! ## Tokens that are left as they are -/

/-- A repair leaves some tokens as they are, which lead from the open tags `stack` to
`left`. -/
inductive Settled : List String → List Token → List String → Prop
  | nil {stack : List String} : Settled stack [] stack
  | cons {stack below left : List String} {token : Token} {tokens : List Token}
      (keeps : step stack token = ([token], below, [])) (rest : Settled below tokens left) :
      Settled stack (token :: tokens) left

theorem Settled.single (hkeeps : step stack token = ([token], left, [])) :
    Settled stack [token] left :=
  .cons hkeeps .nil

theorem Settled.append (hfirst : Settled stack tokens below) (hsecond : Settled below more left) :
    Settled stack (tokens ++ more) left := by
  induction hfirst with
  | nil => exact hsecond
  | cons hkeeps _ ih => exact .cons hkeeps (ih hsecond)

/-- A run that ends with no open tags adds nothing. -/
theorem Settled.runFrom_eq (hsettled : Settled stack tokens []) :
    runFrom stack tokens = (tokens, []) := by
  generalize hleft : ([] : List String) = left at hsettled
  induction hsettled with
  | nil =>
      subst hleft
      rfl
  | cons hkeeps _ ih =>
      simp only [runFrom, hkeeps, ih hleft]
      rfl

/-- The tags that are added close what is open, and are left as they are. -/
theorem settled_closersOf (hinside : ∀ opener ∈ inside, HasCloser opener) (stack : List String) :
    Settled (inside ++ stack) (closersOf inside) stack := by
  induction inside with
  | nil => exact .nil
  | cons opener inside ih =>
      obtain ⟨⟨name, hname, hbase⟩, hinside⟩ := List.forall_mem_cons.mp hinside
      have hcloser : closerOf opener = [Token.plain (Tag.closingTag name)] := by
        rw [closerOf, hname]
      have hread : (Tag.closeTagName? (Token.plain (Tag.closingTag name)).word).isSome := by
        rw [Token.plain, Tag.closingTag_eq, hbase.closeTagName?_closing]
        rfl
      have hmatch : closes (Token.plain (Tag.closingTag name)).word opener = true := by
        rw [closes, hname, Option.any_some]
        exact beq_self_eq_true _
      rw [closersOf, List.flatMap_cons, hcloser]
      exact .cons (step_of_innermost hread hmatch _) (ih hinside)

/-! ## One step -/

/-- What a step puts out is left as it is by a repair from the same open tags, and leads to
the same open tags. -/
def StepSettles (stack : List String) (token : Token) : Prop :=
  (∀ opener ∈ (step stack token).2.1, HasCloser opener) ∧
    Settled stack (step stack token).1 (step stack token).2.1

theorem stepSettles_opening (hstack : ∀ opener ∈ stack, HasCloser opener)
    (hopens : (Tag.openAnyTagName? token.word).isSome) (hcloser : lacksCloser token.word = false) :
    StepSettles stack token := by
  obtain ⟨inside, outside, rfl, hsiblings, hholds⟩ := exists_siblings_append token.word stack
  obtain ⟨hinside, houtside⟩ := List.forall_mem_append.mp hstack
  rw [StepSettles, step_of_opening hopens, hsiblings, List.drop_left]
  refine ⟨List.forall_mem_cons.mpr ⟨hasCloser_of_opens hopens hcloser, houtside⟩, ?_⟩
  refine (settled_closersOf hinside outside).append (.single ?_)
  rw [step_of_opening hopens, siblings_eq_nil hholds]
  rfl

theorem stepSettles_closing (hstack : ∀ opener ∈ stack, HasCloser opener)
    (hcloses : (Tag.closeTagName? token.word).isSome) : StepSettles stack token := by
  unfold StepSettles
  rcases step_closing_cases hcloses stack with
    ⟨inside, opener, outside, rfl, hmatch, hstep⟩ | ⟨base, hbase, hword, hstep⟩
  · -- what was opened inside the span is closed, and then the span itself is innermost
    obtain ⟨hinside, houtside⟩ := List.forall_mem_append.mp hstack
    rw [hstep]
    refine ⟨(List.forall_mem_cons.mp houtside).2, ?_⟩
    exact (settled_closersOf hinside _).append (.single (step_of_innermost hcloses hmatch _))
  · -- the tag that is added makes the closing tag one of the innermost span
    have hopener : (Tag.openAnyTagName? (Token.plain (Tag.opener base)).word).isSome :=
      Option.isSome_of_eq_some (Tag.OpenName.plain hbase).openAnyTagName?_opener
    have hnone : siblings (Token.plain (Tag.opener base)).word stack = [] := by
      rw [siblings, Token.plain, hbase.isCommandOpen_opener]
      rfl
    have hmatch : closes token.word (Tag.opener base) = true := by
      rw [closes_opener (.plain hbase), hword]
      exact beq_self_eq_true _
    rw [hstep]
    refine ⟨hstack, .cons ?_ (.single (step_of_innermost hcloses hmatch stack))⟩
    rw [step_of_opening hopener, hnone]
    rfl

theorem step_settles (hstack : ∀ opener ∈ stack, HasCloser opener)
    (hcloser : lacksCloser token.word = false) : StepSettles stack token := by
  cases hopens : Tag.openAnyTagName? token.word with
  | some name => exact stepSettles_opening hstack (Option.isSome_of_eq_some hopens) hcloser
  | none =>
      by_cases hcloses : (Tag.closeTagName? token.word).isSome
      · exact stepSettles_closing hstack hcloses
      · have hstep := step_of_word hopens hcloses stack
        rw [StepSettles, hstep]
        exact ⟨hstack, .single hstep⟩

/-! ## A run -/

/-- What a run puts out is left as it is. -/
theorem runFrom_settles (hstack : ∀ opener ∈ stack, HasCloser opener)
    (htokens : ∀ token ∈ tokens, lacksCloser token.word = false) :
    Settled stack (runFrom stack tokens).1 [] := by
  induction tokens generalizing stack with
  | nil =>
      have hclosed := settled_closersOf hstack []
      rwa [List.append_nil] at hclosed
  | cons token tokens ih =>
      obtain ⟨htoken, htail⟩ := List.forall_mem_cons.mp htokens
      obtain ⟨hleft, hput⟩ := step_settles hstack htoken
      exact hput.append (ih hleft htail)

/-! ## Tags that lack a closing tag -/

/-- Each opening tag is closed by one tag, so those that lack a closing tag are not more
than the tags that are added. -/
theorem countP_le_length_closersOf (inside : List String) :
    inside.countP lacksCloser ≤ (closersOf inside).length := by
  induction inside with
  | nil => exact Nat.zero_le _
  | cons opener inside ih =>
      rw [closersOf, List.flatMap_cons, List.length_append, ← closersOf, List.countP_cons]
      have hfirst : (if lacksCloser opener = true then 1 else 0) ≤ (closerOf opener).length := by
        cases hopens : Tag.openAnyTagName? opener with
        | none => simp [lacksCloser, hopens]
        | some name =>
            rw [closerOf, hopens, List.length_singleton]
            split <;> omega
      omega

/-- A step adds a tag for each tag without a closing tag that it takes off the stack. -/
theorem length_step_add_countP_ge (stack : List String) (token : Token) :
    1 + stack.countP lacksCloser + [token].countP (lacksCloser ·.word) ≤
      (step stack token).1.length + (step stack token).2.1.countP lacksCloser := by
  cases hopens : Tag.openAnyTagName? token.word with
  | some name =>
      obtain ⟨inside, outside, rfl, hsiblings, -⟩ := exists_siblings_append token.word stack
      have hinside := countP_le_length_closersOf inside
      rw [step_of_opening (Option.isSome_of_eq_some hopens), hsiblings, List.drop_left]
      simp only [List.length_append, List.length_singleton, List.countP_append, List.countP_cons,
        List.countP_nil]
      omega
  | none =>
      have hword : lacksCloser token.word = false := by simp [lacksCloser, hopens]
      by_cases hcloses : (Tag.closeTagName? token.word).isSome
      · rcases step_closing_cases hcloses stack with
          ⟨inside, opener, outside, rfl, hmatch, hstep⟩ | ⟨base, -, -, hstep⟩
        · have hinside := countP_le_length_closersOf inside
          have hopener := lacksCloser_of_closes hcloses hmatch
          simp only [hstep, List.length_append, List.length_singleton, List.countP_append,
            List.countP_cons, List.countP_nil, hword, hopener, Bool.false_eq_true, if_false]
          omega
        · simp only [hstep, List.length_cons, List.length_nil, List.countP_cons, List.countP_nil,
            hword, Bool.false_eq_true, if_false]
          omega
      · rw [step_of_word hopens hcloses]
        simp [hword]

/-- A run adds a tag for each tag without a closing tag, those that are open in front of the
tokens and those among them. -/
theorem length_add_countP_le (stack : List String) (tokens : List Token) :
    tokens.length + stack.countP lacksCloser + tokens.countP (lacksCloser ·.word) ≤
      (runFrom stack tokens).1.length := by
  induction tokens generalizing stack with
  | nil =>
      have hclosers := countP_le_length_closersOf stack
      simpa [runFrom] using hclosers
  | cons token tokens ih =>
      have hstep := length_step_add_countP_ge stack token
      have hrest := ih (step stack token).2.1
      have hrun : (runFrom stack (token :: tokens)).1 =
          (step stack token).1 ++ (runFrom (step stack token).2.1 tokens).1 := rfl
      have hcount : (token :: tokens).countP (lacksCloser ·.word) =
          tokens.countP (lacksCloser ·.word) + [token].countP (lacksCloser ·.word) := by
        rw [List.countP_cons, List.countP_singleton]
      rw [hrun, List.length_append, List.length_cons, hcount]
      omega

theorem mem_step (stack : List String) (token : Token) : token ∈ (step stack token).1 := by
  unfold step
  split
  · simp
  · split
    · split <;> simp
    · simp

/-- A run drops nothing. -/
theorem subset_runFrom (stack : List String) (tokens : List Token) :
    tokens ⊆ (runFrom stack tokens).1 := by
  induction tokens generalizing stack with
  | nil => exact List.nil_subset _
  | cons token tokens ih =>
      refine List.cons_subset.mpr ⟨List.mem_append_left _ (mem_step stack token), ?_⟩
      exact fun other hother => List.mem_append_right _ (ih _ hother)

/-! ## Both together -/

/-- A second repair leaves a repaired text as it is, and finds no unmatched closing tag in
it, exactly if each tag that the text opens has a closing tag that is read as one. -/
theorem run_idempotent_iff (tokens : List Token) :
    run (run tokens).1 = ((run tokens).1, []) ↔
      ∀ token ∈ tokens, lacksCloser token.word = false := by
  constructor
  · intro hfixed token htoken
    have hgrows := length_add_countP_le [] (run tokens).1
    have hlength : (runFrom [] (run tokens).1).1.length = (run tokens).1.length := by
      rw [← run, hfixed]
    have hnone : (run tokens).1.countP (lacksCloser ·.word) = 0 := by omega
    have hmem : token ∈ (run tokens).1 := subset_runFrom [] tokens htoken
    simpa using List.countP_eq_zero.mp hnone token hmem
  · intro htokens
    exact (runFrom_settles (by simp) htokens).runFrom_eq

/-- A tag with an attribute that no closing tag can name is closed once more by each
repair. -/
theorem not_forall_run_idempotent :
    ¬ ∀ tokens : List Token, run (run tokens).1 = ((run tokens).1, []) := by
  intro hall
  have htwice := congrArg (fun repaired => repaired.1.map (·.word))
    (hall [Token.plain "<a=\"b\">"])
  exact absurd htwice (by decide)

end Phraseology.Repair
