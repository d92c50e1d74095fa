import Phraseology.Frame.Cut

/-!
# What a cut takes

A cut takes tokens out of the middle of a frame (`Cut.find?_eq_append`): from the first word
that opens a span to the first word behind it that closes the span (`Cut.find?_eq_some`).
What is cut out and what is left are read as strictly as the frame.
-/

namespace Phraseology

namespace Cut

variable {opens : String → Bool} {closes : String → String → Bool} {tokens : List Token}
  {cut : Cut}

theorem throughCloser_append (closer : String → Bool) (tokens : List Token) :
    (throughCloser closer tokens).1 ++ (throughCloser closer tokens).2 = tokens := by
  induction tokens with
  | nil => rfl
  | cons token tokens ih =>
      unfold throughCloser
      split
      · rfl
      · exact congrArg (token :: ·) ih

/-- A span ends at the first word that closes it. -/
theorem throughCloser_eq {closer : String → Bool} {body rest : List Token} {last : Token}
    (hbody : ∀ token ∈ body, closer token.word = false) (hlast : closer last.word = true) :
    throughCloser closer (body ++ last :: rest) = (body ++ [last], rest) := by
  induction body with
  | nil => simp [throughCloser, hlast]
  | cons token body ih =>
      obtain ⟨htoken, hbody⟩ := List.forall_mem_cons.mp hbody
      simp [throughCloser, htoken, ih hbody]

/-- If some word closes a span, the span ends at the first such word. -/
theorem throughCloser_of_mem {closer : String → Bool}
    (hcloses : ∃ token ∈ tokens, closer token.word = true) :
    ∃ body last rest, tokens = body ++ last :: rest ∧ (∀ token ∈ body, closer token.word = false) ∧
      closer last.word = true ∧ throughCloser closer tokens = (body ++ [last], rest) := by
  induction tokens with
  | nil => simp at hcloses
  | cons token tokens ih =>
      cases htoken : closer token.word with
      | true =>
          have hnone : ∀ other ∈ ([] : List Token), closer other.word = false := by simp
          exact ⟨[], token, tokens, rfl, hnone, htoken, throughCloser_eq hnone htoken⟩
      | false =>
          have hlater : ∃ other ∈ tokens, closer other.word = true := by
            simpa [htoken] using hcloses
          obtain ⟨body, last, rest, rfl, hbody, hlast, -⟩ := ih hlater
          have hall : ∀ other ∈ token :: body, closer other.word = false :=
            List.forall_mem_cons.mpr ⟨htoken, hbody⟩
          exact ⟨token :: body, last, rest, rfl, hall, hlast, throughCloser_eq hall hlast⟩

/-- What is cut out starts at the first word that opens a span, and runs through its closer. -/
theorem exists_of_find? (hcut : find? opens closes tokens = some cut) :
    ∃ first behind, tokens = cut.before ++ first :: behind ∧ opens first.word = true ∧
      (∀ token ∈ cut.before, opens token.word = false) ∧
      cut.inner = first :: (throughCloser (closes first.word) behind).1 ∧
      cut.after = (throughCloser (closes first.word) behind).2 := by
  induction tokens generalizing cut with
  | nil => simp [find?] at hcut
  | cons token tokens ih =>
      unfold find? at hcut
      split at hcut
      · next hopens =>
          obtain rfl := Option.some.inj hcut
          exact ⟨token, tokens, rfl, hopens, by simp, rfl, rfl⟩
      · next hopens =>
          obtain ⟨found, hfound, rfl⟩ := Option.map_eq_some_iff.mp hcut
          obtain ⟨first, behind, rfl, hfirst, hbefore, hinner, hafter⟩ := ih hfound
          refine ⟨first, behind, rfl, hfirst, ?_, hinner, hafter⟩
          exact List.forall_mem_cons.mpr ⟨Bool.eq_false_iff.mpr hopens, hbefore⟩

/-- A cut takes tokens out of the middle of a frame. -/
theorem find?_eq_append (hcut : find? opens closes tokens = some cut) :
    tokens = cut.before ++ cut.inner ++ cut.after := by
  obtain ⟨first, behind, rfl, -, -, hinner, hafter⟩ := exists_of_find? hcut
  rw [hinner, hafter, List.append_assoc, List.cons_append, throughCloser_append]

/-- The first span that some word opens is cut up to the first word that closes it. -/
theorem find?_eq_some {before body rest : List Token} {first last : Token}
    (hbefore : ∀ token ∈ before, opens token.word = false) (hfirst : opens first.word = true)
    (hbody : ∀ token ∈ body, closes first.word token.word = false)
    (hlast : closes first.word last.word = true) :
    find? opens closes (before ++ first :: body ++ last :: rest) =
      some { inner := first :: body ++ [last], before, after := rest } := by
  induction before with
  | nil => simp [find?, hfirst, throughCloser_eq hbody hlast]
  | cons token before ih =>
      obtain ⟨htoken, hbefore⟩ := List.forall_mem_cons.mp hbefore
      have hrest := ih hbefore
      rw [List.cons_append] at hrest ⊢
      rw [List.cons_append, find?, htoken, hrest]
      rfl

theorem find?_eq_none (hnone : ∀ token ∈ tokens, opens token.word = false) :
    find? opens closes tokens = none := by
  induction tokens with
  | nil => rfl
  | cons token tokens ih =>
      obtain ⟨htoken, hnone⟩ := List.forall_mem_cons.mp hnone
      rw [find?, htoken, ih hnone]
      rfl

/-- If some word opens a span, one is found. -/
theorem exists_find?_of_mem (hopens : ∃ token ∈ tokens, opens token.word = true)
    (closes : String → String → Bool) : ∃ cut, find? opens closes tokens = some cut := by
  induction tokens with
  | nil => simp at hopens
  | cons token tokens ih =>
      cases htoken : opens token.word with
      | true => simp [find?, htoken]
      | false =>
          obtain ⟨cut, hcut⟩ := ih (by simpa [htoken] using hopens)
          simp [find?, htoken, hcut]

/-- A span that some word behind its opening word closes runs to the first such word. -/
theorem exists_of_find?_closed (hcut : find? opens closes tokens = some cut)
    (hclosed : ∀ before first behind, tokens = before ++ first :: behind →
      opens first.word = true → ∃ token ∈ behind, closes first.word token.word = true) :
    ∃ first body last, tokens = cut.before ++ first :: body ++ last :: cut.after ∧
      opens first.word = true ∧ (∀ token ∈ cut.before, opens token.word = false) ∧
      (∀ token ∈ body, closes first.word token.word = false) ∧
      closes first.word last.word = true ∧ cut.inner = first :: body ++ [last] := by
  obtain ⟨first, behind, rfl, hfirst, hbefore, hinner, hafter⟩ := exists_of_find? hcut
  obtain ⟨body, last, rest, rfl, hbody, hlast, hthrough⟩ :=
    throughCloser_of_mem (hclosed _ first behind rfl hfirst)
  rw [hthrough] at hinner hafter
  refine ⟨first, body, last, ?_, hfirst, hbefore, hbody, hlast, hinner⟩
  rw [hafter, List.append_assoc]
  rfl

end Cut

namespace Frame

variable {frame : Frame} {opens : String → Bool} {closes : String → String → Bool}

/-- What is cut out of a frame is read as strictly as the frame. -/
theorem strict_cutSpan (frame : Frame) (opens : String → Bool)
    (closes : String → String → Bool) :
    (∀ span ∈ (frame.cutSpan opens closes).1, span.strict = frame.strict) ∧
      (frame.cutSpan opens closes).2.strict = frame.strict := by
  unfold cutSpan
  split
  · exact ⟨by simp, rfl⟩
  · refine ⟨fun span hspan => ?_, rfl⟩
    obtain rfl := Option.some.inj hspan
    rfl

/-- A span starts with the word that opens it. -/
theorem firstWord?_of_cutSpan {span : Frame} (hspan : span ∈ (frame.cutSpan opens closes).1) :
    ∃ first, span.firstWord? = some first ∧ opens first = true := by
  unfold cutSpan at hspan
  split at hspan
  · cases hspan
  · next cut hcut =>
      obtain ⟨first, behind, -, hopens, -, hinner, -⟩ := Cut.exists_of_find? hcut
      obtain rfl := Option.some.inj hspan
      refine ⟨first.word, ?_, hopens⟩
      simp [firstWord?, words, part, hinner]

/-- A cut takes tokens out and leaves the others, in their order. -/
theorem sublist_cutSpan (frame : Frame) (opens : String → Bool)
    (closes : String → String → Bool) :
    (∀ span ∈ (frame.cutSpan opens closes).1, span.tokens.Sublist frame.tokens) ∧
      (frame.cutSpan opens closes).2.tokens.Sublist frame.tokens := by
  unfold cutSpan
  cases hcut : Cut.find? opens closes frame.tokens with
  | none => exact ⟨by simp, List.Sublist.refl _⟩
  | some cut =>
      have htokens := Cut.find?_eq_append hcut
      refine ⟨fun span hspan => ?_, ?_⟩
      · obtain rfl := Option.some.inj hspan
        rw [htokens]
        exact (List.sublist_append_right _ _).trans (List.sublist_append_left _ _)
      · rw [htokens, List.append_assoc]
        exact (List.sublist_append_right _ _).append_left _

/-- Cutting adds no words. -/
theorem mem_words_of_cutSpan :
    (∀ span ∈ (frame.cutSpan opens closes).1, ∀ word ∈ span.words, word ∈ frame.words) ∧
      ∀ word ∈ (frame.cutSpan opens closes).2.words, word ∈ frame.words := by
  obtain ⟨hspan, hrest⟩ := sublist_cutSpan frame opens closes
  exact ⟨fun span hcut word hword => ((hspan span hcut).map _).subset hword,
    fun word hword => (hrest.map _).subset hword⟩

end Frame

end Phraseology
