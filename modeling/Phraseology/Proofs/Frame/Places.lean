import Mathlib.Data.List.Perm.Subperm
import Phraseology.Proofs.Frame.Cuts

/-!
# Where the tokens of a frame come from

What is cut out of a sentence depends on its words alone.  So one can follow a token from the
sentence to the frame in which it is scored: the frame is looked at under all ratings of the
sentence at once, and holds, whatever they are, the tokens of the same places
(`Frame.DrawnAt`).

A cut parts the places into those of the span and those that are left (`DrawnAt.cutSpan`), and
what is outside all tags is some of the places (`DrawnAt.exists_shallow`).
-/

namespace Phraseology

/-- The confidences of the tokens of a sentence, by their places. -/
abbrev Rating := Nat → Float

variable {word : Nat → String} {places quiet tail : List Nat} {rating : Rating}
  {frame : Rating → Frame} {opens : String → Bool} {closes : String → String → Bool}

/-- The token at a place of a sentence. -/
def tokenAt (word : Nat → String) (rating : Rating) (place : Nat) : Token where
  word := word place
  confidence := rating place

@[simp] theorem word_tokenAt (word : Nat → String) (rating : Rating) (place : Nat) :
    (tokenAt word rating place).word = word place :=
  rfl

/-- The tokens at some places of a sentence. -/
def draw (word : Nat → String) (places : List Nat) (rating : Rating) : List Token :=
  places.map (tokenAt word rating)

@[simp] theorem draw_append (word : Nat → String) (first second : List Nat) (rating : Rating) :
    draw word (first ++ second) rating = draw word first rating ++ draw word second rating :=
  List.map_append

@[simp] theorem map_word_draw (word : Nat → String) (places : List Nat) (rating : Rating) :
    (draw word places rating).map (·.word) = places.map word :=
  List.map_map ..

@[simp] theorem length_draw (word : Nat → String) (places : List Nat) (rating : Rating) :
    (draw word places rating).length = places.length :=
  List.length_map _

@[simp] theorem filter_draw (keeps : String → Bool) (word : Nat → String) (places : List Nat)
    (rating : Rating) : (draw word places rating).filter (fun token => keeps token.word) =
      draw word (places.filter (keeps <| word ·)) rating := by
  rw [draw, List.filter_map]
  rfl

@[simp] theorem takeWhile_draw (keeps : String → Bool) (word : Nat → String) (places : List Nat)
    (rating : Rating) : (draw word places rating).takeWhile (fun token => keeps token.word) =
      draw word (places.takeWhile (keeps <| word ·)) rating := by
  rw [draw, List.takeWhile_map]
  rfl

/-- The places of what stands between the first and the last token. -/
def inside (places : List Nat) : List Nat :=
  (places.drop 1).dropLast

theorem inside_sublist (places : List Nat) : (inside places).Sublist places :=
  (List.dropLast_sublist _).trans (List.drop_sublist 1 places)

/-! ## Cuts -/

namespace Cut

theorem exists_throughCloser_draw (closer : String → Bool) (word : Nat → String)
    (places : List Nat) :
    ∃ inner after, places = inner ++ after ∧ ∀ rating,
      throughCloser closer (draw word places rating) =
        (draw word inner rating, draw word after rating) := by
  induction places with
  | nil => exact ⟨[], [], rfl, fun rating => rfl⟩
  | cons place places ih =>
      by_cases hcloses : closer (word place) = true
      · refine ⟨[place], places, rfl, fun rating => ?_⟩
        simp [draw, throughCloser, hcloses]
      · obtain ⟨inner, after, rfl, hthrough⟩ := ih
        refine ⟨place :: inner, after, rfl, fun rating => ?_⟩
        have hrest := hthrough rating
        simp only [draw, List.map_cons] at hrest ⊢
        rw [throughCloser, word_tokenAt, if_neg hcloses, hrest]

/-- Whether a cut takes the tokens of the same places under all ratings, if it takes any; what
is left of the places in front of it includes some that are quiet. -/
def TakesSame (opens : String → Bool) (closes : String → String → Bool) (word : Nat → String)
    (quiet tail : List Nat) : Prop :=
  (∀ rating, find? opens closes (draw word (quiet ++ tail) rating) = none) ∨
    ∃ before inner after, tail = before ++ inner ++ after ∧ ∀ rating,
      find? opens closes (draw word (quiet ++ tail) rating) =
        some { inner := draw word inner rating, before := draw word (quiet ++ before) rating,
               after := draw word after rating }

theorem find?_draw_cons {place : Nat} (hplace : opens (word place) = false) (places : List Nat)
    (rating : Rating) :
    find? opens closes (draw word (place :: places) rating) =
      (find? opens closes (draw word places rating)).map fun cut =>
        { cut with before := tokenAt word rating place :: cut.before } := by
  change find? opens closes (_ :: draw word places rating) = _
  rw [find?, word_tokenAt, if_neg (by simp [hplace])]

theorem takesSame_nil (opens : String → Bool) (closes : String → String → Bool)
    (word : Nat → String) (tail : List Nat) : TakesSame opens closes word [] tail := by
  -- each step is chosen by a word, and so is the same under all ratings
  induction tail with
  | nil => exact .inl fun rating => rfl
  | cons place tail ih =>
      cases hplace : opens (word place) with
      | true =>
          obtain ⟨inner, after, rfl, hthrough⟩ :=
            exists_throughCloser_draw (closes (word place)) word tail
          refine .inr ⟨[], place :: inner, after, rfl, fun rating => ?_⟩
          change find? opens closes (_ :: draw word (inner ++ after) rating) = _
          rw [find?, word_tokenAt, if_pos hplace, hthrough rating]
          rfl
      | false =>
          rcases ih with hnone | ⟨before, inner, after, rfl, hcut⟩
          · refine .inl fun rating => ?_
            have hrest := hnone rating
            rw [List.nil_append] at hrest ⊢
            rw [find?_draw_cons hplace, hrest, Option.map_none]
          · refine .inr ⟨place :: before, inner, after, rfl, fun rating => ?_⟩
            have hrest := hcut rating
            rw [List.nil_append] at hrest ⊢
            rw [find?_draw_cons hplace, hrest]
            rfl

/-- A cut takes nothing from in front of the first word that opens a span. -/
theorem takesSame (closes : String → String → Bool)
    (hquiet : ∀ place ∈ quiet, opens (word place) = false) (tail : List Nat) :
    TakesSame opens closes word quiet tail := by
  induction quiet with
  | nil => exact takesSame_nil opens closes word tail
  | cons place quiet ih =>
      obtain ⟨hplace, hquiet⟩ := List.forall_mem_cons.mp hquiet
      rcases ih hquiet with hnone | ⟨before, inner, after, htail, hcut⟩
      · refine .inl fun rating => ?_
        rw [List.cons_append, find?_draw_cons hplace, hnone, Option.map_none]
      · refine .inr ⟨before, inner, after, htail, fun rating => ?_⟩
        rw [List.cons_append, find?_draw_cons hplace, hcut]
        rfl

end Cut

/-! ## Frames -/

namespace Frame

/-- Whether a frame of a sentence consists of the tokens at some places, whatever the sentence
is rated. -/
structure DrawnAt (word : Nat → String) (places : List Nat) (frame : Rating → Frame) : Prop where
  tokens : ∀ rating, (frame rating).tokens = draw word places rating
  strict : ∀ rating other, (frame rating).strict = (frame other).strict

/-- Whether a span that may be missing consists of the tokens at some places. -/
def SpanAt (word : Nat → String) (places : List Nat) (span : Rating → Option Frame) : Prop :=
  (places = [] ∧ ∀ rating, span rating = none) ∨
    ∃ frame, DrawnAt word places frame ∧ ∀ rating, span rating = some (frame rating)

namespace DrawnAt

theorem words (hdrawn : DrawnAt word places frame) (rating : Rating) :
    (frame rating).words = places.map word := by
  rw [Frame.words, hdrawn.tokens, map_word_draw]

theorem content (hdrawn : DrawnAt word places frame) (rating : Rating) :
    (frame rating).content = draw word (inside places) rating := by
  rw [Frame.content, hdrawn.tokens, inside, draw, draw, List.map_dropLast, List.map_drop]

theorem contentWords (hdrawn : DrawnAt word places frame) (rating : Rating) :
    (frame rating).contentWords = (inside places).map word := by
  rw [Frame.contentWords, hdrawn.content, map_word_draw]

theorem isEmptyTag (hdrawn : DrawnAt word places frame) (rating other : Rating) :
    (frame rating).isEmptyTag = (frame other).isEmptyTag := by
  simp only [Frame.isEmptyTag, hdrawn.tokens, length_draw]

/-- A cut parts the places.  None of the span is from in front of the first word that opens
one. -/
theorem cutSpan (hdrawn : DrawnAt word (quiet ++ tail) frame) (opens : String → Bool)
    (closes : String → String → Bool) (hquiet : ∀ place ∈ quiet, opens (word place) = false) :
    ∃ inner rest span left, tail.Perm (inner ++ rest) ∧
      (∀ rating, (frame rating).cutSpan opens closes = (span rating, left rating)) ∧
      SpanAt word inner span ∧ DrawnAt word (quiet ++ rest) left := by
  rcases Cut.takesSame closes hquiet tail with hnone | ⟨before, inner, after, rfl, hcut⟩
  · refine ⟨[], tail, fun _ => none, frame, .refl _, fun rating => ?_,
      .inl ⟨rfl, fun _ => rfl⟩, hdrawn⟩
    rw [Frame.cutSpan, hdrawn.tokens, hnone]
  · have hparts : (before ++ inner ++ after).Perm (inner ++ (before ++ after)) := by
      rw [← List.append_assoc]
      exact List.perm_append_comm.append_right after
    let span (rating : Rating) := part (draw word inner rating) (frame rating).strict
    let left (rating : Rating) :=
      part (draw word (quiet ++ (before ++ after)) rating) (frame rating).strict
    refine ⟨inner, before ++ after, fun rating => some (span rating), left, hparts,
      fun rating => ?_, .inr ⟨span, ⟨fun _ => rfl, hdrawn.strict⟩, fun _ => rfl⟩,
      ⟨fun _ => rfl, hdrawn.strict⟩⟩
    rw [Frame.cutSpan, hdrawn.tokens, hcut]
    simp only [span, left, draw_append, List.append_assoc]

/-- A cut of a span with a name parts the places. -/
theorem cutTag (hdrawn : DrawnAt word places frame) (name : String) :
    ∃ inner rest span left, places.Perm (inner ++ rest) ∧
      (∀ rating, (frame rating).cutTag name = (span rating, left rating)) ∧
      SpanAt word inner span ∧ DrawnAt word rest left := by
  have hnone : ∀ place ∈ ([] : List Nat), (word place == "<" ++ name ++ ">") = false := by simp
  exact hdrawn.cutSpan (· == "<" ++ name ++ ">") _ hnone

end DrawnAt

namespace SpanAt

variable {span : Rating → Option Frame}

theorem tokens (hspan : SpanAt word places span) (rating : Rating) :
    (span rating).toList.flatMap Frame.tokens = draw word places rating := by
  rcases hspan with ⟨rfl, hnone⟩ | ⟨frame, hdrawn, hsome⟩
  · rw [hnone]
    rfl
  · rw [hsome, Option.toList_some, List.flatMap_singleton, hdrawn.tokens]

theorem content (hspan : SpanAt word places span) (rating : Rating) :
    (span rating).toList.flatMap Frame.content = draw word (inside places) rating := by
  rcases hspan with ⟨rfl, hnone⟩ | ⟨frame, hdrawn, hsome⟩
  · rw [hnone]
    rfl
  · rw [hsome, Option.toList_some, List.flatMap_singleton, hdrawn.content]

theorem any_isEmptyTag (hspan : SpanAt word places span) (rating other : Rating) :
    (span rating).any (!·.isEmptyTag) = (span other).any (!·.isEmptyTag) := by
  rcases hspan with ⟨rfl, hnone⟩ | ⟨frame, hdrawn, hsome⟩
  · rw [hnone, hnone]
  · rw [hsome, hsome, Option.any_some, Option.any_some, hdrawn.isEmptyTag rating other]

end SpanAt

theorem exists_outsideTags_draw (word : Nat → String) (places : List Nat) (depth : Nat) :
    ∃ outer, outer.Sublist places ∧ ∀ rating,
      outsideTags depth (draw word places rating) = draw word outer rating := by
  induction places generalizing depth with
  | nil => exact ⟨[], List.Sublist.refl _, fun rating => rfl⟩
  | cons place places ih =>
      have hdraw : ∀ rating, draw word (place :: places) rating =
          tokenAt word rating place :: draw word places rating := fun rating => rfl
      by_cases hopens : (Tag.openAnyTagName? (word place)).isSome = true
      · obtain ⟨outer, houter, hsame⟩ := ih (depth + 1)
        exact ⟨outer, houter.cons _, fun rating => by
          rw [hdraw, outsideTags, word_tokenAt, if_pos hopens, hsame]⟩
      by_cases hcloses : (Tag.closeTagName? (word place)).isSome = true
      · obtain ⟨outer, houter, hsame⟩ := ih (depth - 1)
        exact ⟨outer, houter.cons _, fun rating => by
          rw [hdraw, outsideTags, word_tokenAt, if_neg hopens, if_pos hcloses, hsame]⟩
      obtain ⟨outer, houter, hsame⟩ := ih depth
      by_cases hdepth : (depth == 0) = true
      · refine ⟨place :: outer, houter.cons_cons _, fun rating => ?_⟩
        rw [hdraw, outsideTags, word_tokenAt, if_neg hopens, if_neg hcloses, if_pos hdepth, hsame]
        rfl
      · refine ⟨outer, houter.cons _, fun rating => ?_⟩
        rw [hdraw, outsideTags, word_tokenAt, if_neg hopens, if_neg hcloses, if_neg hdepth]
        exact hsame rating

/-- What is between the ends of a shallow frame is outside all tags. -/
theorem content_shallow (frame : Frame) :
    frame.shallow.content = outsideTags 0 frame.content := by
  unfold shallow
  split
  · next hshort =>
      have hnone : frame.content = [] := by
        rw [content, ← List.length_eq_zero_iff, List.length_dropLast, List.length_drop]
        omega
      rw [hnone]
      rfl
  · next hlong =>
      obtain ⟨first, rest, hfirst⟩ : ∃ first rest, frame.tokens = first :: rest :=
        List.exists_cons_of_ne_nil fun hnil => hlong (by simp [hnil])
      have hne : frame.tokens ≠ [] := by simp [hfirst]
      rw [List.getLast?_eq_some_getLast hne]
      simp [content, part, hfirst]

/-- The words of a frame outside all tags are those of some of its places. -/
theorem DrawnAt.exists_shallow (hdrawn : DrawnAt word places frame) :
    ∃ outer, outer.Sublist places ∧
      ∀ rating, (frame rating).shallow.content = draw word outer rating := by
  obtain ⟨outer, houter, hsame⟩ := exists_outsideTags_draw word (inside places) 0
  refine ⟨outer, houter.trans (inside_sublist places), fun rating => ?_⟩
  rw [content_shallow, hdrawn.content, hsame]

/-! ## Ratings of a sentence -/

/-- Whether two frames differ in their confidences at most. -/
structure SameWords (frame other : Frame) : Prop where
  words : other.words = frame.words
  strict : other.strict = frame.strict
  unmatchedClosings : other.unmatchedClosings = frame.unmatchedClosings

/-- The word at a place of a frame. -/
def wordAt (frame : Frame) (place : Nat) : String :=
  frame.words.getD place ""

/-- The confidence at a place of a frame. -/
def ratingAt (frame : Frame) : Rating := fun place =>
  (frame.tokens.map (·.confidence)).getD place defaultConfidence

/-- A frame with other confidences. -/
def rated (frame : Frame) (rating : Rating) : Frame where
  tokens := draw frame.wordAt (List.range frame.tokens.length) rating
  strict := frame.strict
  unmatchedClosings := frame.unmatchedClosings

theorem drawnAt_rated (frame : Frame) :
    DrawnAt frame.wordAt (List.range frame.tokens.length) frame.rated :=
  ⟨fun _ => rfl, fun _ _ => rfl⟩

theorem getElem?_tokens {frame : Frame} {place : Nat} (hplace : place < frame.tokens.length) :
    frame.tokens[place]? = some (tokenAt frame.wordAt frame.ratingAt place) := by
  rw [List.getElem?_eq_getElem hplace]
  simp [tokenAt, wordAt, ratingAt, Frame.words, hplace]

theorem rated_ratingAt (frame : Frame) : frame.rated frame.ratingAt = frame := by
  have htokens : draw frame.wordAt (List.range frame.tokens.length) frame.ratingAt =
      frame.tokens := by
    refine List.ext_getElem? fun place => ?_
    by_cases hplace : place < frame.tokens.length
    · rw [getElem?_tokens hplace]
      simp [draw, hplace]
    · simp [draw, Nat.le_of_not_lt hplace]
  rw [rated, htokens]

namespace SameWords

variable {frame other : Frame}

theorem length_eq (hsame : frame.SameWords other) :
    other.tokens.length = frame.tokens.length := by
  simpa [Frame.words] using congrArg List.length hsame.words

theorem wordAt_eq (hsame : frame.SameWords other) : other.wordAt = frame.wordAt := by
  funext place
  rw [wordAt, wordAt, hsame.words]

/-- What differs in the confidences at most is the same frame with other confidences. -/
theorem rated_eq (hsame : frame.SameWords other) (rating : Rating) :
    frame.rated rating = other.rated rating := by
  rw [rated, rated, hsame.length_eq, hsame.wordAt_eq, hsame.strict, hsame.unmatchedClosings]

end SameWords

end Frame

end Phraseology
