import Phraseology.Proofs.Frame.Agreement
import Phraseology.Proofs.Frame.Reading
import Phraseology.Proofs.Frame.Repair

/-!
# Balanced text is read as it is

Legible tokens that are joined by single spaces are found again by a reader, in lower
case.  Their tags are the same, so if the tokens are balanced, what is read is balanced as
well, and the repair adds nothing to it.  If the first and the last token are the tags of
the sentence, the frame is one that strict readers take.
-/

namespace Phraseology.Frame

variable {tokens inside : List String}

/-- Words between the tags of the sentence make a strict frame. -/
theorem isBounded_of_words {frame : Frame}
    (hwords : frame.words = Tag.sentenceOpen :: (inside ++ [Tag.sentenceClose])) :
    frame.isBounded = true := by
  have hlength : ¬ frame.tokens.length < 2 := by
    have hcount : frame.tokens.length = frame.words.length := by simp [words]
    rw [hcount, hwords]
    simp
  have hfirst : frame.firstWord? = some Tag.sentenceOpen := by
    rw [firstWord?, hwords]
    rfl
  have hlast : frame.lastWord? = some Tag.sentenceClose := by
    rw [lastWord?, hwords, ← List.cons_append, List.getLast?_concat]
  rw [isBounded, if_neg hlength, hfirst, hlast]
  decide

/-- A repair leaves the lower case of balanced legible tokens as it is. -/
theorem run_map_lowered {spoken : List Token} (hlegible : ∀ token ∈ tokens, Legible token)
    (hbalanced : Repair.Balanced tokens)
    (hwords : (spoken.map Token.lowered).map (·.word) = tokens.map Token.observation) :
    Repair.run (spoken.map Token.lowered) = (spoken.map Token.lowered, []) := by
  have htags : ((spoken.map Token.lowered).map (·.word)).filter
      (fun word => (Tag.tagName? word).isSome) =
        tokens.filter fun word => (Tag.tagName? word).isSome := by
    rw [hwords, filter_map_observation hlegible]
  have hnests : Repair.Balanced ((spoken.map Token.lowered).map (·.word)) :=
    Repair.balanced_of_tags_eq hbalanced htags
  refine Repair.runFrom_eq_of_nests (by simp) (fun token htoken hopens => ?_) hnests
  obtain ⟨name, hname⟩ := Option.isSome_iff_exists.mp hopens
  have htag : (Tag.tagName? token.word).isSome := Tag.isSome_tagName?_of_openAnyTagName? hname
  have hmem : token.word ∈ tokens.filter fun word => (Tag.tagName? word).isSome := by
    rw [← htags]
    exact List.mem_filter.mpr ⟨List.mem_map_of_mem htoken, htag⟩
  cases hlegible token.word (List.mem_filter.mp hmem).1 with
  | tag hplain => exact hplain
  | word _ hspoken =>
      rw [hspoken.tagName?_eq_none] at htag
      cases htag

/-- Balanced legible tokens between the tags of the sentence are read as they are, but for
their letter case. -/
theorem read_unwords (hlegible : ∀ token ∈ tokens, Legible token)
    (hbalanced : Repair.Balanced tokens)
    (hbounds : tokens = Tag.sentenceOpen :: (inside ++ [Tag.sentenceClose])) :
    ∃ spoken, Token.readAll tokens = .ok spoken ∧
      read (Text.unwords tokens) true = .ok (some
        { tokens := spoken.map Token.lowered, strict := true, unmatchedClosings := [] }) ∧
      Repair.run (spoken.map Token.lowered) = (spoken.map Token.lowered, []) := by
  obtain ⟨spoken, hread, hlower, hwords⟩ := exists_readAll hlegible
  have hrun := run_map_lowered hlegible hbalanced hwords
  have hends : (spoken.map Token.lowered).map (·.word) =
      Tag.sentenceOpen :: (inside.map Token.observation ++ [Tag.sentenceClose]) := by
    rw [hwords, hbounds, List.map_cons, List.map_append, List.map_singleton,
      observation_tag Tag.plain_sentenceOpen, observation_tag Tag.plain_sentenceClose]
  have hframe : ofRepaired (spoken.map Token.lowered) true = .ok
      { tokens := spoken.map Token.lowered, strict := true, unmatchedClosings := [] } := by
    have hbounded : isBounded
        { tokens := spoken.map Token.lowered, strict := true, unmatchedClosings := [] } = true :=
      isBounded_of_words hends
    simp only [ofRepaired, hrun, ofTokens, hbounded]
    rfl
  have hnonempty : tokens.map Text.lower ≠ [] := by simp [hbounds]
  exact ⟨spoken, hread, read_eq_ok (normalWords_unwords hlegible) hnonempty hlower hframe, hrun⟩

end Phraseology.Frame
