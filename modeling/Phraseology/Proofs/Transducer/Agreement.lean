import Phraseology.Proofs.Frame.Roundtrip
import Phraseology.Proofs.Search.PlainOutput
import Phraseology.Proofs.Transducer.Conversion

/-!
# What is annotated can be read

An annotation is made of the tags of the best parse and of the spoken words, joined by
single spaces.  The tags are plain if those of the grammar are (`plain_of_bestParse`), so
a reader of frames finds these tokens again, in lower case.  It takes the words between
them for what they are, and what is nested in the parse is nested in the annotation.  As
nothing is moved out of the sentence, its tags stand at both ends, as strict readers want
it.  `read_convert` puts this together.
-/

namespace Phraseology.Transducer

variable {transducer : Transducer} {options : ConvertOptions} {watch : Watch} {parse : Parse}

/-! ## The parse -/

/-- If the tags of a grammar are plain, so are those of the best parse of words without
angles. -/
theorem plain_of_bestParse {tokens : List String} (hgrammar : transducer.grammar.PlainTags)
    (hangles : ∀ token ∈ tokens, '<' ∉ token.toList)
    (hbest : (transducer.bestParse tokens options watch).result = .ok (some parse)) :
    Tag.AllPlain parse.tokens := by
  obtain ⟨phase, earlier, parses, hrun, hparse⟩ := exists_run_of_bestParse hbest
  refine Task.plain_of_mem_run hgrammar (fun heard hheard => ?_) hrun hparse
  have hmem : heard.token ∈ tokens.map Text.lower :=
    (sentence_sublist ..).subset (List.mem_map_of_mem hheard)
  obtain ⟨token, htoken, hlower⟩ := List.mem_map.mp hmem
  refine Tag.tagName?_eq_none_of_notMem fun hangle => hangles token htoken ?_
  rw [← hlower] at hangle
  exact Text.mem_of_mem_lower hangle (by decide)

/-! ## The annotated text -/

/-- What a best parse is made into. -/
theorem convert_eq_of_bestParse {sentence : String}
    (hbest : (transducer.bestParse (Text.words sentence) options watch).result = .ok (some parse))
    (hnonempty : parse.tokens ≠ [])
    (hblank : Text.isBlankText
      (Text.unwords (mergeWords parse.tokens (Text.words sentence) [] [])) = false) :
    (transducer.convert sentence options watch).result =
      .ok (some (Text.unwords (mergeWords parse.tokens (Text.words sentence) [] []))) := by
  have hreinsert : reinsertWords (Text.words sentence) parse.tokens =
      Text.unwords (mergeWords parse.tokens (Text.words sentence) [] []) := by
    simp [reinsertWords, hnonempty]
  unfold convert
  simp only [hbest, Except.map, Option.bind_some, annotation?, hreinsert, hblank]
  rfl

/-- **What is annotated can be read.**  Let the tags of a grammar be plain, and let the
best parse of a spoken sentence be well nested in the tag of the sentence, with its
commands directly inside the sentence or the list of commands.  Then the sentence has an
annotation, and a strict reader takes it for a frame without unmatched closing tags.  The
frame has the tokens of the annotation, each with its own confidence and in lower case, and
the repair has added nothing to them. -/
theorem read_convert {sentence : String} (hgrammar : transducer.grammar.PlainTags)
    (hspoken : ∀ word ∈ Text.words sentence, Frame.Spoken word)
    (hbest : (transducer.bestParse (Text.words sentence) options watch).result = .ok (some parse))
    (hnested : Tag.WellNested parse.tokens)
    (hopens : parse.tokens.head? = some Tag.sentenceOpen)
    (hcloses : Tag.sentenceClose ∉ parse.tokens.dropLast)
    (hcommands : ∀ before opener after, parse.tokens = before ++ opener :: after →
      Tag.isCommandOpen opener = true → ∃ top below,
        Tag.replay? before [] = some (top :: below) ∧ (top = "s" ∨ top = "commands")) :
    ∃ text spoken, (transducer.convert sentence options watch).result = .ok (some text) ∧
      Token.readAll (Text.words text) = .ok spoken ∧
      Frame.read text true = .ok (some
        { tokens := spoken.map Token.lowered, strict := true, unmatchedClosings := [] }) ∧
      Repair.run (spoken.map Token.lowered) = (spoken.map Token.lowered, []) := by
  have hangles : ∀ word ∈ Text.words sentence, '<' ∉ word.toList :=
    fun word hword hangle => ((hspoken word hword).angle_notMem '<' hangle).1 rfl
  have huntagged : ∀ word ∈ Text.words sentence,
      Tag.tagName? word = none ∧ Tag.tagName? (Text.lower word) = none := by
    intro word hword
    refine ⟨(hspoken word hword).tagName?_eq_none, Tag.tagName?_eq_none_of_notMem fun hangle => ?_⟩
    exact hangles word hword (Text.mem_of_mem_lower hangle (by decide))
  have hplain : Tag.AllPlain parse.tokens := plain_of_bestParse hgrammar hangles hbest
  have hmatched := untagged_sublist_of_bestParse hbest
  obtain ⟨hexplains, hkept⟩ := mergeWords_sentence hnested hopens hcloses hmatched huntagged
  obtain ⟨inside, hinside⟩ := exists_inside_mergeWords hnested hopens hcloses hmatched huntagged
  have hnonempty : parse.tokens ≠ [] := by
    rintro hnil
    rw [hnil] at hopens
    cases hopens
  have hconvert := convert_eq_of_bestParse hbest hnonempty
  generalize mergeWords parse.tokens (Text.words sentence) [] [] = merged
    at hexplains hkept hinside hconvert
  -- what is merged are the tags of the parse and the words of the sentence
  have hlegible : ∀ token ∈ merged, Frame.Legible token := by
    intro token htoken
    cases htag : Tag.tagName? token with
    | some name =>
        have hsome : (Tag.tagName? token).isSome := Option.isSome_of_eq_some htag
        have hmem : token ∈ merged.filter fun token => (Tag.tagName? token).isSome :=
          List.mem_filter.mpr ⟨htoken, hsome⟩
        rw [hexplains.tags_eq] at hmem
        exact .tag (hplain token (List.mem_filter.mp hmem).1 hsome)
    | none =>
        have hmem : token ∈ Tag.untagged merged :=
          List.mem_filter.mpr ⟨htoken, by rw [htag]; rfl⟩
        rw [hkept] at hmem
        exact .word (Text.isWord_of_mem_words hmem) (hspoken token hmem)
  have hbalanced : Repair.Balanced merged :=
    Repair.balanced_of_tags_eq (Repair.balanced_of_wellNested hplain hnested hcommands)
      hexplains.tags_eq
  have hblank : Text.isBlankText (Text.unwords merged) = false := by
    rw [hinside]
    exact Text.isBlankText_unwords Tag.plain_sentenceOpen.isWord
  obtain ⟨spoken, hread, hframe, hrun⟩ := Frame.read_unwords hlegible hbalanced hinside
  refine ⟨Text.unwords merged, spoken, hconvert hblank, ?_, hframe, hrun⟩
  rw [Text.words_unwords fun token htoken => (hlegible token htoken).isWord]
  exact hread

/-! ## A clearance -/

/-- A grammar whose only sentence is a command. -/
def clearanceGrammar : Grammar :=
  ((((((Grammar.empty "clearance").addArc 0 1 (Arc.saying Tag.sentenceOpen)).addArc 1 2
    (Arc.saying "<command=\"climb\">")).addArc 2 3 (Arc.saying "climb")).addArc 3 4
    (Arc.saying Tag.commandClose)).addArc 4 5 (Arc.saying Tag.sentenceClose)).markTerminal 5

/-- A transducer for this command, which leaves no command out. -/
def clearance : Transducer :=
  .ofGrammar clearanceGrammar .empty { pruneCommands := false }

theorem plainTags_clearance : clearance.grammar.PlainTags := by
  intro source target arc hleaves htag
  have harcs : (source, target, arc) ∈ clearanceGrammar.arcs := Grammar.mem_arcs.mpr hleaves
  have harc : (source, target, arc) ∈ [(0, 1, Arc.saying Tag.sentenceOpen),
      (1, 2, Arc.saying "<command=\"climb\">"), (2, 3, Arc.saying "climb"),
      (3, 4, Arc.saying Tag.commandClose), (4, 5, Arc.saying Tag.sentenceClose)] := harcs
  have hclimb : Tag.IsName "climb" := by decide
  have hcommand : Tag.IsName "command" := by decide
  simp only [List.mem_cons, Prod.mk.injEq, List.not_mem_nil, or_false] at harc
  rcases harc with ⟨-, -, rfl⟩ | ⟨-, -, rfl⟩ | ⟨-, -, rfl⟩ | ⟨-, -, rfl⟩ | ⟨-, -, rfl⟩
  · exact Tag.plain_sentenceOpen
  · exact .command hclimb
  · exact absurd htag (by decide)
  · exact .closing hcommand
  · exact Tag.plain_sentenceClose

/-- The parse of a climb. -/
def clearanceParse : Parse where
  tokens := [Tag.sentenceOpen, "<command=\"climb\">", "climb:0.93", Tag.commandClose,
    Tag.sentenceClose]
  cost := { skips := 0, tags := 0 }
  skipped := []

theorem bestParse_clearance :
    (clearance.bestParse (Text.words "Climb:0.93") {} {}).result = .ok (some clearanceParse) := by
  have hledger : ((clearance.task .strict {}
      ((Text.words "Climb:0.93").map Text.lower)).ledgerWithin 10).map
        (·.complete.toList) = some [clearanceParse] := by decide
  have hsearch : (clearance.transduce (Text.words "Climb:0.93") .strict {} {} []).result =
      .ok [clearanceParse] := result_transduce_of_ledgerWithin rfl rfl hledger
  simp only [bestParse, hsearch]

theorem read_convert_clearance :
    ∃ text spoken, (clearance.convert "Climb:0.93" {} {}).result = .ok (some text) ∧
      Token.readAll (Text.words text) = .ok spoken ∧
      Frame.read text true = .ok (some
        { tokens := spoken.map Token.lowered, strict := true, unmatchedClosings := [] }) := by
  have hwords : Text.words "Climb:0.93" = ["Climb" ++ Frame.rating '0' ['9', '3']] := by decide
  have hspoken : ∀ word ∈ Text.words "Climb:0.93", Frame.Spoken word := by
    intro word hword
    rw [hwords, List.mem_singleton] at hword
    have hunmarked : ∀ c ∈ "Climb".toList, Frame.isMark c = false := by simp [Frame.isMark]
    rw [hword]
    exact .rated hunmarked (by decide) (by decide) (List.all_eq_true.mp (by decide))
  have hcommands : ∀ before opener after, clearanceParse.tokens = before ++ opener :: after →
      Tag.isCommandOpen opener = true → ∃ top below,
        Tag.replay? before [] = some (top :: below) ∧ (top = "s" ∨ top = "commands") := by
    intro before opener after hsplit hcommand
    rcases before with _ | ⟨first, _ | ⟨second, before⟩⟩
    · obtain ⟨rfl, -⟩ := List.cons.inj hsplit
      exact absurd hcommand (by decide)
    · obtain ⟨rfl, -⟩ := List.cons.inj hsplit
      exact ⟨"s", [], by decide, .inl rfl⟩
    · -- behind the second token no command is opened
      have hrest : ["climb:0.93", Tag.commandClose, Tag.sentenceClose] =
          before ++ opener :: after := (List.cons.inj (List.cons.inj hsplit).2).2
      have hmem : opener ∈ ["climb:0.93", Tag.commandClose, Tag.sentenceClose] := by
        rw [hrest]
        simp
      simp only [List.mem_cons, List.not_mem_nil, or_false] at hmem
      rcases hmem with rfl | rfl | rfl <;> exact absurd hcommand (by decide)
  obtain ⟨text, spoken, htext, hread, hframe, -⟩ :=
    read_convert plainTags_clearance hspoken bestParse_clearance (by decide) rfl (by decide)
      hcommands
  exact ⟨text, spoken, htext, hread, hframe⟩

end Phraseology.Transducer
