import Phraseology.Proofs.Search.Evaluation
import Phraseology.Proofs.Search.Split
import Phraseology.Proofs.Tag.Plain
import Phraseology.Proofs.Transducer.Reinsertion
import Phraseology.Transducer.Basic

/-!
# Nothing spoken is lost by annotating

Whatever phase a parse comes from, whatever was dropped before that phase and whether or
not the search was interrupted, the words of the parse are spoken words in lower case, in
their order (`Transducer.untagged_sublist_of_bestParse`).  So they can be found again when
the spoken words are put back, and with `mergeWords_sentence` the annotated text has all
spoken words and all tags of the parse (`Transducer.convert_keeps_words`).
-/

namespace Phraseology

variable {task : Task} {state : State} {parse : Parse}

/-! ## The words of a parse -/

/-- Closing by force adds no words but those that are unread. -/
theorem State.untagged_closing_sublist {names : List String}
    (hnames : ∀ name ∈ names, '\n' ∉ name.toList) (closing : State.Closing) :
    (Tag.untagged (names.foldl State.Closing.close closing).tokens).Sublist
      (Tag.untagged closing.tokens ++ closing.unread) := by
  induction names generalizing closing with
  | nil => exact List.sublist_append_left ..
  | cons name names ih =>
      have hname : ∀ other ∈ [name], '\n' ∉ other.toList :=
        fun other hother => hnames other (by simp_all)
      have hclosed : Tag.untagged [Tag.closingTag name] = [] :=
        Tag.untagged_map_closingTag hname
      have hlater := ih (fun other hother => hnames other (List.mem_cons_of_mem _ hother))
        (closing.close name)
      rw [List.foldl_cons]
      refine hlater.trans ?_
      unfold State.Closing.close
      split
      · -- the unread words go in front of the closing tag, and are then used up
        simp only [Tag.untagged_append, hclosed, List.append_nil]
        exact List.Sublist.append_left List.filter_sublist _
      · simp only [Tag.untagged_append, hclosed, List.append_nil]
        exact List.Sublist.refl _

theorem Task.Reached.untagged_forceClose_sublist (hreached : task.Reached state) :
    (Tag.untagged state.forceClose.tokens).Sublist (task.sentence.map (·.token)) := by
  obtain ⟨past, hsentence, hsplit⟩ := hreached.interleaves
  have hclosing := State.untagged_closing_sublist hreached.newline_notMem_openTags
    { tokens := state.output, unread := state.unreadTokens, skips := state.skips }
  refine hclosing.trans ?_
  rw [hsentence, List.map_append]
  exact List.Sublist.append_right hsplit.sublist_left _

/-- The words of all parses that a search gives back are words of its sentence. -/
theorem Task.untagged_sublist_of_mem_run {watch : Watch} {limits : Limits}
    {earlier : List Report} {parses : List Parse}
    (hrun : (task.run watch limits earlier).result = .ok parses) (hparse : parse ∈ parses) :
    (Tag.untagged parse.tokens).Sublist (task.sentence.map (·.token)) := by
  rcases Task.complete_or_forced_of_mem_run hrun hparse with
    ⟨state, hcomplete⟩ | ⟨state, hreached, rfl⟩
  · exact hcomplete.interleaves.sublist_left
  · exact hreached.untagged_forceClose_sublist

namespace Transducer

variable {transducer : Transducer} {options : ConvertOptions} {watch : Watch}

theorem dropFalseStart_sublist (airlines : Std.TreeSet String) (cutoff : Nat)
    (sentence : List String) : (dropFalseStart airlines cutoff sentence).Sublist sentence := by
  unfold dropFalseStart
  split
  · split
    · split
      · exact List.drop_sublist ..
      · exact List.Sublist.refl _
    · exact List.Sublist.refl _
  · exact List.Sublist.refl _

/-- Clearing a sentence only drops words. -/
theorem clearSentence_sublist (transducer : Transducer) (phase : Phase)
    (options : ConvertOptions) (sentence : List String) :
    (transducer.clearSentence phase options sentence).Sublist sentence := by
  cases phase with
  | strict => exact List.Sublist.refl _
  | skipping =>
      have hkept : (if options.ignoreFluffWords then dropFluff transducer.vocabulary sentence
          else sentence).Sublist sentence := by
        split
        · exact List.filter_sublist
        · exact List.Sublist.refl _
      unfold clearSentence
      simp only
      split
      · exact (dropFalseStart_sublist ..).trans hkept
      · exact hkept

theorem run_of_transduce {tokens : List String} {phase : Phase}
    {earlier : List Report} {parses : List Parse}
    (hresult : (transducer.transduce tokens phase options watch earlier).result = .ok parses)
    (hparse : parse ∈ parses) :
    ((transducer.task phase options (tokens.map Text.lower)).run watch (limits options)
      earlier).result = .ok parses := by
  unfold transduce at hresult
  split at hresult
  · obtain rfl := Except.ok.inj hresult
    exact absurd hparse (by simp)
  · simp only at hresult
    split at hresult
    · obtain rfl := Except.ok.inj hresult
      exact absurd hparse (by simp)
    · exact hresult

/-- The best parse is found by the search of one of the phases. -/
theorem exists_run_of_bestParse {tokens : List String}
    (hbest : (transducer.bestParse tokens options watch).result = .ok (some parse)) :
    ∃ phase earlier parses,
      ((transducer.task phase options (tokens.map Text.lower)).run watch (limits options)
        earlier).result = .ok parses ∧ parse ∈ parses := by
  unfold bestParse at hbest
  simp only at hbest
  split at hbest
  · exact absurd hbest (by simp)
  · next best rest hstrict =>
      obtain rfl := Option.some.inj (Except.ok.inj hbest)
      have hmem : best ∈ best :: rest := List.mem_cons_self ..
      exact ⟨_, _, _, run_of_transduce hstrict hmem, hmem⟩
  · split at hbest
    · exact absurd hbest (by simp)
    · cases hskipping : (transducer.transduce tokens .skipping options watch
          (transducer.transduce tokens .strict options watch []).reports).result with
      | error failure =>
          rw [hskipping] at hbest
          exact absurd hbest (by simp [Except.map])
      | ok parses =>
          rw [hskipping] at hbest
          have hmem : parse ∈ parses := List.mem_of_head? (Except.ok.inj hbest)
          exact ⟨_, _, _, run_of_transduce hskipping hmem, hmem⟩

/-- The sentence of a phase is made of the words that are annotated. -/
theorem sentence_sublist (transducer : Transducer) (phase : Phase) (options : ConvertOptions)
    (sentence : List String) :
    ((transducer.task phase options sentence).sentence.map (·.token)).Sublist sentence := by
  have hsentence : (transducer.task phase options sentence).sentence.map (·.token) =
      transducer.clearSentence phase options sentence := by
    simp [task, Heard.ofToken, Function.comp_def]
  rw [hsentence]
  exact clearSentence_sublist ..

/-- The words of the best parse are spoken words in lower case. -/
theorem untagged_sublist_of_bestParse {tokens : List String}
    (hbest : (transducer.bestParse tokens options watch).result = .ok (some parse)) :
    (Tag.untagged parse.tokens).Sublist (tokens.map Text.lower) := by
  obtain ⟨phase, earlier, parses, hrun, hparse⟩ := exists_run_of_bestParse hbest
  exact (Task.untagged_sublist_of_mem_run hrun hparse).trans (sentence_sublist ..)

/-- Where there is something to search, a phase is a run of its search. -/
theorem transduce_eq_run {tokens : List String} {phase : Phase}
    (hsearched : (tokens.isEmpty || transducer.grammar.isEmpty) = false)
    (hheard : (transducer.task phase options (tokens.map Text.lower)).sentence.isEmpty = false)
    (watch : Watch) (earlier : List Report) :
    transducer.transduce tokens phase options watch earlier =
      (transducer.task phase options (tokens.map Text.lower)).run watch (limits options)
        earlier := by
  simp only [transduce, hsearched, hheard]
  rfl

/-- A phase that completes a single parse gives it back. -/
theorem result_transduce_of_ledgerWithin {tokens : List String} {phase : Phase}
    {earlier : List Report} {fuel : Nat}
    (hsearched : (tokens.isEmpty || transducer.grammar.isEmpty) = false)
    (hheard : (transducer.task phase {} (tokens.map Text.lower)).sentence.isEmpty = false)
    (hledger : ((transducer.task phase {} (tokens.map Text.lower)).ledgerWithin fuel).map
      (·.complete.toList) = some [parse]) :
    (transducer.transduce tokens phase {} {} earlier).result = .ok [parse] := by
  obtain ⟨last, hlast, hcomplete⟩ := Option.map_eq_some_iff.mp hledger
  have hrank : Parse.rank [parse] [] = [parse] := by
    simp [Parse.rank, Parse.sort, Parse.prefersForced, Parse.distinct, Parse.distinctFrom]
  have hrun :=
    Task.result_of_ledgerWithin {} (limits {}) earlier (fun _ => rfl) (fun _ => rfl) hlast
  rw [hcomplete, hrank] at hrun
  rw [transduce_eq_run hsearched hheard]
  exact hrun

/-! ## A greeting -/

/-- A transducer over the small grammar. -/
def greeting : Transducer :=
  .ofGrammar .greeting .empty {}

/-- The parse of a greeting behind some noise. -/
def greetingParse : Parse where
  tokens := [Tag.sentenceOpen, "hello:0.9", Tag.sentenceClose]
  cost := { skips := 0, tags := 0 }
  skipped := ["_sil_"]

theorem bestParse_greeting :
    (greeting.bestParse (Text.words "_sil_ Hello:0.9") {} {}).result = .ok (some greetingParse) := by
  have hledger : ((greeting.task .strict {}
      ((Text.words "_sil_ Hello:0.9").map Text.lower)).ledgerWithin 10).map
        (·.complete.toList) = some [greetingParse] := by decide
  have hsearch : (greeting.transduce (Text.words "_sil_ Hello:0.9") .strict {} {} []).result =
      .ok [greetingParse] := result_transduce_of_ledgerWithin rfl rfl hledger
  simp only [bestParse, hsearch]

/-! ## The annotated text -/

/-- **Nothing spoken is lost by annotating.**  Let the best parse of a sentence without
angles be well nested in the tag of a sentence, with plain tags.  Then the sentence has
an annotation.  Without its tags this is the sentence, in its own spelling; its tags are
those of the parse; and the parse is left of its tokens when unused words are deleted
and the others are put into lower case. -/
theorem convert_keeps_words {sentence : String}
    (hangles : ∀ word ∈ Text.words sentence, '<' ∉ word.toList)
    (hbest : (transducer.bestParse (Text.words sentence) options watch).result = .ok (some parse))
    (hplain : ∀ token ∈ parse.tokens, (Tag.tagName? token).isSome → Tag.Plain token)
    (hnested : Tag.WellNested parse.tokens)
    (hopens : parse.tokens.head? = some Tag.sentenceOpen)
    (hcloses : Tag.sentenceClose ∉ parse.tokens.dropLast) :
    ∃ text, (transducer.convert sentence options watch).result = .ok (some text) ∧
      Tag.stripTags text = Text.unwords (Text.words sentence) ∧
      (Text.words text).filter (fun token => (Tag.tagName? token).isSome) =
        parse.tokens.filter (fun token => (Tag.tagName? token).isSome) ∧
      Explains (Text.words text) parse.tokens := by
  have huntagged : ∀ word ∈ Text.words sentence,
      Tag.tagName? word = none ∧ Tag.tagName? (Text.lower word) = none := by
    intro word hword
    have hangle := hangles word hword
    refine ⟨Tag.tagName?_eq_none_of_notMem hangle, Tag.tagName?_eq_none_of_notMem fun hlower => ?_⟩
    exact hangle (Text.mem_of_mem_lower hlower (by decide))
  obtain ⟨hexplains, hkept⟩ := mergeWords_sentence hnested hopens hcloses
    (untagged_sublist_of_bestParse hbest) huntagged
  have hreinsert : reinsertWords (Text.words sentence) parse.tokens =
      Text.unwords (mergeWords parse.tokens (Text.words sentence) [] []) := by
    have hnonempty : parse.tokens.isEmpty = false := by
      obtain ⟨tail, htail⟩ := List.head?_eq_some_iff.mp hopens
      rw [htail]
      rfl
    simp [reinsertWords, hnonempty]
  generalize mergeWords parse.tokens (Text.words sentence) [] [] = merged
    at hexplains hkept hreinsert
  -- what is merged are plain tags and words of the sentence
  have htags : ∀ token ∈ merged, (Tag.tagName? token).isSome → Tag.Plain token := by
    intro token htoken htag
    have hmem : token ∈ merged.filter fun token => (Tag.tagName? token).isSome :=
      List.mem_filter.mpr ⟨htoken, htag⟩
    rw [hexplains.tags_eq] at hmem
    exact hplain token (List.mem_filter.mp hmem).1 htag
  have hwords : ∀ token ∈ merged, Tag.tagName? token = none →
      Text.IsWord token ∧ '<' ∉ token.toList := by
    intro token htoken hword
    have hmem : token ∈ Tag.untagged merged := List.mem_filter.mpr ⟨htoken, by rw [hword]; rfl⟩
    rw [hkept] at hmem
    exact ⟨Text.isWord_of_mem_words hmem, hangles token hmem⟩
  have hall : ∀ token ∈ merged, Text.IsWord token := by
    intro token htoken
    cases htag : Tag.tagName? token with
    | none => exact (hwords token htoken htag).1
    | some name => exact (htags token htoken (Option.isSome_of_eq_some htag)).isWord
  have hblank : Text.isBlankText (Text.unwords merged) = false := by
    cases merged with
    | nil =>
        obtain ⟨tail, htail⟩ := List.head?_eq_some_iff.mp hopens
        rw [htail] at hexplains
        cases hexplains
    | cons first others => exact Text.isBlankText_unwords (hall first (List.mem_cons_self ..))
  refine ⟨Text.unwords merged, ?_, ?_, ?_, ?_⟩
  · unfold convert
    simp only [hbest, Except.map, Option.bind_some, annotation?, hreinsert, hblank]
    rfl
  · rw [Tag.stripTags_unwords htags hwords, hkept]
  · rw [Text.words_unwords hall]
    exact hexplains.tags_eq
  · rw [Text.words_unwords hall]
    exact hexplains

theorem convert_greeting :
    ∃ text, (greeting.convert "_sil_ Hello:0.9" {} {}).result = .ok (some text) ∧
      Tag.stripTags text = "_sil_ Hello:0.9" := by
  have hplain : ∀ token ∈ greetingParse.tokens, (Tag.tagName? token).isSome → Tag.Plain token := by
    intro token htoken htag
    simp only [greetingParse, List.mem_cons, List.not_mem_nil, or_false] at htoken
    rcases htoken with rfl | rfl | rfl
    · exact Tag.plain_sentenceOpen
    · exact absurd htag (by decide)
    · exact Tag.plain_sentenceClose
  have hangles : ∀ word ∈ Text.words "_sil_ Hello:0.9", '<' ∉ word.toList := by decide
  obtain ⟨text, htext, hstripped, -⟩ :=
    convert_keeps_words hangles bestParse_greeting hplain (by decide) rfl (by decide)
  have hwords : Text.unwords (Text.words "_sil_ Hello:0.9") = "_sil_ Hello:0.9" := by decide
  exact ⟨text, htext, hstripped.trans hwords⟩

end Transducer

end Phraseology
