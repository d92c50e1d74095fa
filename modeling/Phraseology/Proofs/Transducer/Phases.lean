import Phraseology.Proofs.Search.Keys
import Phraseology.Proofs.Search.Phases
import Phraseology.Proofs.Text.LowerWords
import Phraseology.Proofs.Transducer.Conversion

/-!
# What the strict phase finds is what the skipping phase would find

Words may be skipped only if the strict phase finds nothing.  This order of the phases
loses nothing: if a sentence is searched as it is and nobody interrupts the search, then
the strict phase finds a parse exactly if the skipping phase would find one without skips,
and both phases agree on what it costs (`phases_agree`).  So a best parse never skips more
words than the skipping phase alone would skip.

Such a search is `Undisturbed`.  Its strict phase is the skipping phase with all skips but
those of noise taken out (`Undisturbed.task_strict`).
-/

namespace Phraseology

/-- The outputs of a grammar hold no blank characters. -/
def Grammar.SolidOutputs (grammar : Grammar) : Prop :=
  ∀ source target arc, (target, arc) ∈ grammar.transitions source →
    ∀ c ∈ arc.output.toList, Text.isBlank c = false

theorem Grammar.SolidOutputs.solidTags {grammar : Grammar} (hsolid : grammar.SolidOutputs) :
    grammar.SolidTags :=
  fun source target arc hleaves _ => hsolid source target arc hleaves

namespace Transducer

variable {transducer : Transducer} {options : ConvertOptions} {watch : Watch}

/-! ## Undisturbed searches -/

/-- No word is dropped before a search, and nobody interrupts it. -/
structure Undisturbed (transducer : Transducer) (options : ConvertOptions) (watch : Watch) :
    Prop where
  fluff : options.ignoreFluffWords = false
  cutoff : transducer.settings.airlineCorrectionCutoff = none
  timeout : options.timeout = none
  deadline : options.hardDeadline = none
  flag : ∀ reports, watch.isCancelled reports = false

namespace Undisturbed

variable (hundisturbed : transducer.Undisturbed options watch)
include hundisturbed

theorem clearSentence_eq (phase : Phase) (sentence : List String) :
    transducer.clearSentence phase options sentence = sentence := by
  cases phase with
  | strict => rfl
  | skipping => simp [clearSentence, hundisturbed.fluff, hundisturbed.cutoff]

/-- The words of a search are the tokens in lower case. -/
theorem sentence_eq (phase : Phase) (sentence : List String) :
    (transducer.task phase options sentence).sentence = sentence.map Heard.ofToken := by
  simp only [task, hundisturbed.clearSentence_eq]

theorem task_strict (sentence : List String) :
    transducer.task .strict options sentence =
      (transducer.task .skipping options sentence).withoutSkips := by
  simp only [task, hundisturbed.clearSentence_eq]
  rfl

theorem runsThrough (task : Task) (earlier : List Report) :
    task.RunsThrough watch (limits options) earlier := by
  apply Task.runsThrough_of_calm hundisturbed.flag
  intro look
  simp [Watch.verdict, Watch.isOver, limits, hundisturbed.timeout, hundisturbed.deadline]

/-- What a phase finds does not depend on what has been reported before. -/
theorem result_transduce_eq (tokens : List String) (phase : Phase) (earlier later : List Report) :
    (transducer.transduce tokens phase options watch earlier).result =
      (transducer.transduce tokens phase options watch later).result := by
  unfold transduce
  split
  · rfl
  · simp only
    split
    · rfl
    · exact Task.result_rounds_eq hundisturbed.flag ..

/-- Where there is something to search, a phase searches all tokens. -/
theorem transduce_eq_run {tokens : List String}
    (hsearched : ¬(tokens.isEmpty || transducer.grammar.isEmpty) = true) (phase : Phase)
    (earlier : List Report) :
    transducer.transduce tokens phase options watch earlier =
      (transducer.task phase options (tokens.map Text.lower)).run watch (limits options)
        earlier := by
  rw [Bool.not_eq_true] at hsearched
  refine Transducer.transduce_eq_run hsearched ?_ watch earlier
  rw [hundisturbed.sentence_eq, List.isEmpty_map, List.isEmpty_map]
  exact (Bool.or_eq_false_iff.mp hsearched).1

end Undisturbed

/-! ## Both phases -/

/-- The phases of an undisturbed search agree on what costs no skip. -/
theorem Undisturbed.transduce_agrees (hundisturbed : transducer.Undisturbed options watch)
    (hsolid : transducer.grammar.SolidOutputs) (hloops : transducer.grammar.NoOpeningLoop)
    {tokens : List String} (hwords : ∀ token ∈ tokens, Text.IsWord token)
    (earlier later : List Report) :
    ∃ strict skipping,
      (transducer.transduce tokens .strict options watch earlier).result = .ok strict ∧
      (transducer.transduce tokens .skipping options watch later).result = .ok skipping ∧
      (strict ≠ [] ↔ ∃ best ∈ skipping.head?, best.cost.skips = 0) ∧
      ∀ first ∈ strict.head?, ∀ best ∈ skipping.head?, first.Agrees best := by
  by_cases hempty : (tokens.isEmpty || transducer.grammar.isEmpty) = true
  · have hnone : ∀ phase reports,
        (transducer.transduce tokens phase options watch reports).result = .ok [] := by
      intro phase reports
      rw [transduce, if_pos hempty]
    exact ⟨[], [], hnone _ _, hnone _ _, by simp, by simp⟩
  · have hheard : ∀ heard ∈ (transducer.task .skipping options (tokens.map Text.lower)).sentence,
        Text.IsWord heard.token := by
      intro heard hheard
      rw [hundisturbed.sentence_eq] at hheard
      obtain ⟨word, hword, rfl⟩ := List.mem_map.mp hheard
      obtain ⟨token, htoken, rfl⟩ := List.mem_map.mp hword
      exact (hwords token htoken).lower
    rw [hundisturbed.transduce_eq_run hempty, hundisturbed.transduce_eq_run hempty,
      hundisturbed.task_strict]
    apply Task.agrees_withoutSkips rfl
    · exact hundisturbed.runsThrough _ _
    · exact hundisturbed.runsThrough _ _
    · exact hloops
    · exact hsolid.solidTags
    · exact hheard

/-- **What the strict phase finds is what the skipping phase would find.**  Let the outputs
of a grammar hold no blanks, and let no loop open tags without reading a word.  In an
undisturbed search for some words, the strict phase finds a parse exactly if the best parse
of the skipping phase skips nothing.  In this case the first parses of both phases cost the
same, and have the same tokens if they leave no tag open.  The best parse, if words may be
skipped, skips as many of them as the best one of the skipping phase. -/
theorem phases_agree {tokens : List String} (hundisturbed : transducer.Undisturbed options watch)
    (hsolid : transducer.grammar.SolidOutputs) (hloops : transducer.grammar.NoOpeningLoop)
    (hwords : ∀ token ∈ tokens, Text.IsWord token) (earlier later : List Report) :
    ∃ strict skipping,
      (transducer.transduce tokens .strict options watch earlier).result = .ok strict ∧
      (transducer.transduce tokens .skipping options watch later).result = .ok skipping ∧
      (strict ≠ [] ↔ ∃ best ∈ skipping.head?, best.cost.skips = 0) ∧
      (∀ first ∈ strict.head?, ∀ best ∈ skipping.head?, first.cost = best.cost ∧
        (best.cost.tags = 0 → first.tokens = best.tokens)) ∧
      (options.allowSkip = true → ∃ found,
        (transducer.bestParse tokens options watch).result = .ok found ∧
        found.map (·.cost.skips) = skipping.head?.map (·.cost.skips)) := by
  obtain ⟨strict, skipping, hstrict, hskipping, hiff, hagree⟩ :=
    hundisturbed.transduce_agrees hsolid hloops hwords earlier later
  refine ⟨strict, skipping, hstrict, hskipping, hiff, ?_, ?_⟩
  · intro first hfirst best hbest
    exact ⟨(hagree first hfirst best hbest).cost, (hagree first hfirst best hbest).tokens⟩
  · intro hallowed
    rw [hundisturbed.result_transduce_eq tokens .strict earlier []] at hstrict
    cases strict with
    | nil =>
        -- the second phase follows, behind the reports of the first one
        rw [hundisturbed.result_transduce_eq tokens .skipping later
          (transducer.transduce tokens .strict options watch []).reports] at hskipping
        refine ⟨skipping.head?, ?_, rfl⟩
        simp only [bestParse, hstrict, hallowed, hundisturbed.flag, hskipping]
        rfl
    | cons first rest =>
        obtain ⟨best, hbest, -⟩ := hiff.mp (List.cons_ne_nil first rest)
        have hcost : first.cost = best.cost := (hagree first rfl best hbest).cost
        refine ⟨some first, by simp only [bestParse, hstrict], ?_⟩
        rw [Option.mem_def.mp hbest, Option.map_some, Option.map_some, hcost]

/-- A transducer over the small grammar that drops no words in front of an airline. -/
def patientGreeting : Transducer :=
  .ofGrammar .greeting .empty { airlineCorrectionCutoff := none }

theorem phases_agree_patientGreeting :
    ∃ skipping, ∃ best ∈ skipping.head?,
      (patientGreeting.transduce ["_sil_", "Hello:0.9"] .skipping {} {} []).result =
        .ok skipping ∧
      best.cost = { skips := 0, tags := 0 } ∧ best.tokens = greetingParse.tokens := by
  have hundisturbed : patientGreeting.Undisturbed {} {} :=
    ⟨rfl, rfl, rfl, rfl, fun _ => rfl⟩
  have hsolid : patientGreeting.grammar.SolidOutputs := by
    intro source target arc hleaves
    have harc := Grammar.arc_of_greeting hleaves
    simp only [List.mem_cons, Prod.mk.injEq, List.not_mem_nil, or_false] at harc
    rcases harc with ⟨-, -, rfl⟩ | ⟨-, -, rfl⟩ | ⟨-, -, rfl⟩
    all_goals exact Text.solid_of_all (by decide)
  have hloops : patientGreeting.grammar.NoOpeningLoop := Task.regular_greeting.noOpeningLoop
  have hwords : ∀ token ∈ ["_sil_", "Hello:0.9"], Text.IsWord token := by
    have hcut : ∀ token ∈ ["_sil_", "Hello:0.9"], Text.words token = [token] := by decide
    intro token htoken
    apply Text.isWord_of_mem_words
    rw [hcut token htoken]
    exact List.mem_singleton_self _
  have hledger : ((patientGreeting.task .strict {}
      (["_sil_", "Hello:0.9"].map Text.lower)).ledgerWithin 10).map
        (·.complete.toList) = some [greetingParse] := by decide
  obtain ⟨strict, skipping, hstrict, hskipping, hiff, hagree, -⟩ :=
    phases_agree hundisturbed hsolid hloops hwords [] []
  have hfound : strict = [greetingParse] :=
    Except.ok.inj (hstrict.symm.trans (result_transduce_of_ledgerWithin rfl rfl hledger))
  obtain ⟨best, hbest, -⟩ := hiff.mp (by simp [hfound])
  obtain ⟨hcost, htokens⟩ := hagree greetingParse (by rw [hfound]; rfl) best hbest
  exact ⟨skipping, best, hbest, hskipping, hcost.symm, (htokens (by rw [← hcost]; rfl)).symm⟩

end Transducer

end Phraseology
