import Phraseology.Proofs.Search.Dropping
import Phraseology.Proofs.Text.Lowered
import Phraseology.Proofs.Transducer.Phases

/-!
# Dropping fluff words adds no skips

Fluff words are those that the grammar can never put out.  An arc that reads a word puts it
out, so no arc reads a fluff word, and it can be dropped before the skipping phase
(`keepsReadable_known`): the search without it finds a parse if the one with it does, and its
best parse has no more skips (`fluff_adds_no_skips`).

A word is looked up in lower case, but what a search compares is in lower case already.
-/

namespace Phraseology

/-- Options under which fluff words are dropped, or kept. -/
def ConvertOptions.ignoringFluff (options : ConvertOptions) (ignores : Bool) : ConvertOptions :=
  { options with ignoreFluffWords := ignores }

namespace Transducer

variable {grammar : Grammar} {airlines : AirlineTable} {settings : Settings}
  {options : ConvertOptions} {sentence tokens : List String}

/-- Whether the grammar can put out a word. -/
def knows (transducer : Transducer) (token : String) : Bool :=
  transducer.vocabulary.contains (Token.observation token)

/-- What an arc reads is in the vocabulary. -/
theorem contains_observation {source target : Nat} {arc : Arc} {token : String}
    (hleaves : (target, arc) ∈ grammar.transitions source)
    (hreads : arc.label = .word (Token.observation token)) :
    (Vocabulary.ofGrammar grammar).contains (Token.observation token) = true := by
  have houtput : arc.output = Token.observation token := by
    rw [← arc.text_label, hreads, Label.text]
  rw [Vocabulary.contains, Token.lower_observation, Vocabulary.ofGrammar,
    Std.TreeSet.contains_ofList, List.contains_iff_mem]
  exact List.mem_map.mpr ⟨(source, target, arc), Grammar.mem_arcs.mpr hleaves, houtput⟩

theorem keepsReadable_known (grammar : Grammar) (airlines : AirlineTable) (settings : Settings)
    (phase : Phase) (options : ConvertOptions) (sentence : List String) :
    ((ofGrammar grammar airlines settings).task phase options sentence).KeepsReadable
      (ofGrammar grammar airlines settings).knows := by
  intro heard _ source target arc hleaves hreads
  rw [← heard.observed] at hreads
  exact contains_observation hleaves hreads

section Cutoff

variable {transducer : Transducer}
  (hcutoff : transducer.settings.airlineCorrectionCutoff = none)

include hcutoff

/-- With fluff words all tokens are searched. -/
theorem sentence_withFluff (options : ConvertOptions) (sentence : List String) :
    (transducer.task .skipping (options.ignoringFluff false) sentence).sentence =
      sentence.map Heard.ofToken := by
  simp [task, clearSentence, hcutoff, ConvertOptions.ignoringFluff]

/-- Without fluff words those tokens are searched that the grammar can put out. -/
theorem task_ignoringFluff (options : ConvertOptions) (sentence : List String) :
    transducer.task .skipping (options.ignoringFluff true) sentence =
      (transducer.task .skipping (options.ignoringFluff false) sentence).keeping
        transducer.knows := by
  have hsentence : (dropFluff transducer.vocabulary sentence).map Heard.ofToken =
      (sentence.map Heard.ofToken).filter (transducer.knows ·.token) := by
    rw [List.filter_map]
    rfl
  rw [Task.keeping, sentence_withFluff hcutoff, ← hsentence]
  simp [task, clearSentence, hcutoff, ConvertOptions.ignoringFluff]

/-- Two phases that are not interrupted, one with fluff words and one without them. -/
theorem exists_best_cleared {watch : Watch} {earlier later : List Report}
    (hreadable : (transducer.task .skipping (options.ignoringFluff false)
      (tokens.map Text.lower)).KeepsReadable transducer.knows)
    (hregular : (transducer.task .skipping (options.ignoringFluff true)
      (tokens.map Text.lower)).Regular)
    (hknown : ∃ token ∈ tokens, transducer.knows (Text.lower token) = true)
    (hthrough : (transducer.task .skipping (options.ignoringFluff false)
      (tokens.map Text.lower)).RunsThrough watch (limits options) earlier)
    (hdropped : (transducer.task .skipping (options.ignoringFluff true)
      (tokens.map Text.lower)).RunsThrough watch (limits options) later) :
    ∃ all cleared,
      (transducer.transduce tokens .skipping (options.ignoringFluff false) watch
        earlier).result = .ok all ∧
      (transducer.transduce tokens .skipping (options.ignoringFluff true) watch
        later).result = .ok cleared ∧
      ∀ best ∈ all.head?, ∃ least ∈ cleared.head?, least.cost.skips ≤ best.cost.skips := by
  have hcleared := task_ignoringFluff hcutoff options (tokens.map Text.lower)
  have hall := sentence_withFluff hcutoff options (tokens.map Text.lower)
  obtain ⟨known, hmem, hknows⟩ := hknown
  cases hsearched : tokens.isEmpty || transducer.grammar.isEmpty with
  | true =>
      have hnone : ∀ options reports,
          (transducer.transduce tokens .skipping options watch reports).result = .ok [] := by
        intro options reports
        rw [transduce, if_pos hsearched]
      exact ⟨[], [], hnone _ _, hnone _ _, by simp⟩
  | false =>
      -- the known word is searched by both phases
      have hheard : Heard.ofToken (Text.lower known) ∈ (transducer.task .skipping
          (options.ignoringFluff false) (tokens.map Text.lower)).sentence := by
        rw [hall]
        exact List.mem_map_of_mem (List.mem_map_of_mem hmem)
      have hkept : Heard.ofToken (Text.lower known) ∈ (transducer.task .skipping
          (options.ignoringFluff true) (tokens.map Text.lower)).sentence := by
        rw [hcleared]
        exact List.mem_filter.mpr ⟨hheard, hknows⟩
      rw [transduce_eq_run hsearched (List.isEmpty_eq_false_iff_exists_mem.mpr ⟨_, hheard⟩),
        transduce_eq_run hsearched (List.isEmpty_eq_false_iff_exists_mem.mpr ⟨_, hkept⟩)]
      rw [hcleared] at hregular hdropped ⊢
      exact Task.exists_best_keeping rfl hreadable hregular hthrough hdropped

end Cutoff

/-- **Dropping fluff words adds no skips.**  Let the tags of a grammar be plain, and let no loop
open tags without reading a word.  Let there be no correction of airlines, and among some words
one that the grammar can put out.  If closing arcs name the innermost open tag in the runs of the
search, and neither of two skipping phases is interrupted, one with fluff words and one without
them, then the one without them finds a parse if the other does, and its best parse has no more
skips. -/
theorem fluff_adds_no_skips {watch : Watch} {earlier later : List Report}
    (hplain : grammar.PlainTags) (hloops : grammar.NoOpeningLoop)
    (hinnermost : ((ofGrammar grammar airlines settings).task .skipping
      (options.ignoringFluff true) (tokens.map Text.lower)).ClosesInnermost)
    (hcutoff : settings.airlineCorrectionCutoff = none)
    (hwords : ∀ token ∈ tokens, Text.IsWord token)
    (hknown : ∃ token ∈ tokens,
      (ofGrammar grammar airlines settings).knows (Text.lower token) = true)
    (hthrough : ((ofGrammar grammar airlines settings).task .skipping
      (options.ignoringFluff false) (tokens.map Text.lower)).RunsThrough watch (limits options)
        earlier)
    (hdropped : ((ofGrammar grammar airlines settings).task .skipping
      (options.ignoringFluff true) (tokens.map Text.lower)).RunsThrough watch (limits options)
        later) :
    ∃ all cleared,
      ((ofGrammar grammar airlines settings).transduce tokens .skipping
        (options.ignoringFluff false) watch earlier).result = .ok all ∧
      ((ofGrammar grammar airlines settings).transduce tokens .skipping
        (options.ignoringFluff true) watch later).result = .ok cleared ∧
      ∀ best ∈ all.head?, ∃ least ∈ cleared.head?, least.cost.skips ≤ best.cost.skips := by
  have hheard : ∀ heard ∈ ((ofGrammar grammar airlines settings).task .skipping
      (options.ignoringFluff true) (tokens.map Text.lower)).sentence,
      Text.IsWord heard.token := by
    intro heard hheard
    rw [task_ignoringFluff hcutoff, Task.keeping, sentence_withFluff hcutoff] at hheard
    obtain ⟨hspoken, -⟩ := List.mem_filter.mp hheard
    obtain ⟨word, hword, rfl⟩ := List.mem_map.mp hspoken
    obtain ⟨token, htoken, rfl⟩ := List.mem_map.mp hword
    exact (hwords token htoken).lower
  have hreadable := keepsReadable_known grammar airlines settings .skipping
    (options.ignoringFluff false) (tokens.map Text.lower)
  exact exists_best_cleared hcutoff hreadable ⟨hplain, hinnermost, hloops, hheard⟩ hknown hthrough
    hdropped

/-- The parse of a greeting behind a hesitation that is skipped. -/
def hesitantParse : Parse where
  tokens := [Tag.sentenceOpen, "hello:0.9", Tag.sentenceClose]
  cost := { skips := 1, tags := 0 }
  skipped := ["uh"]

theorem fluff_adds_no_skips_hesitant :
    ∃ cleared, ∃ least ∈ cleared.head?,
      (patientGreeting.transduce ["uh", "Hello:0.9"] .skipping {} {} []).result =
        .ok [hesitantParse] ∧
      (patientGreeting.transduce ["uh", "Hello:0.9"] .skipping { ignoreFluffWords := true } {}
        []).result = .ok cleared ∧
      least.cost.skips ≤ 1 := by
  have hwords : ∀ token ∈ ["uh", "Hello:0.9"], Text.IsWord token := by
    have hcut : ∀ token ∈ ["uh", "Hello:0.9"], Text.words token = [token] := by decide
    intro token htoken
    apply Text.isWord_of_mem_words
    rw [hcut token htoken]
    exact List.mem_singleton_self _
  have hknown : ∃ token ∈ ["uh", "Hello:0.9"], patientGreeting.knows (Text.lower token) = true :=
    ⟨"Hello:0.9", by decide, by decide⟩
  have hledger : ((patientGreeting.task .skipping {}
      (["uh", "Hello:0.9"].map Text.lower)).ledgerWithin 10).map
        (·.complete.toList) = some [hesitantParse] := by decide
  have hstacked : (patientGreeting.task .skipping (ConvertOptions.ignoringFluff {} true)
      (["uh", "Hello:0.9"].map Text.lower)).grammar.Stacked _ := Grammar.stacked_greeting
  have hcalm : ∀ task : Task, task.RunsThrough {} (limits {}) [] :=
    fun _ => Task.runsThrough_of_calm (fun _ => rfl) fun _ => rfl
  obtain ⟨all, cleared, hall, hcleared, hfewer⟩ :=
    fluff_adds_no_skips Task.regular_greeting.plainTags Task.regular_greeting.noOpeningLoop
      hstacked.closesInnermost rfl hwords hknown (hcalm _) (hcalm _)
  have hfound : (patientGreeting.transduce ["uh", "Hello:0.9"] .skipping {} {} []).result =
      .ok [hesitantParse] := result_transduce_of_ledgerWithin rfl rfl hledger
  obtain rfl : all = [hesitantParse] := Except.ok.inj (hall.symm.trans hfound)
  obtain ⟨least, hleast, hskips⟩ := hfewer hesitantParse rfl
  exact ⟨cleared, least, hleast, hfound, hcleared, hskips⟩

end Transducer

end Phraseology
