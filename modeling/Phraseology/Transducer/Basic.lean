import Phraseology.Search.Run
import Phraseology.Settings.Basic
import Phraseology.Transducer.Prefilter
import Phraseology.Transducer.Reinsertion

/-!
# Annotating sentences with a grammar

A transducer holds a grammar with what is derived from it, from the airline
table and from the settings.  A sentence is first searched for a parse that
explains every word; only if there is none may words be skipped.  The tokens of
the best parse are then merged with the spoken words.
-/

namespace Phraseology

/-- A grammar made ready for annotation. -/
structure Transducer where
  grammar : Grammar
  vocabulary : Vocabulary
  /-- Names of airlines, but not those that spell a letter. -/
  airlines : Std.TreeSet String
  noiseMarkers : Std.TreeSet String
  callsignWhitelist : Std.TreeSet String
  settings : Settings

namespace Transducer

/-- Words in lower case, as a set. -/
def lowerSet (words : List String) : Std.TreeSet String :=
  Std.TreeSet.ofList (words.map Text.lower)

/-- A transducer over a grammar whose vocabulary is known. -/
def ofVocabulary (grammar : Grammar) (vocabulary : Vocabulary) (airlines : AirlineTable)
    (settings : Settings) : Transducer where
  grammar := grammar
  vocabulary := vocabulary
  airlines :=
    Std.TreeSet.ofList ((airlines.names.map Text.lower).filter (!Alphabet.isLetter ·))
  noiseMarkers := lowerSet settings.noiseMarkers
  callsignWhitelist := lowerSet settings.callsignWhitelist
  settings := settings

/-- A transducer over a grammar. -/
def ofGrammar (grammar : Grammar) (airlines : AirlineTable) (settings : Settings) : Transducer :=
  ofVocabulary grammar (Vocabulary.ofGrammar grammar) airlines settings

/-- A transducer with another airline table. -/
def withAirlines (transducer : Transducer) (airlines : AirlineTable) : Transducer :=
  ofVocabulary transducer.grammar transducer.vocabulary airlines transducer.settings

/-- The tags of the commands that are left out of a search. -/
def prunedCommands (transducer : Transducer) (sentence : List String) : List String :=
  if transducer.settings.pruneCommands then
    transducer.vocabulary.irrelevantCommands (sentence.map Token.observation)
  else []

/-- The sentence that a phase of the search is about. -/
def clearSentence (transducer : Transducer) (phase : Phase) (options : ConvertOptions)
    (sentence : List String) : List String :=
  match phase with
  | .strict => sentence
  | .skipping =>
    let kept :=
      if options.ignoreFluffWords then dropFluff transducer.vocabulary sentence else sentence
    match transducer.settings.airlineCorrectionCutoff with
    | some cutoff => dropFalseStart transducer.airlines cutoff kept
    | none => kept

/-- What may be skipped in a phase. -/
def policy (transducer : Transducer) (phase : Phase) : SkipPolicy where
  allowSkip := phase == .skipping
  noiseMarkers := transducer.noiseMarkers
  callsignWhitelist := transducer.callsignWhitelist
  airlines := transducer.airlines

/-- The search of a phase over some tokens in lower case. -/
def task (transducer : Transducer) (phase : Phase) (options : ConvertOptions)
    (sentence : List String) : Task where
  grammar := transducer.grammar
  sentence := (transducer.clearSentence phase options sentence).map Heard.ofToken
  pruned := transducer.prunedCommands sentence
  policy := transducer.policy phase
  phase := phase

/-- The limits of time that some options set. -/
def limits (options : ConvertOptions) : Limits where
  soft := options.timeout
  hard := options.hardDeadline

/-- Runs one phase of the search over some tokens.  Nothing is searched without
tokens or without a grammar. -/
def transduce (transducer : Transducer) (tokens : List String) (phase : Phase)
    (options : ConvertOptions) (watch : Watch) (earlier : List Report) : Outcome (List Parse) :=
  if tokens.isEmpty || transducer.grammar.isEmpty then ⟨.ok [], earlier⟩
  else
    let task := transducer.task phase options (tokens.map Text.lower)
    if task.sentence.isEmpty then ⟨.ok [], earlier⟩
    else task.run watch (limits options) earlier

/-- The best parse of some tokens.  The skipping phase follows only if the strict
one found nothing, and if it is allowed and not cancelled. -/
def bestParse (transducer : Transducer) (tokens : List String) (options : ConvertOptions)
    (watch : Watch) : Outcome (Option Parse) :=
  let strict := transducer.transduce tokens .strict options watch []
  match strict.result with
  | .error failure => ⟨.error failure, strict.reports⟩
  | .ok (best :: _) => ⟨.ok (some best), strict.reports⟩
  | .ok [] =>
    if !options.allowSkip || watch.isCancelled strict.reports then ⟨.ok none, strict.reports⟩
    else
      let skipping := transducer.transduce tokens .skipping options watch strict.reports
      ⟨skipping.result.map (·.head?), skipping.reports⟩

/-- The annotation of some words by a parse; a blank one counts as none. -/
def annotation? (words : List String) (parse : Parse) : Option String :=
  let annotated := reinsertWords words parse.tokens
  if Text.isBlankText annotated then none else some annotated

/-- Annotates a sentence, if it has a parse. -/
def convert (transducer : Transducer) (sentence : String) (options : ConvertOptions)
    (watch : Watch) : Outcome (Option String) :=
  let words := Text.words sentence
  let best := transducer.bestParse words options watch
  ⟨best.result.map (·.bind (annotation? words)), best.reports⟩

/-- Annotates some lines, up to the first that fails.  Lines without a parse are
left out. -/
def convertEach (transducer : Transducer) (options : ConvertOptions) :
    List String → Except Failure (List String)
  | [] => .ok []
  | line :: rest =>
    match (transducer.convert line options {}).result with
    | .error failure => .error failure
    | .ok annotated => (convertEach transducer options rest).map (annotated.toList ++ ·)

/-- The annotations of some lines, one on a line, if there are any. -/
def convertLines (transducer : Transducer) (lines : List String) (options : ConvertOptions) :
    Except Failure (Option String) :=
  (transducer.convertEach options lines).map fun annotated =>
    if annotated.isEmpty then none else some ("\n".intercalate annotated)

end Transducer

end Phraseology
