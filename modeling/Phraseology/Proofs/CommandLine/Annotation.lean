import Phraseology.CommandLine.Run
import Phraseology.Proofs.Airline.Insertions
import Phraseology.Proofs.Transducer.Agreement
import Phraseology.Proofs.Transducer.Pruning
import Phraseology.Proofs.Utterance.ObjectForm

/-!
# Annotating an input

The call `annotate` tags and interprets a sentence by steps of its own, and it may learn callsigns
on the way.  What it writes is nevertheless what `Annotator.annotate` answers: for each sentence
the records that it gives in a session that knows the callsigns of the sentences before
(`run_annotate_iff`).  The texts of all records stand on lines of their own, and so do the arrays
of the records of each sentence.

The callsigns that are heard in a sentence depend on those that are known already, since they
complete what was spoken.  So the session in front of a sentence is found by going through the
sentences before it (`Annotator.heard`), but it differs from the first one only in what it knows
(`Annotator.knowing`).
-/

namespace Phraseology

/-- A callsign in its two halves, if both are known. -/
def Callsign.known? (callsign : Callsign) : Option KnownCallsign :=
  match callsign.airline, callsign.flightNumber with
  | .code airline, some flightNumber => some { airline, flightNumber }
  | _, _ => none

namespace Annotator

variable {annotator : Annotator} {learns : Bool} {convert : ConvertOptions}
  {extract : ExtractOptions} {sentence : String} {sentences : List String}
  {answers : List (List Record)}

/-! ## What a session hears -/

/-- A session that knows some more callsigns. -/
def knowing (annotator : Annotator) (callsigns : List KnownCallsign) : Annotator :=
  { annotator with context := callsigns.foldl CallsignContext.push annotator.context }

/-- The callsign of a sentence, if the sentence is converted and both halves are known. -/
def heard? (annotator : Annotator) (convert : ConvertOptions) (extract : ExtractOptions)
    (sentence : String) : Option KnownCallsign :=
  match (annotator.convert sentence convert {}).result with
  | .ok (some tagged) => (annotator.extract tagged extract).toOption.bind (·.callsign.known?)
  | _ => none

/-- The callsigns of some sentences, each of which is known for the sentences behind it. -/
def heard (convert : ConvertOptions) (extract : ExtractOptions) :
    Annotator → List String → List KnownCallsign
  | _, [] => []
  | annotator, sentence :: rest =>
    let callsign := (annotator.heard? convert extract sentence).toList
    callsign ++ heard convert extract (annotator.knowing callsign) rest

/-- The session behind some sentences, which has learnt their callsigns if it learns any. -/
def behind (annotator : Annotator) (learns : Bool) (convert : ConvertOptions)
    (extract : ExtractOptions) (sentences : List String) : Annotator :=
  annotator.knowing (if learns then heard convert extract annotator sentences else [])

@[simp]
theorem knowing_nil (annotator : Annotator) : annotator.knowing [] = annotator := rfl

theorem knowing_append (annotator : Annotator) (callsigns more : List KnownCallsign) :
    annotator.knowing (callsigns ++ more) = (annotator.knowing callsigns).knowing more := by
  simp [knowing]

@[simp]
theorem behind_nil : annotator.behind learns convert extract [] = annotator := by
  cases learns <;> rfl

theorem behind_singleton : annotator.behind learns convert extract [sentence] =
    annotator.knowing
      (if learns then (annotator.heard? convert extract sentence).toList else []) := by
  simp [behind, heard]

theorem behind_cons : annotator.behind learns convert extract (sentence :: sentences) =
    (annotator.behind learns convert extract [sentence]).behind learns convert extract
      sentences := by
  cases learns with
  | false => rfl
  | true => simp [behind, heard, knowing_append]

theorem result_annotate (annotator : Annotator) (sentence : String) (watch : Watch) :
    (annotator.annotate sentence convert extract watch).result =
      match (annotator.convert sentence convert watch).result with
      | .error failure => .error failure
      | .ok none => .ok []
      | .ok (some tagged) => (annotator.extract tagged extract).map (·.records extract) := rfl

theorem result_annotate_of_unparsed {watch : Watch}
    (hunparsed : (annotator.convert sentence convert watch).result = .ok none) :
    (annotator.annotate sentence convert extract watch).result = .ok [] := by
  rw [result_annotate, hunparsed]

section

variable {tagged : String} {utterance : Utterance} {watch : Watch}

theorem extract_of_read (annotator : Annotator) (extract : ExtractOptions) {frame : Option Frame}
    (hread : Frame.read tagged extract.strict = .ok frame) :
    annotator.extract tagged extract =
      Utterance.ofFrame? frame annotator.airlines annotator.context := by
  simp only [Annotator.extract, hread]

theorem result_annotate_of_parsed
    (hconvert : (annotator.convert sentence convert watch).result = .ok (some tagged))
    (hextract : annotator.extract tagged extract = .ok utterance) :
    (annotator.annotate sentence convert extract watch).result =
      .ok (utterance.records extract) := by
  simp only [result_annotate, hconvert, hextract, Except.map]

/-- Behind a sentence that was interpreted its callsign is known. -/
theorem behind_of_parsed
    (hconvert : (annotator.convert sentence convert {}).result = .ok (some tagged))
    (hextract : annotator.extract tagged extract = .ok utterance) :
    annotator.behind true convert extract [sentence] =
      annotator.knowing utterance.callsign.known?.toList := by
  simp only [behind_singleton, heard?, hconvert, hextract, Except.toOption, Option.bind_some,
    if_true]

end

/-- Whether some records are what a session answers on some sentences, one after the other. -/
structure Answers (annotator : Annotator) (learns : Bool) (convert : ConvertOptions)
    (extract : ExtractOptions) (sentences : List String) (answers : List (List Record)) :
    Prop where
  length : answers.length = sentences.length
  annotate : ∀ (i : Nat) (sentence : String) (records : List Record),
    sentences[i]? = some sentence → answers[i]? = some records →
      ((annotator.behind learns convert extract (sentences.take i)).annotate sentence convert
        extract {}).result = .ok records

/-- A sentence without a parse has no records. -/
theorem Answers.getElem?_of_unparsed
    (hanswers : annotator.Answers learns convert extract sentences answers) {i : Nat}
    (hsentence : sentences[i]? = some sentence)
    (hunparsed : ((annotator.behind learns convert extract (sentences.take i)).convert sentence
      convert {}).result = .ok none) : answers[i]? = some [] := by
  have hi : i < answers.length := by
    rw [hanswers.length]
    exact (List.getElem?_eq_some_iff.mp hsentence).1
  have hrecords : answers[i]? = some answers[i] := List.getElem?_eq_getElem hi
  have hanswer := hanswers.annotate i sentence answers[i] hsentence hrecords
  rw [result_annotate_of_unparsed hunparsed] at hanswer
  rw [hrecords, ← Except.ok.inj hanswer]

theorem answers_nil_iff : annotator.Answers learns convert extract [] answers ↔ answers = [] := by
  constructor
  · exact fun hanswers => List.eq_nil_of_length_eq_zero hanswers.length
  · rintro rfl
    exact ⟨rfl, by simp⟩

theorem answers_cons_iff :
    annotator.Answers learns convert extract (sentence :: sentences) answers ↔
      ∃ records more, answers = records :: more ∧
        (annotator.annotate sentence convert extract {}).result = .ok records ∧
        (annotator.behind learns convert extract [sentence]).Answers learns convert extract
          sentences more := by
  constructor
  · intro hanswers
    cases answers with
    | nil => exact absurd hanswers.length (by simp)
    | cons records more =>
        refine ⟨records, more, rfl, ?_, ⟨by simpa using hanswers.length, ?_⟩⟩
        · simpa using hanswers.annotate 0 sentence records rfl rfl
        · intro i other rest hsentence hrecords
          have hlater := hanswers.annotate (i + 1) other rest hsentence hrecords
          rwa [List.take_succ_cons, behind_cons] at hlater
  · rintro ⟨records, more, rfl, hfirst, hmore⟩
    refine ⟨by simp [hmore.length], fun i other rest hsentence hrecords => ?_⟩
    cases i with
    | zero =>
        obtain rfl := Option.some.inj hsentence
        obtain rfl := Option.some.inj hrecords
        simpa using hfirst
    | succ i =>
        rw [List.take_succ_cons, behind_cons]
        exact hmore.annotate i other rest hsentence hrecords

end Annotator

namespace CommandLine

variable {annotator : Annotator} {learns : Bool} {options : ConvertOptions}
  {arguments : ExtractArguments} {output : String}

/-! ## What a line writes -/

theorem learn_eq (annotator : Annotator) (callsign : Callsign) :
    learn annotator callsign = annotator.knowing callsign.known?.toList := by
  obtain ⟨airline, flightNumber, _, _, _⟩ := callsign
  cases airline <;> cases flightNumber <;> rfl

/-- A sentence is annotated by steps of its own as the library annotates it. -/
theorem annotateLine_eq (options : ConvertOptions) (arguments : ExtractArguments) (learns : Bool)
    (annotator : Annotator) (sentence : String) :
    annotateLine options arguments learns annotator sentence =
      (annotator.annotate sentence options arguments.options {}).result.map fun records =>
        (recordsText arguments.format records,
          annotator.behind learns options arguments.options [sentence]) := by
  rw [Annotator.result_annotate, Annotator.behind_singleton, annotateLine, Annotator.heard?]
  cases (annotator.convert sentence options {}).result with
  | error failure => rfl
  | ok tagged =>
      cases tagged with
      | none => simp [Except.map]
      | some tagged =>
          dsimp only
          cases annotator.extract tagged arguments.options with
          | error failure => rfl
          | ok utterance => cases learns <;> simp [Except.map, Except.toOption, learn_eq]

/-! ## What an input writes -/

/-- The lines of an input that are sentences. -/
def sentencesOf (lines : List String) : List String :=
  lines.filter fun line => !Text.isBlankText line

section

variable {step : Annotator → String → Except Failure (String × Annotator)} {line : String}
  {rest found : List (Option String)}

theorem eachLine_of_blank (hblank : Text.isBlankText line = true) :
    eachLine step annotator (some line :: rest) = eachLine step annotator rest := by
  rw [eachLine, if_pos hblank]

theorem eachLine_of_error (hspoken : Text.isBlankText line = false) {failure : Failure}
    (hstep : step annotator line = .error failure) :
    eachLine step annotator (some line :: rest) = ("", .error failure) := by
  rw [eachLine, if_neg (Bool.eq_false_iff.mp hspoken), hstep]

theorem eachLine_of_ok (hspoken : Text.isBlankText line = false) {written : String}
    {next : Annotator} (hstep : step annotator line = .ok (written, next)) :
    eachLine step annotator (some line :: rest) =
      (written ++ (eachLine step next rest).1, (eachLine step next rest).2) := by
  rw [eachLine, if_neg (Bool.eq_false_iff.mp hspoken), hstep]

/-- Without a failure all lines can be read. -/
theorem exists_lines_of_eachLine (hend : (eachLine step annotator found).2 = .ok ()) :
    ∃ lines : List String, found = lines.map some := by
  induction found generalizing annotator with
  | nil => exact ⟨[], rfl⟩
  | cons line rest ih =>
      cases line with
      | none => cases hend
      | some line =>
          suffices hrest : ∃ next, (eachLine step next rest).2 = .ok () by
            obtain ⟨next, hnext⟩ := hrest
            obtain ⟨lines, rfl⟩ := ih hnext
            exact ⟨line :: lines, rfl⟩
          cases hspoken : Text.isBlankText line with
          | true =>
              rw [eachLine_of_blank hspoken] at hend
              exact ⟨annotator, hend⟩
          | false =>
              cases hstep : step annotator line with
              | error failure =>
                  rw [eachLine_of_error hspoken hstep] at hend
                  cases hend
              | ok written =>
                  rw [eachLine_of_ok hspoken hstep] at hend
                  exact ⟨written.2, hend⟩

/-- Blank lines are passed over. -/
theorem eachLine_sentencesOf (step : Annotator → String → Except Failure (String × Annotator))
    (annotator : Annotator) (lines : List String) :
    eachLine step annotator (lines.map some) =
      eachLine step annotator ((sentencesOf lines).map some) := by
  induction lines generalizing annotator with
  | nil => rfl
  | cons line lines ih =>
      cases hspoken : Text.isBlankText line with
      | true =>
          rw [List.map_cons, eachLine_of_blank hspoken, ih, sentencesOf, sentencesOf,
            List.filter_cons_of_neg (by simp [hspoken])]
      | false =>
          rw [sentencesOf, List.filter_cons_of_pos (by simp [hspoken]), List.map_cons,
            List.map_cons]
          cases hstep : step annotator line with
          | error failure => rw [eachLine_of_error hspoken hstep, eachLine_of_error hspoken hstep]
          | ok written =>
              rw [eachLine_of_ok hspoken hstep, eachLine_of_ok hspoken hstep, ih, sentencesOf]

end

/-- Sentences are worked off without a failure exactly if the library answers on each of them, and
what is written are its answers. -/
theorem eachLine_annotateLine_iff {sentences : List String}
    (hspoken : ∀ sentence ∈ sentences, Text.isBlankText sentence = false) :
    eachLine (annotateLine options arguments learns) annotator (sentences.map some) =
        (output, .ok ()) ↔
      ∃ answers, annotator.Answers learns options arguments.options sentences answers ∧
        output = String.join (answers.map (recordsText arguments.format)) := by
  induction sentences generalizing annotator output with
  | nil =>
      simp only [Annotator.answers_nil_iff, exists_eq_left, List.map_nil, String.join_nil, eachLine,
        Prod.mk.injEq, and_true]
      exact eq_comm
  | cons sentence sentences ih =>
      obtain ⟨hspoken, hmore⟩ := List.forall_mem_cons.mp hspoken
      have hstep := annotateLine_eq options arguments learns annotator sentence
      cases hresult : (annotator.annotate sentence options arguments.options {}).result with
      | error failure =>
          rw [hresult] at hstep
          rw [List.map_cons, eachLine_of_error hspoken hstep]
          refine iff_of_false (by simp) ?_
          rintro ⟨answers, hanswers, -⟩
          obtain ⟨records, more, -, hok, -⟩ := Annotator.answers_cons_iff.mp hanswers
          rw [hresult] at hok
          cases hok
      | ok records =>
          rw [hresult] at hstep
          rw [List.map_cons, eachLine_of_ok hspoken hstep, Prod.mk.injEq]
          constructor
          · rintro ⟨rfl, hending⟩
            obtain ⟨more, hanswers, houtput⟩ := (ih hmore).mp (Prod.ext rfl hending)
            refine ⟨records :: more,
              Annotator.answers_cons_iff.mpr ⟨records, more, rfl, hresult, hanswers⟩, ?_⟩
            rw [List.map_cons, String.join_cons]
            exact congrArg (recordsText arguments.format records ++ ·) houtput
          · rintro ⟨answers, hanswers, rfl⟩
            obtain ⟨other, more, rfl, hok, hlater⟩ := Annotator.answers_cons_iff.mp hanswers
            obtain rfl := Except.ok.inj (hresult.symm.trans hok)
            rw [(ih hmore).mpr ⟨more, hlater, rfl⟩, List.map_cons, String.join_cons]
            exact ⟨rfl, rfl⟩

/-- An input is worked off without a failure exactly if its lines can be read and the library
answers on each sentence among them. -/
theorem eachLine_lines_iff {found : List (Option String)} :
    eachLine (annotateLine options arguments learns) annotator found = (output, .ok ()) ↔
      ∃ lines answers, found = lines.map some ∧
        annotator.Answers learns options arguments.options (sentencesOf lines) answers ∧
        output = String.join (answers.map (recordsText arguments.format)) := by
  have hspoken : ∀ lines, ∀ sentence ∈ sentencesOf lines, Text.isBlankText sentence = false := by
    intro lines sentence hsentence
    simpa using (List.mem_filter.mp hsentence).2
  constructor
  · intro hdone
    obtain ⟨lines, rfl⟩ := exists_lines_of_eachLine (congrArg Prod.snd hdone)
    rw [eachLine_sentencesOf, eachLine_annotateLine_iff (hspoken lines)] at hdone
    obtain ⟨answers, hanswers, houtput⟩ := hdone
    exact ⟨lines, answers, rfl, hanswers, houtput⟩
  · rintro ⟨lines, answers, rfl, hanswers, houtput⟩
    rw [eachLine_sentencesOf, eachLine_annotateLine_iff (hspoken lines)]
    exact ⟨answers, hanswers, houtput⟩

/-- As texts the records of all answers stand one after the other. -/
theorem join_recordsText_text (answers : List (List Record)) :
    String.join (answers.map (recordsText .text)) =
      String.join (answers.flatten.map fun record => record.text ++ "\n") := by
  induction answers with
  | nil => rfl
  | cons records answers ih =>
      rw [List.map_cons, String.join_cons, ih, List.flatten_cons, List.map_append,
        String.join_append]
      rfl

/-- What is written, for each of the two formats. -/
theorem eq_join_recordsText_iff {format : OutputFormat} {answers : List (List Record)} :
    output = String.join (answers.map (recordsText format)) ↔
      (format = .text →
        output = String.join (answers.flatten.map fun record => record.text ++ "\n")) ∧
      (format = .json →
        output = String.join (answers.map fun records => Record.array records ++ "\n")) := by
  cases format with
  | text => simp [join_recordsText_text]
  | json =>
      simp only [reduceCtorEq, false_implies, true_and, forall_const]
      rfl

/-- Arrays of records are written on lines of their own. -/
theorem lines_recordsText (answers : List (List Record)) :
    Text.lines (String.join (answers.map (recordsText .json))).toUTF8 =
      answers.map fun records => some (Record.array records) := by
  have hlines : answers.map (recordsText .json) = (answers.map Record.array).map (· ++ "\n") := by
    rw [List.map_map]
    rfl
  have hone : ∀ text ∈ answers.map Record.array, Text.IsLine text := by
    intro text htext
    obtain ⟨records, -, rfl⟩ := List.mem_map.mp htext
    exact Record.isLine_array records
  rw [hlines, Text.lines_toUTF8, Text.textLines_join hone, List.map_map]
  rfl

/-- Arrays of records take one line for each sentence, `[]` for one without a parse. -/
theorem lines_of_answers {sentences : List String} {answers : List (List Record)}
    {extract : ExtractOptions}
    (hanswers : annotator.Answers learns options extract sentences answers)
    (houtput : output = String.join (answers.map (recordsText .json))) :
    Text.lines output.toUTF8 = answers.map (fun records => some (Record.array records)) ∧
      ∀ (i : Nat) (sentence : String), sentences[i]? = some sentence →
        ((annotator.behind learns options extract (sentences.take i)).convert sentence options
          {}).result = .ok none →
        (Text.lines output.toUTF8)[i]? = some (some "[]") := by
  rw [houtput, lines_recordsText]
  refine ⟨rfl, fun i sentence hsentence hunparsed => ?_⟩
  rw [List.getElem?_map, hanswers.getElem?_of_unparsed hsentence hunparsed]
  rfl

/-- A session loads its airlines and then its grammar. -/
theorem session_of_files {files : String → Option ByteArray} {grammarPath airlinesPath : String}
    {grammarBytes airlinesBytes : ByteArray} {grammar : Grammar} {airlines : AirlineTable}
    (hgrammar : files grammarPath = some grammarBytes)
    (hairlines : files airlinesPath = some airlinesBytes)
    (hrows : Grammar.ofBytes (sourceFile files grammarPath).name grammarBytes = .ok grammar)
    (htable : AirlineTable.ofBytes airlinesBytes = .ok airlines) :
    session files ⟨some grammarPath, some airlinesPath, none, none⟩ =
      .ok (((Annotator.ofSettings {}).setAirlines airlines).setGrammar grammar) := by
  have hloaded : Annotator.loadAirlines (.ofSettings {}) (sourceFile files airlinesPath) =
      (.ok (), (Annotator.ofSettings {}).setAirlines airlines) := by
    simp only [Annotator.loadAirlines, sourceFile, hairlines, htable]
  have hready : loadGrammar ((Annotator.ofSettings {}).setAirlines airlines)
      (sourceFile files grammarPath) =
        (.ok (), ((Annotator.ofSettings {}).setAirlines airlines).setGrammar grammar) := by
    simp only [sourceFile, hgrammar] at hrows
    simp only [loadGrammar, Annotator.loadGrammar, sourceFile, hgrammar, hrows]
  simp only [session, loadSettings, loadWith, hloaded, hready, bind, Except.bind]

/-- The arcs of a grammar for one command behind the callsign of one airline, the flight number of
which need not be spoken. -/
def speedArcs : List (Nat × Nat × String) :=
  [(0, 1, "<s>"), (1, 2, "<callsign>"), (2, 3, "<airline>"), (3, 4, "swiss"),
    (4, 5, "</airline>"), (5, 8, Label.silentText), (5, 6, "<flightnumber>"), (6, 7, "two"),
    (7, 8, "</flightnumber>"), (8, 9, "</callsign>"), (9, 10, "<command=\"speed_own\">"),
    (10, 11, "speed"), (11, 12, "</command>"), (12, 13, "</s>")]

/-- The grammar with these arcs. -/
def speedGrammar : Grammar :=
  (speedArcs.foldl (fun (grammar : Grammar) (source, target, output) =>
    grammar.addArc source target (.saying output)) (.empty "grammar.tsv")).markTerminal 13

/-- The lines of a file with this grammar. -/
def speedRows : List String :=
  speedArcs.map (fun (source, target, output) =>
    "\t".intercalate [toString source, toString target, output, output]) ++ ["13"]

/-- A table with the airline of this grammar. -/
def speedAirlines : AirlineTable :=
  AirlineTable.empty.grow { code := "SWR", name := "swiss" }

/-- The files of a session with this grammar and this airline. -/
def speedFiles (path : String) : Option ByteArray :=
  if path = "grammar.tsv" then some (String.join (speedRows.map (· ++ "\n"))).toUTF8
  else if path = "airlines.txt" then some "SWR swiss\n".toUTF8
  else none

/-- The transducer of a session with these files. -/
def speedTransducer : Transducer :=
  .ofGrammar speedGrammar speedAirlines {}

/-- The session of these files. -/
def speedAnnotator : Annotator :=
  ((Annotator.ofSettings {}).setAirlines speedAirlines).setGrammar speedGrammar

theorem ofBytes_speedRows :
    Grammar.ofBytes "grammar.tsv" (String.join (speedRows.map (· ++ "\n"))).toUTF8 =
      .ok speedGrammar := by
  have hlines : ∀ row ∈ speedRows, Text.IsLine row := by
    have hall : ∀ row ∈ speedRows, '\n' ∉ row.toList ∧ row.toList.getLast? ≠ some '\r' := by
      decide
    exact fun row hrow => ⟨(hall row hrow).1, (hall row hrow).2⟩
  have hrows : Grammar.readLines (.empty "grammar.tsv") 1 (speedRows.map some) =
      .ok speedGrammar := by
    rfl
  rw [Grammar.ofBytes, Text.lines_toUTF8, Text.textLines_join hlines, hrows]

theorem session_speedFiles :
    session speedFiles ⟨some "grammar.tsv", some "airlines.txt", none, none⟩ =
      .ok speedAnnotator := by
  have hairlines : speedFiles "airlines.txt" = some "SWR swiss\n".toUTF8 := by
    rw [speedFiles, if_neg (by decide), if_pos rfl]
  have htable : AirlineTable.ofBytes "SWR swiss\n".toUTF8 = .ok speedAirlines := by
    rw [AirlineTable.ofBytes, Text.lines_toUTF8]
    rfl
  have hname : (sourceFile speedFiles "grammar.tsv").name = "grammar.tsv" := by decide
  exact session_of_files (if_pos rfl) hairlines (by rw [hname, ofBytes_speedRows]) htable

/-- The words of the call in this grammar, and the tags around them. -/
def fullCall : List String :=
  ["<s>", "<callsign>", "<airline>", "swiss", "</airline>", "<flightnumber>", "two",
    "</flightnumber>", "</callsign>", "<command=\"speed_own\">", "speed", "</command>", "</s>"]

/-- The same call without the flight number. -/
def shortCall : List String :=
  ["<s>", "<callsign>", "<airline>", "swiss", "</airline>", "</callsign>",
    "<command=\"speed_own\">", "speed", "</command>", "</s>"]

theorem irrelevantCommands_speed {observations : List String} (hspeed : "speed" ∈ observations) :
    (Vocabulary.ofGrammar speedGrammar).irrelevantCommands observations = [] := by
  refine List.eq_nil_iff_forall_not_mem.mpr fun tag hmem => ?_
  obtain ⟨⟨hcommand, node, source, arc, hleaves, rfl⟩, hsilent⟩ :=
    Vocabulary.mem_irrelevantCommands_iff.mp hmem
  have hopens : ∀ output ∈ speedGrammar.arcs.map (·.2.2.output),
      Tag.isCommandOpen output = true → output = "<command=\"speed_own\">" := by
    decide
  have houtput := hopens arc.output
    (List.mem_map_of_mem (f := (·.2.2.output)) (Grammar.mem_arcs.mpr hleaves)) hcommand
  have henters : Vocabulary.EnteredBy speedGrammar arc.output 10 := by
    refine ⟨9, .saying "<command=\"speed_own\">", ?_, houtput.symm⟩
    exact List.mem_singleton_self _
  refine hsilent "speed" hspeed (by decide) ⟨10, 11, .saying "speed", .entry henters, ?_, rfl⟩
  exact Vocabulary.mem_insideArcs_iff.mpr ⟨List.mem_singleton_self _, by decide⟩

/-- A call is tagged as the search has parsed it. -/
theorem convert_speed {sentence : String} {inside : List String}
    (hsearched : (Text.words sentence).isEmpty = false)
    (hspeed : "speed" ∈ ((Text.words sentence).map Text.lower).map Token.observation)
    (hledger : ((speedTransducer.task .strict {}
      ((Text.words sentence).map Text.lower)).unpruned.ledgerWithin 20).map (·.complete.toList) =
        some [{ tokens := Tag.sentenceOpen :: inside, cost := { skips := 0, tags := 0 },
                skipped := [] }])
    (hmerged : mergeWords (Tag.sentenceOpen :: inside) (Text.words sentence) [] [] =
      Tag.sentenceOpen :: inside) :
    (speedAnnotator.convert sentence {} {}).result =
      .ok (some (Text.unwords (Tag.sentenceOpen :: inside))) := by
  have hpruned : (speedTransducer.task .strict {} ((Text.words sentence).map Text.lower)).unpruned =
      speedTransducer.task .strict {} ((Text.words sentence).map Text.lower) := by
    have hnone : speedTransducer.prunedCommands ((Text.words sentence).map Text.lower) = [] :=
      irrelevantCommands_speed hspeed
    rw [Task.unpruned, ← hnone]
    rfl
  rw [hpruned] at hledger
  have hheard : (speedTransducer.task .strict {}
      ((Text.words sentence).map Text.lower)).sentence.isEmpty = false := by
    simpa [Transducer.task, Transducer.clearSentence] using hsearched
  have hgrammar : speedTransducer.grammar.isEmpty = false := by decide
  have hbest : (speedTransducer.bestParse (Text.words sentence) {} {}).result =
      .ok (some { tokens := Tag.sentenceOpen :: inside, cost := { skips := 0, tags := 0 },
                  skipped := [] }) := by
    simp only [Transducer.bestParse,
      Transducer.result_transduce_of_ledgerWithin (by rw [hsearched, hgrammar]; rfl) hheard hledger]
  have hblank : Text.isBlankText (Text.unwords (Tag.sentenceOpen :: inside)) = false :=
    Text.isBlankText_unwords Tag.plain_sentenceOpen.isWord
  have hconvert := Transducer.convert_eq_of_bestParse hbest (List.cons_ne_nil _ _)
    (by rwa [hmerged])
  rw [hmerged] at hconvert
  exact hconvert

theorem convert_fullCall : (speedAnnotator.convert "swiss two speed" {} {}).result =
    .ok (some (Text.unwords fullCall)) :=
  convert_speed rfl (by decide) (by decide +kernel) (by decide)

theorem convert_shortCall : (speedAnnotator.convert "swiss speed" {} {}).result =
    .ok (some (Text.unwords shortCall)) :=
  convert_speed rfl (by decide) (by decide +kernel) (by decide)

theorem legible_fullCall : ∀ token ∈ fullCall, Frame.Legible token := by
  have hcallsign : Tag.IsName "callsign" := by decide
  have hairline : Tag.IsName "airline" := by decide
  have hnumber : Tag.IsName "flightnumber" := by decide
  have hspeed : Tag.IsName "speed_own" := by decide
  have hcommand : Tag.IsName "command" := by decide
  have hwords : ∀ word ∈ ["swiss", "two", "speed"], Frame.Legible word := by
    have hall : ∀ word ∈ ["swiss", "two", "speed"], word.toList ≠ [] ∧
        word.toList.all (fun c => !Text.isBlank c && !Frame.isMark c) = true := by decide
    exact fun word hword => Frame.legible_of_all (hall word hword).1 (hall word hword).2
  simp only [List.forall_mem_cons] at hwords
  obtain ⟨hswiss, htwo, hspoken, -⟩ := hwords
  simp only [fullCall, List.forall_mem_cons]
  exact ⟨.tag Tag.plain_sentenceOpen, .tag (.opening hcallsign), .tag (.opening hairline), hswiss,
    .tag (.closing hairline), .tag (.opening hnumber), htwo, .tag (.closing hnumber),
    .tag (.closing hcallsign), .tag (.command hspeed), hspoken, .tag (.closing hcommand),
    .tag Tag.plain_sentenceClose, List.forall_mem_nil _⟩

/-- The frame of some tokens that were read as they are. -/
def plainFrame (tokens : List String) : Frame where
  tokens := tokens.map Token.plain
  strict := false
  unmatchedClosings := []

theorem read_fullCall :
    Frame.read (Text.unwords fullCall) false = .ok (some (plainFrame fullCall)) := by
  have hlower : fullCall.map Text.lower = fullCall := by decide
  exact Frame.read_unwords_of_lower legible_fullCall hlower (List.cons_ne_nil _ _) rfl rfl

theorem read_shortCall :
    Frame.read (Text.unwords shortCall) false = .ok (some (plainFrame shortCall)) := by
  have hpart : ∀ token ∈ shortCall, token ∈ fullCall := by decide
  have hlower : shortCall.map Text.lower = shortCall := by decide
  have hlegible : ∀ token ∈ shortCall, Frame.Legible token :=
    fun token htoken => legible_fullCall token (hpart token htoken)
  exact Frame.read_unwords_of_lower hlegible hlower (List.cons_ne_nil _ _) rfl rfl

/-- The callsign of the call, as a session knows it. -/
def heardCallsign : KnownCallsign where
  airline := "SWR"
  flightNumber := "2"

theorem eq_ok_of_toOption {α : Type} {result : Except Failure α} {a : α}
    (hresult : result.toOption = some a) : result = .ok a := by
  cases result with
  | error failure => cases hresult
  | ok b => exact congrArg Except.ok (Option.some.inj hresult)

/-- The call with a flight number is heard. -/
theorem extract_fullCall : ∃ utterance,
    speedAnnotator.extract (Text.unwords fullCall) {} = .ok utterance ∧
      utterance.callsign.known? = some heardCallsign ∧
      (utterance.records {}).map (·.text) = ["SWR2 SPEED_OWN"] := by
  have htold : (Utterance.ofFrame? (some (plainFrame fullCall)) speedAnnotator.airlines
      speedAnnotator.context).toOption.map
        (fun utterance => (utterance.callsign.known?, (utterance.records {}).map (·.text))) =
      some (some heardCallsign, ["SWR2 SPEED_OWN"]) := by
    decide +kernel
  obtain ⟨utterance, hread, htold⟩ := Option.map_eq_some_iff.mp htold
  have hextract := speedAnnotator.extract_of_read {} read_fullCall
  exact ⟨utterance, hextract.trans (eq_ok_of_toOption hread), Prod.mk.inj htold⟩

/-- In a session that has heard the callsign, the call without the number has the same callsign. -/
theorem extract_shortCall : ∃ utterance,
    (speedAnnotator.knowing [heardCallsign]).extract (Text.unwords shortCall) {} = .ok utterance ∧
      (utterance.records {}).map (·.text) = ["SWR2 SPEED_OWN"] := by
  have htold : (Utterance.ofFrame? (some (plainFrame shortCall))
      (speedAnnotator.knowing [heardCallsign]).airlines
      (speedAnnotator.knowing [heardCallsign]).context).toOption.map
        (fun utterance => (utterance.records {}).map (·.text)) = some ["SWR2 SPEED_OWN"] := by
    decide +kernel
  obtain ⟨utterance, hread, htold⟩ := Option.map_eq_some_iff.mp htold
  have hextract := (speedAnnotator.knowing [heardCallsign]).extract_of_read {} read_shortCall
  exact ⟨utterance, hextract.trans (eq_ok_of_toOption hread), htold⟩

/-- The second call has a flight number only because the first was heard. -/
theorem exists_answers_speed :
    ∃ answers, speedAnnotator.Answers true {} {} ["swiss two speed", "swiss speed"] answers ∧
      answers.flatten.map (·.text) = ["SWR2 SPEED_OWN", "SWR2 SPEED_OWN"] := by
  obtain ⟨first, hfirst, hknown, hfirstTexts⟩ := extract_fullCall
  obtain ⟨second, hsecond, hsecondTexts⟩ := extract_shortCall
  have hheard : speedAnnotator.behind true {} {} ["swiss two speed"] =
      speedAnnotator.knowing [heardCallsign] := by
    rw [Annotator.behind_of_parsed convert_fullCall hfirst, hknown, Option.toList_some]
  have hagain : ((speedAnnotator.knowing [heardCallsign]).convert "swiss speed" {} {}).result =
      .ok (some (Text.unwords shortCall)) := convert_shortCall
  have hlater : (speedAnnotator.behind true {} {} ["swiss two speed"]).Answers true {} {}
      ["swiss speed"] [second.records {}] := by
    rw [hheard]
    exact Annotator.answers_cons_iff.mpr ⟨_, _, rfl,
      Annotator.result_annotate_of_parsed hagain hsecond, Annotator.answers_nil_iff.mpr rfl⟩
  refine ⟨[first.records {}, second.records {}], Annotator.answers_cons_iff.mpr ⟨_, _, rfl,
    Annotator.result_annotate_of_parsed convert_fullCall hfirst, hlater⟩, ?_⟩
  simp [hfirstTexts, hsecondTexts]

end CommandLine

end Phraseology
