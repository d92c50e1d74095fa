import Phraseology.Frame.Reader
import Phraseology.Grammar.Reader
import Phraseology.Settings.Reader
import Phraseology.Transducer.Basic
import Phraseology.Utterance.Record

/-!
# Sessions

An annotator holds what a session needs: the airline table, the callsigns known so
far, the settings and, once a grammar is there, the transducer.  Without a
grammar no sentence has a parse, but tagged text can still be interpreted.

Files are given by their path and their bytes; a path without bytes is a file
that is not there.
-/

namespace Phraseology

/-- A file as a session sees it. -/
structure SourceFile where
  path : String
  bytes : Option ByteArray

/-- The last part of a path. -/
def SourceFile.name (file : SourceFile) : String :=
  String.ofList (((Text.pieces (· == '/') file.path.toList).filter (!·.isEmpty)).getLastD [])

/-- The state of an annotation session. -/
structure Annotator where
  transducer : Option Transducer
  airlines : AirlineTable
  context : CallsignContext
  settings : Settings

namespace Annotator

/-- A session at its start. -/
def ofSettings (settings : Settings) : Annotator where
  transducer := none
  airlines := .empty
  context := .empty
  settings := settings

/-- Takes a grammar into use. -/
def setGrammar (annotator : Annotator) (grammar : Grammar) : Annotator :=
  { annotator with
    transducer := some (.ofGrammar grammar annotator.airlines annotator.settings) }

/-- Takes an airline table into use.  The grammar stays. -/
def setAirlines (annotator : Annotator) (airlines : AirlineTable) : Annotator :=
  { annotator with
    airlines
    transducer := annotator.transducer.map (·.withAirlines airlines) }

/-- Adds a callsign to those that are known. -/
def pushCallsign (annotator : Annotator) (callsign : KnownCallsign) : Annotator :=
  { annotator with context := annotator.context.push callsign }

/-- Loads a grammar.  If the file is not there, the session has no grammar any
more; if it is malformed, the session stays as it is. -/
def loadGrammar (annotator : Annotator) (file : SourceFile) : Except Failure Unit × Annotator :=
  match file.bytes with
  | none => (.error (.grammarUnavailable file.path), { annotator with transducer := none })
  | some bytes =>
    match Grammar.ofBytes file.name bytes with
    | .error failure => (.error failure, annotator)
    | .ok grammar => (.ok (), annotator.setGrammar grammar)

/-- Loads an airline table.  If that fails, the session stays as it is. -/
def loadAirlines (annotator : Annotator) (file : SourceFile) : Except Failure Unit × Annotator :=
  match file.bytes with
  | none => (.error (.airlineTable .unreadable), annotator)
  | some bytes =>
    match AirlineTable.ofBytes bytes with
    | .error cause => (.error (.airlineTable cause), annotator)
    | .ok airlines => (.ok (), annotator.setAirlines airlines)

/-- Loads the known callsigns.  If that fails, the session stays as it is. -/
def loadContext (annotator : Annotator) (file : SourceFile) : Except Failure Unit × Annotator :=
  match file.bytes.bind CallsignContext.ofBytes? with
  | none => (.error (.airlineTable .unreadable), annotator)
  | some context => (.ok (), { annotator with context })

/-- Annotates a sentence, if there is a grammar and the sentence has a parse. -/
def convert (annotator : Annotator) (sentence : String) (options : ConvertOptions)
    (watch : Watch) : Outcome (Option String) :=
  match annotator.transducer with
  | some transducer => transducer.convert sentence options watch
  | none => ⟨.ok none, []⟩

/-- Annotates some lines. -/
def convertLines (annotator : Annotator) (lines : List String) (options : ConvertOptions) :
    Except Failure (Option String) :=
  match annotator.transducer with
  | some transducer => transducer.convertLines lines options
  | none => .ok none

/-- Interprets tagged text. -/
def extract (annotator : Annotator) (tagged : String) (options : ExtractOptions) :
    Except Failure Utterance :=
  match Frame.read tagged options.strict with
  | .error failure => .error failure
  | .ok frame => Utterance.ofFrame? frame annotator.airlines annotator.context

/-- The records of a sentence.  A sentence without a parse has none. -/
def annotate (annotator : Annotator) (sentence : String) (convertOptions : ConvertOptions)
    (extractOptions : ExtractOptions) (watch : Watch) : Outcome (List Record) :=
  let converted := annotator.convert sentence convertOptions watch
  let result :=
    match converted.result with
    | .error failure => .error failure
    | .ok none => .ok []
    | .ok (some tagged) =>
      (annotator.extract tagged extractOptions).map (·.records extractOptions)
  ⟨result, converted.reports⟩

end Annotator

end Phraseology
