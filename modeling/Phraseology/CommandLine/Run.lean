import Phraseology.Annotator
import Phraseology.CommandLine.Arguments

/-!
# Carrying out a call

A call sets up a session from its files and then works off the input line by line,
writing as it goes.  A failure ends the call; what was written before it stays.  A call
that comes to a line whose reading has no end stays there.
-/

namespace Phraseology.CommandLine

/-- What a call leaves behind. -/
structure Completion where
  /-- None if the call never ends. -/
  exitCode : Option Nat
  output : String
deriving DecidableEq, Repr

/-- A file with its bytes, if it is there. -/
def sourceFile (files : String → Option ByteArray) (path : String) : SourceFile where
  path := path
  bytes := files path

/-- The settings of a session. -/
def loadSettings (files : String → Option ByteArray) (path : Option String) :
    Except Failure Settings :=
  match path with
  | none => .ok {}
  | some path =>
    match files path with
    | none => .error .unreadable
    | some bytes => Settings.ofBytes bytes

/-- A session that has loaded a file, if one is given. -/
def loadWith (files : String → Option ByteArray)
    (load : Annotator → SourceFile → Except Failure Unit × Annotator) (annotator : Annotator)
    (path : Option String) : Except Failure Annotator :=
  match path with
  | none => .ok annotator
  | some path =>
    match load annotator (sourceFile files path) with
    | (.ok _, loaded) => .ok loaded
    | (.error failure, _) => .error failure

/-- Loads a grammar.  A grammar file that is not there is no failure, for tagged text
can be interpreted without one. -/
def loadGrammar (annotator : Annotator) (file : SourceFile) : Except Failure Unit × Annotator :=
  match annotator.loadGrammar file with
  | (.error (.grammarUnavailable _), left) => (.ok (), left)
  | loaded => loaded

/-- The session of a call. -/
def session (files : String → Option ByteArray) (paths : FilePaths) :
    Except Failure Annotator := do
  let settings ← loadSettings files paths.settings
  let annotator ← loadWith files Annotator.loadAirlines (.ofSettings settings) paths.airlines
  let annotator ← loadWith files Annotator.loadContext annotator paths.callsignContext
  loadWith files loadGrammar annotator paths.grammar

/-- The choices for each sentence. -/
def ConvertArguments.options (arguments : ConvertArguments) (settings : Settings) :
    ConvertOptions where
  timeout := arguments.timeout
  hardDeadline := arguments.hardDeadline
  allowSkip := !arguments.noSkip
  ignoreFluffWords := arguments.ignoreFluffWords || settings.ignoreFluffWords

/-- The text of some records: one on a line, or all in an array on one line. -/
def recordsText (format : OutputFormat) (records : List Record) : String :=
  match format with
  | .text => String.join (records.map fun record => record.text ++ "\n")
  | .json => Record.array records ++ "\n"

/-- Tags a sentence. -/
def convertLine (options : ConvertOptions) (annotator : Annotator) (sentence : String) :
    Except Failure (String × Annotator) :=
  match (annotator.convert sentence options {}).result with
  | .error failure => .error failure
  | .ok none => .ok ("", annotator)
  | .ok (some tagged) => .ok (tagged ++ "\n", annotator)

/-- Interprets a tagged line. -/
def extractLine (arguments : ExtractArguments) (annotator : Annotator) (line : String) :
    Except Failure (String × Annotator) :=
  (annotator.extract line arguments.options).map fun utterance =>
    (recordsText arguments.format (utterance.records arguments.options), annotator)

/-- A session that has heard a callsign, if both of its halves are known. -/
def learn (annotator : Annotator) (callsign : Callsign) : Annotator :=
  match callsign.airline, callsign.flightNumber with
  | .code airline, some flightNumber => annotator.pushCallsign { airline, flightNumber }
  | _, _ => annotator

/-- Tags and interprets a sentence. -/
def annotateLine (options : ConvertOptions) (arguments : ExtractArguments)
    (learnCallsigns : Bool) (annotator : Annotator) (sentence : String) :
    Except Failure (String × Annotator) :=
  match (annotator.convert sentence options {}).result with
  | .error failure => .error failure
  | .ok none => .ok (recordsText arguments.format [], annotator)
  | .ok (some tagged) =>
    (annotator.extract tagged arguments.options).map fun utterance =>
      (recordsText arguments.format (utterance.records arguments.options),
        if learnCallsigns then learn annotator utterance.callsign else annotator)

/-- Works off lines one after the other, passing over blank ones.  What was written is
kept when a line fails. -/
def eachLine (step : Annotator → String → Except Failure (String × Annotator)) :
    Annotator → List (Option String) → String × Except Failure Unit
  | _, [] => ("", .ok ())
  | _, none :: _ => ("", .error .unreadable)
  | annotator, some line :: rest =>
    if Text.isBlankText line then eachLine step annotator rest
    else
      match step annotator line with
      | .error failure => ("", .error failure)
      | .ok (written, next) =>
        let (more, ending) := eachLine step next rest
        (written ++ more, ending)

/-- Works off the input sentence by sentence, or as the one sentence that a recognizer
has put out. -/
def eachSentence (step : Annotator → String → Except Failure (String × Annotator))
    (mbr : Bool) (annotator : Annotator) (input : ByteArray) : String × Except Failure Unit :=
  if mbr then
    match Token.ofRecognizer input with
    | .error failure => ("", .error failure)
    | .ok tokens =>
      match step annotator (Text.unwords tokens) with
      | .error failure => ("", .error failure)
      | .ok (written, _) => (written, .ok ())
  else eachLine step annotator (Text.lines input)

/-- Works off the input in a session. -/
def perform (annotator : Annotator) (input : ByteArray) : Action → String × Except Failure Unit
  | .convert arguments =>
    eachSentence (convertLine (arguments.options annotator.settings)) arguments.mbr annotator
      input
  | .extract arguments => eachLine (extractLine arguments) annotator (Text.lines input)
  | .annotate convert extract learnCallsigns =>
    eachSentence (annotateLine (convert.options annotator.settings) extract learnCallsigns)
      convert.mbr annotator input

/-- Carries out a call: exit code 2 for arguments that make no sense, 1 for a failure. -/
def run (environment : String → Option String) (files : String → Option ByteArray)
    (arguments : List String) (input : ByteArray) : Completion :=
  match readCall environment arguments with
  | .error .misuse => { exitCode := some 2, output := "" }
  | .error (.answered text) => { exitCode := some 0, output := text }
  | .ok call =>
    match session files call.paths with
    | .error _ => { exitCode := some 1, output := "" }
    | .ok annotator =>
      match perform annotator input call.action with
      | (output, .ok _) => { exitCode := some 0, output }
      | (output, .error .endless) => { exitCode := none, output }
      | (output, .error _) => { exitCode := some 1, output }

end Phraseology.CommandLine
