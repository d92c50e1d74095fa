import Phraseology.Confidence
import Phraseology.Decimal.Reader

/-!
# Options and manuals

An option of the command line has a name, sometimes also a letter, and a description.  A
manual holds all that can be given at one place of a call: options, and names of
subcommands.  Arguments are read and help is written after the same manuals.
-/

namespace Phraseology.CommandLine

/-- How records are written. -/
inductive OutputFormat where
  | text
  | json
deriving DecidableEq, Repr

/-- The format with a name. -/
def OutputFormat.ofName? : String → Option OutputFormat
  | "text" => some text
  | "json" => some json
  | _ => none

/-- What the value of an option can be. -/
inductive ValueKind where
  /-- The path of a file: any text but the empty one. -/
  | path
  | milliseconds
  | mode
  | format
deriving DecidableEq, Repr

/-- Whether a text can be the value of an option. -/
def ValueKind.accepts : ValueKind → String → Bool
  | .path, text => text != ""
  | .milliseconds, text => (Decimal.natOfBits? 64 text).isSome
  | .mode, text => (ConfidenceMode.ofName? text).isSome
  | .format, text => (OutputFormat.ofName? text).isSome

/-- What an option does. -/
inductive FlagKind where
  | value (kind : ValueKind)
  /-- It is on or off. -/
  | switch
  /-- It asks for help, and nothing behind it counts. -/
  | help
  /-- It asks for the version, and nothing behind it counts. -/
  | version
deriving DecidableEq, Repr

/-- An option. -/
structure Flag where
  name : String
  kind : FlagKind
  letter : Option Char := none
  about : String := ""
  /-- The environment variable that can take the place of the option. -/
  variableName : Option String := none
  /-- The value that holds without the option. -/
  preset : Option String := none
  /-- All values there are, if these are few, each with a description. -/
  choices : List (String × Option String) := []
deriving DecidableEq, Repr

/-- What can be given at one place of a call. -/
structure Manual where
  /-- The words that lead to this place. -/
  call : String
  about : String
  /-- The names that can follow, each with a description. -/
  subcommands : List (String × String) := []
  /-- What can follow without a dash, with a description. -/
  operands : List (String × String) := []
  flags : List Flag := []
deriving DecidableEq, Repr

/-- The name and the version of the program. -/
def versionText : String := "atc-annotator 0.1.0\n"

/-- The option that asks for help. -/
def helpFlag : Flag :=
  { name := "help", kind := .help, letter := some 'h', about := "Print help" }

/-- The options in front of a subcommand that name files. -/
def fileFlags : List Flag :=
  [{ name := "grammar", kind := .value .path, variableName := some "ATC_GRAMMAR"
     about := "Grammar exported as tab separated arcs" },
   { name := "airlines", kind := .value .path, variableName := some "ATC_AIRLINES"
     about := "`CODE name` airline table" },
   { name := "callsign-context", kind := .value .path
     variableName := some "ATC_CALLSIGN_CONTEXT"
     about := "Callsigns known to be on frequency" },
   { name := "transducer-config", kind := .value .path
     variableName := some "ATC_TRANSDUCER_CONFIG"
     about := "Transducer settings in RON" }]

/-- The options of conversion. -/
def convertFlags : List Flag :=
  [{ name := "timeout-ms", kind := .value .milliseconds
     about := "Search budget per phase; the best parse so far wins on expiry" },
   { name := "hard-deadline-ms", kind := .value .milliseconds
     about := "Fail searches that run longer than this" },
   { name := "no-skip", kind := .switch
     about := "Only accept parses that explain every word" },
   { name := "ignore-fluff-words", kind := .switch
     about := "Drop out-of-vocabulary words before the skipping phase" },
   { name := "mbr", kind := .switch
     about := "Read stdin as one recognizer output, `... word confidence` per line" }]

/-- The options of interpretation. -/
def extractFlags : List Flag :=
  [{ name := "confidence", kind := .value .mode, preset := some "off" },
   { name := "strict", kind := .switch
     about := "Reject tagged text without proper boundary tags" },
   { name := "no-sub-confidences", kind := .switch },
   { name := "no-total-confidence", kind := .switch },
   { name := "format", kind := .value .format, preset := some "text"
     choices := [("text", none), ("json", some "One JSON array of records per input line")] }]

/-- The option to add what is heard to the known callsigns. -/
def learnFlag : Flag :=
  { name := "learn-callsigns", kind := .switch
    about := "Add every complete callsign heard to the callsign context" }

/-- The manual of the subcommand that tags. -/
def convertManual : Manual :=
  { call := "atc-annotator convert", about := "Tag each line of stdin"
    flags := convertFlags ++ [helpFlag] }

/-- The manual of the subcommand that interprets. -/
def extractManual : Manual :=
  { call := "atc-annotator extract", about := "Interpret each tagged line of stdin"
    flags := extractFlags ++ [helpFlag] }

/-- The manual of the subcommand that does both. -/
def annotateManual : Manual :=
  { call := "atc-annotator annotate", about := "Tag and interpret each line of stdin"
    flags := convertFlags ++ extractFlags ++ [learnFlag, helpFlag] }

/-- The manual of the subcommand that shows manuals. -/
def helpManual : Manual :=
  { call := "atc-annotator help"
    about := "Print this message or the help of the given subcommand(s)"
    operands := [("[COMMAND]...", "Print help for the subcommand(s)")] }

/-- The manuals of the subcommands, by name. -/
def subcommandManuals : List (String × Manual) :=
  [("convert", convertManual), ("extract", extractManual), ("annotate", annotateManual),
    ("help", helpManual)]

/-- The manual of the program. -/
def programManual : Manual :=
  { call := "atc-annotator", about := "Annotates recognized ATC utterances"
    subcommands := subcommandManuals.map fun (name, manual) => (name, manual.about)
    flags := fileFlags ++ [helpFlag,
      { name := "version", kind := .version, letter := some 'V', about := "Print version" }] }

end Phraseology.CommandLine
