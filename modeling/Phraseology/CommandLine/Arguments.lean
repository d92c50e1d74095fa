import Phraseology.CommandLine.Help
import Phraseology.Settings.Basic
import Phraseology.Utterance.Record

/-!
# Arguments of the command line

A call names a subcommand.  The files of a session are given in front of it, or by
environment variables; the options of the subcommand follow.  An option is given
as `--name value` or `--name=value`, a switch as `--name`, and none of them twice.

Arguments are read from left to right up to the first one that makes no sense or asks
for help or the version.  A value that is an argument of its own counts only when the
next option is read, or at the end; so a subcommand is read before the last value in
front of it counts.
-/

namespace Phraseology.CommandLine

/-- The paths of the files of a session. -/
structure FilePaths where
  grammar : Option String
  airlines : Option String
  callsignContext : Option String
  settings : Option String
deriving DecidableEq, Repr

/-- How sentences are read and converted. -/
structure ConvertArguments where
  timeout : Option Nat
  hardDeadline : Option Nat
  noSkip : Bool
  ignoreFluffWords : Bool
  /-- Whether the input is the output of a recognizer. -/
  mbr : Bool
deriving DecidableEq, Repr

/-- How tagged text is interpreted and written. -/
structure ExtractArguments where
  options : ExtractOptions
  format : OutputFormat
deriving DecidableEq, Repr

/-- What is to be done with the input. -/
inductive Action where
  | convert (arguments : ConvertArguments)
  | extract (arguments : ExtractArguments)
  | annotate (convert : ConvertArguments) (extract : ExtractArguments) (learnCallsigns : Bool)
deriving DecidableEq, Repr

/-- A call that can be carried out. -/
structure Call where
  paths : FilePaths
  action : Action
deriving DecidableEq, Repr

/-- Why nothing is carried out. -/
inductive Refusal where
  /-- The arguments make no sense. -/
  | misuse
  /-- Only a text about the program was asked for. -/
  | answered (text : String)
deriving DecidableEq, Repr

/-- Options that were given, each with its value. -/
abbrev Given := List (String × Option String)

/-- What has been read: the options that count, and the option that was read last if it
takes its value from an argument of its own, with the value once it is there. -/
structure Progress where
  given : Given := []
  pending : Option (Flag × Option String) := none

/-- Whether an option still waits for its value. -/
def Progress.isWaiting (progress : Progress) : Bool :=
  progress.pending.any fun (_, value) => value.isNone

/-- Options with one more.  No option counts twice, and a value must be one that the
option accepts. -/
def take (given : Given) (flag : Flag) (value : Option String) : Except Refusal Given :=
  let fits :=
    match flag.kind, value with
    | .value kind, some text => kind.accepts text
    | .value _, none => false
    | _, _ => true
  if fits && (given.lookup flag.name).isNone then .ok ((flag.name, value) :: given)
  else .error .misuse

/-- The options that count once the last one does. -/
def Progress.settle (progress : Progress) : Except Refusal Given :=
  match progress.pending with
  | none => .ok progress.given
  | some (flag, value) => take progress.given flag value

/-- The forms of an argument. -/
inductive ArgumentForm where
  /-- Two dashes alone: nothing but operands may follow. -/
  | separator
  /-- Two dashes and a name, perhaps with a value behind `=`. -/
  | long (name : String) (value : Option String)
  /-- One dash and letters, of which the first counts. -/
  | short (letter : Char)
  /-- Anything else, a dash alone included. -/
  | plain
deriving DecidableEq, Repr

/-- The form of an argument. -/
def ArgumentForm.of (argument : String) : ArgumentForm :=
  match argument.toList with
  | ['-', '-'] => .separator
  | '-' :: '-' :: cs =>
    let name := String.ofList (cs.takeWhile (· != '='))
    match cs.dropWhile (· != '=') with
    | [] => .long name none
    | _ :: value => .long name (some (String.ofList value))
  | '-' :: letter :: _ => .short letter
  | _ => .plain

/-- What an option leads to that has no value behind `=`. -/
def meet (environment : String → Option String) (manual : Manual) (long : Bool) (flag : Flag)
    (progress : Progress) : Except Refusal Progress := do
  let given ← progress.settle
  match flag.kind with
  | .value _ => return { given, pending := some (flag, none) }
  | .switch => return { given := ← take given flag none }
  | .help => throw (.answered (manual.page environment long))
  | .version => throw (.answered versionText)

/-- Reads options after a manual, up to the name of a subcommand. -/
def readOptions (environment : String → Option String) (manual : Manual) :
    Progress → List String → Except Refusal (Progress × List String)
  | progress, [] => .ok (progress, [])
  | progress, argument :: rest =>
    if !progress.isWaiting && (manual.subcommands.lookup argument).isSome then
      .ok (progress, argument :: rest)
    else
      match ArgumentForm.of argument with
      | .separator => if rest.isEmpty then .ok (progress, []) else .error .misuse
      | .long name value => do
        match manual.flags.find? (·.name == name), value with
        | none, _ => throw .misuse
        | some flag, none =>
          readOptions environment manual (← meet environment manual true flag progress) rest
        | some flag, some _ =>
          match flag.kind with
          | .value _ =>
            let given ← take (← progress.settle) flag value
            readOptions environment manual { given } rest
          | _ => throw .misuse
      | .short letter => do
        match manual.flags.find? (·.letter == some letter) with
        | none => throw .misuse
        | some flag =>
          readOptions environment manual (← meet environment manual false flag progress) rest
      | .plain =>
        match progress.pending with
        | some (flag, none) =>
          readOptions environment manual
            { progress with pending := some (flag, some argument) } rest
        | _ => .error .misuse

/-- Whether a switch was given. -/
def isGiven (given : Given) (name : String) : Bool :=
  (given.lookup name).isSome

/-- The value of an option that was given. -/
def valueOf (given : Given) (name : String) : Option String :=
  (given.lookup name).join

/-- What the options of conversion mean. -/
def convertArguments (given : Given) : ConvertArguments where
  timeout := (valueOf given "timeout-ms").bind (Decimal.natOfBits? 64)
  hardDeadline := (valueOf given "hard-deadline-ms").bind (Decimal.natOfBits? 64)
  noSkip := isGiven given "no-skip"
  ignoreFluffWords := isGiven given "ignore-fluff-words"
  mbr := isGiven given "mbr"

/-- What the options of interpretation mean. -/
def extractArguments (given : Given) : ExtractArguments where
  options := {
    mode := ((valueOf given "confidence").bind ConfidenceMode.ofName?).getD .off
    strict := isGiven given "strict"
    subConfidences := !isGiven given "no-sub-confidences"
    totalConfidence := !isGiven given "no-total-confidence" }
  format := ((valueOf given "format").bind OutputFormat.ofName?).getD .text

/-- All options of a subcommand, with nothing left behind them. -/
def onlyOptions (environment : String → Option String) (manual : Manual)
    (arguments : List String) : Except Refusal Given := do
  match ← readOptions environment manual {} arguments with
  | (progress, []) => progress.settle
  | _ => throw .misuse

/-- The page that some names lead to. -/
def helpPage (environment : String → Option String) : List String → Except Refusal String
  | [] => .ok (programManual.page environment true)
  | [name] =>
    match subcommandManuals.lookup name with
    | some manual => .ok (manual.page environment true)
    | none => .error .misuse
  | _ => .error .misuse

/-- What a subcommand with its arguments asks for. -/
def readAction (environment : String → Option String) (name : String)
    (arguments : List String) : Except Refusal Action := do
  match name with
  | "convert" =>
    return .convert (convertArguments (← onlyOptions environment convertManual arguments))
  | "extract" =>
    return .extract (extractArguments (← onlyOptions environment extractManual arguments))
  | "annotate" =>
    let given ← onlyOptions environment annotateManual arguments
    return .annotate (convertArguments given) (extractArguments given)
      (isGiven given "learn-callsigns")
  | "help" => throw (.answered (← helpPage environment arguments))
  | _ => throw .misuse

/-- The path of a file of the session: from its option, or else from its environment
variable. -/
def filePath (environment : String → Option String) (given : Given) (name : String) :
    Except Refusal (Option String) :=
  let fallback :=
    ((fileFlags.find? (·.name == name)).bind (·.variableName)).bind environment
  match (valueOf given name).or fallback with
  | some "" => .error .misuse
  | path => .ok path

/-- The call that some arguments make in an environment. -/
def readCall (environment : String → Option String) (arguments : List String) :
    Except Refusal Call := do
  match ← readOptions environment programManual {} arguments with
  | (_, []) => throw .misuse
  | (progress, name :: more) =>
    let action ← readAction environment name more
    let given ← progress.settle
    let paths : FilePaths := {
      grammar := ← filePath environment given "grammar"
      airlines := ← filePath environment given "airlines"
      callsignContext := ← filePath environment given "callsign-context"
      settings := ← filePath environment given "transducer-config" }
    return { paths, action }

end Phraseology.CommandLine
