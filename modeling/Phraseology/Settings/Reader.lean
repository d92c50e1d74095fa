import Phraseology.Error
import Phraseology.Settings.Basic
import Phraseology.Settings.Notation
import Phraseology.Text.Lines

/-!
# Reading settings

A settings file is a record whose fields are settings.  Fields that are left out
keep their defaults, fields that are not settings are passed over, and no
setting may be given twice.
-/

namespace Phraseology.Settings

/-- The name that a settings record may carry. -/
def recordName : String := "TransducerConfig"

/-- A truth value. -/
def bool? : Value → Option Bool
  | .truth b => some b
  | _ => none

/-- A list of texts. -/
def texts? : Value → Option (List String)
  | .sequence items => items.mapM fun item =>
    match item with
    | .text s => some s
    | _ => none
  | _ => none

/-- A number. -/
def nat? : Value → Option Nat
  | .number n => some n
  | _ => none

/-- A number that may be missing.  If it is `implicit`, a bare number will do. -/
def optionalNumber? (implicit : Bool) : Value → Option (Option Nat)
  | .absent => some none
  | .present value => (nat? value).map some
  | value => if implicit then (nat? value).map some else none

/-- The settings with one field changed. -/
def setField? (implicit : Bool) (settings : Settings) (name : String) (value : Value) :
    Option Settings :=
  match name with
  | "callsign_whitelist" => (texts? value).map fun v => { settings with callsignWhitelist := v }
  | "noise_markers" => (texts? value).map fun v => { settings with noiseMarkers := v }
  | "airline_correction_cutoff" =>
    (optionalNumber? implicit value).map fun v => { settings with airlineCorrectionCutoff := v }
  | "ignore_fluff_words" => (bool? value).map fun v => { settings with ignoreFluffWords := v }
  | "prune_commands" => (bool? value).map fun v => { settings with pruneCommands := v }
  | _ => some settings

/-- The names of the fields that are settings. -/
def fieldNames : List String :=
  ["callsign_whitelist", "noise_markers", "airline_correction_cutoff", "ignore_fluff_words",
    "prune_commands"]

/-- Whether some name of a setting stands in a list twice. -/
def repeatsField (names : List String) : Bool :=
  fieldNames.any fun name => 1 < names.count name

/-- The name and the fields of a record; empty brackets are a record without
fields. -/
def recordOf? : Value → Option (Option String × List (String × Value))
  | .record name fields => some (name, fields)
  | .tuple name [] => some (name, [])
  | _ => none

/-- The settings that a document describes. -/
def ofDocument? (document : Document) : Option Settings :=
  (recordOf? document.value).bind fun (name, fields) =>
    let nameFits :=
      match name with
      | some given => given == recordName
      | none => !document.extensions.contains .explicitStructNames
    if nameFits && !repeatsField (fields.map (·.1)) then
      fields.foldlM (fun settings field =>
        setField? (document.extensions.contains .implicitSome) settings field.1 field.2) {}
    else none

/-- The settings that a file holds. -/
def ofBytes (bytes : ByteArray) : Except Failure Settings :=
  match Text.decode? bytes.toList with
  | none => .error .unreadable
  | some text =>
    match (Document.read? text).bind ofDocument? with
    | some settings => .ok settings
    | none => .error .malformedSettings

end Phraseology.Settings
