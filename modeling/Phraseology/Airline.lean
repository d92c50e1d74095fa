import Std.Data.TreeMap
import Phraseology.Text.Blank
import Phraseology.Text.Lines

/-!
# The airline table

Airlines are known by a designator such as `DLH` and by the names they are
spoken with.  Several names may share a designator, but a name stands in the
table only once.  An index leads from each name to its entry; `insert` keeps
the two in step, and a name that is already listed changes neither.
-/

namespace Phraseology

/-- A designator and a name it is spoken with. -/
structure Airline where
  code : String
  name : String
deriving DecidableEq, Repr

/-- Why a table cannot be read or extended. -/
inductive AirlineError where
  | unreadable
  | malformedLine (line : Nat) (content : String)
  | duplicateName (name : String) (first second : String)
deriving DecidableEq, Repr

/-- The airlines in the order of their arrival, with an index by name. -/
structure AirlineTable where
  entries : Array Airline
  index : Std.TreeMap String Nat

namespace AirlineTable

/-- The table without airlines. -/
def empty : AirlineTable where
  entries := #[]
  index := ∅

/-- The entry of a name. -/
def find? (table : AirlineTable) (name : String) : Option Airline :=
  table.index[name]?.bind fun i => table.entries[i]?

/-- The designator of a name. -/
def codeFor? (table : AirlineTable) (name : String) : Option String :=
  (table.find? name).map (·.code)

/-- Whether a name is listed. -/
def contains (table : AirlineTable) (name : String) : Bool :=
  table.index.contains name

/-- The names in the order of their arrival. -/
def names (table : AirlineTable) : List String :=
  table.entries.toList.map (·.name)

/-- Adds an airline whose name is not yet listed. -/
def insert (table : AirlineTable) (airline : Airline) : Except AirlineError AirlineTable :=
  match table.find? airline.name with
  | some known => .error (.duplicateName airline.name known.code airline.code)
  | none =>
    .ok { entries := table.entries.push airline
          index := table.index.insert airline.name table.entries.size }

/-- Spoken names that recognition produces in place of a listed one. -/
def alternateNames : List (String × String) :=
  [("air_frans", "air_france"), ("hansa", "lufthansa")]

/-- The designator of a spoken airline.  The words of a longer name are joined by
underscores first. -/
def resolve? (table : AirlineTable) (spoken : String) : Option String :=
  let joined := "_".intercalate (Text.words spoken)
  table.codeFor? ((alternateNames.lookup joined).getD joined)

/-- The airline on a line of a table file; a blank line has none. -/
def readLine (number : Nat) (line : String) : Except AirlineError (Option Airline) :=
  match Text.words line with
  | [] => .ok none
  | [code, name] => .ok (some { code, name })
  | _ => .error (.malformedLine number (Text.trim line))

/-- Adds the airlines of numbered lines, up to the first line at fault. -/
def readLines (table : AirlineTable) :
    Nat → List (Option String) → Except AirlineError AirlineTable
  | _, [] => .ok table
  | _, none :: _ => .error .unreadable
  | number, some line :: rest =>
    match readLine number line with
    | .error fault => .error fault
    | .ok none => readLines table (number + 1) rest
    | .ok (some airline) =>
      match table.insert airline with
      | .error fault => .error fault
      | .ok grown => readLines grown (number + 1) rest

/-- The table that a file holds, one airline on a line. -/
def ofBytes (bytes : ByteArray) : Except AirlineError AirlineTable :=
  readLines empty 1 (Text.lines bytes)

end AirlineTable

end Phraseology
