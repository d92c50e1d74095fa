import Phraseology.CommandLine.Run

/-!
# The program

Reads the files that a call names and the standard input, carries out the call and
writes what it leaves behind.
-/

open Phraseology

/-- The bytes of a file, if it can be read. -/
def readFile? (path : String) : IO (Option ByteArray) :=
  try
    return some (← IO.FS.readBinFile path)
  catch _ =>
    return none

/-- The bytes of a stream up to its end. -/
partial def readAll (stream : IO.FS.Stream) (sofar : ByteArray) : IO ByteArray := do
  let chunk ← stream.read 65536
  if chunk.isEmpty then return sofar else readAll stream (sofar ++ chunk)

/-- The environment variables that name files of a session. -/
def readEnvironment : IO (List (String × String)) := do
  let mut found := []
  for name in CommandLine.fileFlags.filterMap (·.variableName) do
    if let some value ← IO.getEnv name then
      found := (name, value) :: found
  return found

/-- Stays for ever. -/
partial def stay : IO UInt32 := do
  IO.sleep 1000
  stay

def main (arguments : List String) : IO UInt32 := do
  let found ← readEnvironment
  let environment := fun name => found.lookup name
  let paths :=
    match CommandLine.readCall environment arguments with
    | .ok call =>
      [call.paths.grammar, call.paths.airlines, call.paths.callsignContext,
        call.paths.settings].filterMap id
    | .error _ => []
  let mut files : List (String × ByteArray) := []
  for path in paths do
    if let some bytes ← readFile? path then
      files := (path, bytes) :: files
  let contents := files
  let input ← readAll (← IO.getStdin) .empty
  let completion :=
    CommandLine.run environment (fun path => contents.lookup path) arguments input
  let stdout ← IO.getStdout
  stdout.putStr completion.output
  stdout.flush
  match completion.exitCode with
  | some exitCode => return UInt32.ofNat exitCode
  | none => stay
