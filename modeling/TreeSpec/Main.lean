import TreeSpec.Builtin.Types
import TreeSpec.CommandLine.Run
import TreeSpec.CommandLine.Tables

/-!
# Running the program on a machine

Reads the files that the arguments may name and the tables of the machine, runs the command, and
writes what it says.
-/

namespace TreeSpec.CommandLine

set_option autoImplicit false

def fileStatus (path : Text) : IO FileStatus := do
  try
    return .file (← IO.FS.readFile path.string)
  catch e =>
    match e with
    | .inappropriateType .. => return .directory
    | _ => return .absent

/-- The text of a table, empty if there is no such table. -/
def tableText (path : Text) : IO Text := do
  match ← fileStatus path with
  | .file content => return content
  | _ => return []

def pathExists (path : Text) : IO Bool := do
  return (← fileStatus path) != .absent

def textsOfFile : FileStatus → List Text
  | .file content => ((Document.read content).toOption.map scalarTexts).getD []
  | _ => []

def Written.print : Written → IO Unit
  | out m => IO.println m.text.string
  | err m => IO.eprintln m.text.string
  | refusal e => IO.eprintln ("Error: " ++ e.message).string
  | log full n =>
    IO.eprintln (if full then n.source ++ ": " ++ n.message else n.message).string

end TreeSpec.CommandLine

open TreeSpec TreeSpec.CommandLine in
def main (args : List String) : IO UInt32 := do
  let args := args.map Text.ofString
  let files ← args.mapM fun arg => do return (arg, ← fileStatus arg)
  let paths ← (files.flatMap fun f => textsOfFile f.2).filterM pathExists
  let world := worldOf (← tableText "/etc/passwd") (← tableText "/etc/group")
    (← tableText "/etc/hosts") paths
  let surroundings : Surroundings :=
    ⟨Builtin.types world.probes, [], fun path => (files.lookup path).getD .absent⟩
  let effect := (Packages.here surroundings).run surroundings.registry args
  effect.trace.forM Written.print
  match effect.result with
  | .ok status => return status.toUInt32
  | .error e =>
    IO.eprintln e.message.string
    return 1
