import TreeSpec.CommandLine.Output
import TreeSpec.CommandLine.Program
import TreeSpec.Document.Reader

/-!
# Runs

The libraries of the program as far as they are here, and runs of the program with them: the exit
status with the text on both outputs.
-/

namespace TreeSpec.CommandLine

set_option autoImplicit false

structure Surroundings where
  builtin : Dictionary Matcher
  shared : Dictionary Matcher
  look : Text → FileStatus

def Surroundings.registry (s : Surroundings) : Registry := .new 0 s.builtin s.shared

/-! ## Reading the command line -/

def refusal (e : UsageError) : Effect Written Nat := ⟨.ok 2, [.refusal e]⟩

def ofUsage {α : Type} (x : Except UsageError α) : Program α :=
  match x with
  | .ok a => return a
  | .error e => do
    let status ← ExceptT.lift (refusal e)
    Program.exit status

/-- A run that only tells how the command line is used. -/
def showUsage {α : Type} (text : Text) : Program α := do
  Program.write (.out (.usage text))
  Program.exit 0

def helpOption : OptionSpec := ⟨"--help", false⟩

def validateOptions : List OptionSpec :=
  [⟨"--type", true⟩, ⟨"--json", false⟩, ⟨"--debug", false⟩, helpOption]

def typesOptions : List OptionSpec := [⟨"--json", false⟩, helpOption]

/-- The path of a file that is there. -/
def readPath (s : Surroundings) (parameter : Text) (path? : Option Text) : Program Text :=
  let bad (reason : Text) : Program Text :=
    ofUsage (.error (.badValue ("'" ++ parameter ++ "'") reason))
  match path? with
  | none => ofUsage (.error (.missingArgument parameter))
  | some path =>
    if path.contains '\x00' then Program.giveUp .embeddedNull
    else
      match s.look path with
      | .file _ => return path
      | .directory => bad ("File " ++ Text.quoted path ++ " is a directory.")
      | .absent => bad ("File " ++ Text.quoted path ++ " does not exist.")

def readValidate (s : Surroundings) (args : List Text) : Program Command := do
  let a ← ofUsage (readArguments validateOptions true .none args)
  if a.has "--help" then showUsage "validate [OPTIONS] SCHEMA_PATH DATA_PATH"
  else
    let schema ← readPath s "SCHEMA_PATH" a.positional[0]?
    let data ← readPath s "DATA_PATH" a.positional[1]?
    match a.positional.drop 2 with
    | [] => return .validate ⟨schema, data, a.values "--type", a.has "--json", a.has "--debug"⟩
    | extra => ofUsage (.error (.extraArguments extra))

def readTypes (args : List Text) : Program Command := do
  let a ← ofUsage (readArguments typesOptions true .none args)
  if a.has "--help" then showUsage "types [OPTIONS]"
  else
    match a.positional with
    | [] => return .types (a.has "--json")
    | extra => ofUsage (.error (.extraArguments extra))

def readCommand (s : Surroundings) (args : List Text) : Program Command := do
  let usage : Text := "[OPTIONS] COMMAND [ARGS]..."
  if args.isEmpty then showUsage usage
  else
    let group ← ofUsage (readArguments [helpOption] false .none args)
    if group.has "--help" then showUsage usage
    else
      match group.positional with
      | [] => ofUsage (.error .missingCommand)
      | command :: rest =>
        if command = "validate" then readValidate s rest
        else if command = "types" then readTypes rest
        else ofUsage (.error (.noSuchCommand command))

/-! ## The libraries -/

/-- A text that is malformed is kept apart from other failures. The reason is not given. -/
def rejection : Failure → Rejection
  | .malformedDocument | .badPattern => .malformed ""
  | e => .failure e

def loadFile (s : Surroundings) (path : Text) : Except Rejection Value :=
  match s.look path with
  | .file content => (Document.read content).mapError rejection
  | .directory => .error (.failure (.raised "IsADirectoryError" path))
  | .absent => .error (.failure (.raised "FileNotFoundError" path))

/-- The libraries as far as they are here: documents of a part of the syntax, and patterns of a
part. -/
def Packages.here (s : Surroundings) : Packages where
  parse := readCommand s
  refuse := refusal
  load := loadFile s
  compile source := ((Pattern.compile Flags.none source).map Pattern.finder).mapError rejection
  write _ := .ok ()

/-! ## Runs -/

/-- The same fault without the reason that is in the words of a library. -/
def UsageError.plain : UsageError → UsageError
  | badRegex name _ => badValue "--type" ("invalid regex for '" ++ name ++ "'")
  | e => e

namespace Written

def onOutput : Written → Text
  | out m => withoutColours m.text ++ "\n"
  | _ => []

/-- What is written on the output for errors, but for the reasons that are in the words of
libraries. -/
def onErrors : Written → Text
  | out _ => []
  | err (.unparsable path _) => withoutColours ("Error: cannot parse " ++ shownPath path)
  | err m => withoutColours m.text ++ "\n"
  | refusal e => firstLine (withoutColours ("Error: " ++ e.plain.message))
  | log full n => if full then n.source ++ ": " ++ n.message ++ "\n" else n.message ++ "\n"

end Written

structure Outcome where
  exit : Nat
  stdout : Text
  stderr : Text
  deriving DecidableEq, Repr

/-- Runs the command that the arguments name. A run that gives up has no outcome. -/
def run (s : Surroundings) (args : List Text) : Except Failure Outcome :=
  let effect := (Packages.here s).run s.registry args
  effect.result.map fun status =>
    ⟨status, effect.trace.flatMap Written.onOutput, effect.trace.flatMap Written.onErrors⟩

end TreeSpec.CommandLine
