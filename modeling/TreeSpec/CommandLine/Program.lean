import TreeSpec.CommandLine.Message
import TreeSpec.Validator

/-!
# The program

The command line has two commands: one validates a document against another, the other lists the
types. What is left to other libraries is given to the program from outside: reading the command
line, loading documents, compiling regular expressions and writing on the standard output.
-/

namespace TreeSpec.CommandLine

set_option autoImplicit false

/-- What a validation is asked for. -/
structure Request where
  schemaPath : Text
  dataPath : Text
  /-- The texts that are to give types. -/
  types : List Text
  json : Bool
  debug : Bool

inductive Command where
  | validate (r : Request)
  | types (json : Bool)

/-- Why a library does not make anything of a text. -/
inductive Rejection where
  /-- The text is malformed, for a reason in the words of the library. -/
  | malformed (reason : Text)
  | failure (e : Failure)

/-- A part of the program, which writes and may end the run with an exit status. A run that gives up
has none. -/
abbrev Program (α : Type) := ExceptT Nat (Effect Written) α

namespace Program

variable {α : Type}

def exit (status : Nat) : Program α := throw status

def write (w : Written) : Program Unit := ExceptT.lift (Effect.emit [w])

def giveUp (e : Failure) : Program α := ExceptT.lift (Effect.fail e)

def ofExcept (x : Except Failure α) : Program α := ExceptT.lift (Effect.ofExcept x)

/-- The exit status at the end of the program, which is zero unless it was ended with another. -/
def status (x : Program Unit) : Effect Written Nat := do
  match ← x.run with
  | .ok _ => return 0
  | .error status => return status

end Program

/-- The libraries that the program is built on. -/
structure Packages where
  /-- Reads the arguments, or ends the run if they are at fault or there is nothing more to do. -/
  parse : List Text → Program Command
  /-- Says what is wrong with a parameter, and gives the exit status for it. -/
  refuse : UsageError → Effect Written Nat
  /-- Opens the file at the path and loads the document in it. -/
  load : Text → Except Rejection Value
  /-- Compiles a regular expression. -/
  compile : Text → Except Rejection Finder
  /-- Writes a message on the standard output, which may not have all its characters. -/
  write : Message → Except Failure Unit

namespace Packages

variable {α : Type} (p : Packages)

def echo (m : Message) : Program Unit := do
  Program.ofExcept (p.write m)
  Program.write (.out m)

def refused (e : UsageError) : Program α := do
  let status ← ExceptT.lift (p.refuse e)
  Program.exit status

/-! ## Validating -/

def loadDocument (path : Text) : Program Value :=
  match p.load path with
  | .ok v => return v
  | .error (.malformed reason) => do
    Program.write (.err (.unparsable path reason))
    Program.exit 2
  | .error (.failure e) => Program.giveUp e

/-- The type of a name with the pattern that is compiled. -/
def compileType (name source : Text) : Program (Text × Finder) :=
  match p.compile source with
  | .ok found => return (name, found)
  | .error (.malformed reason) => p.refused (.badRegex name reason)
  | .error (.failure e) => Program.giveUp e

/-- The name and the pattern of a type given on the command line. -/
def readType (text : Text) : Program (Text × Finder) :=
  let noPattern := p.refused (.badValue "--type" ("expected NAME=REGEX, got '" ++ text ++ "'"))
  match splitAtEquals text with
  | (name, some source) => if name.isEmpty then noPattern else p.compileType name source
  | (_, none) => noPattern

/-- Registers the types given on the command line, in order. -/
def addTypes (v : Validator) (texts : List Text) : Program Validator :=
  texts.foldlM
    (fun v text => do
      let (name, found) ← p.readType text
      let (v, effect) := (Validator.add name (.compiled found) "").outcome v
      ExceptT.lift effect
      return v) v

/-- What is said of the data: the errors and a verdict, or both as JSON. -/
def report (r : Request) (valid : Bool) (errors : List ValidationError) : Program Unit :=
  if r.json then
    p.echo (.json (.object [("valid", .bool valid), ("errors", .list (errors.map errorJson))]))
  else do
    errors.forM fun e => p.echo (.error e)
    if valid then p.echo (.valid r.dataPath) else p.echo (.errorCount errors.length)

/-- Validates data. The log is written on the way. -/
def check (r : Request) (v : Validator) (data : Value) : Program Unit := do
  let (v, effect) := v.validate data
  let valid ← ExceptT.lift (effect.retrace fun e => (e.notice?.map (Written.log r.debug)).toList)
  p.report r valid v.errors
  if !valid then Program.exit 1

/-- Validates the document of one file against the schema in another. -/
def validate (registry : Registry) (r : Request) : Program Unit := do
  match ← p.loadDocument r.schemaPath with
  | .mapping entries =>
    let data ← p.loadDocument r.dataPath
    let v ← Program.ofExcept (Validator.new (.mapping entries) r.debug registry)
    let v ← p.addTypes v r.types
    p.check r v data
  | _ => do
    Program.write (.err (.notMapping r.schemaPath))
    Program.exit 2

/-! ## Listing types -/

def listTypes (registry : Registry) (json : Bool) : Program Unit :=
  let types := registry.describe
  if json then p.echo (.json (typesJson types))
  else (typeTable types).forM fun text => p.echo (.line text)

/-! ## Running -/

def command (registry : Registry) (args : List Text) : Program Unit := do
  match ← p.parse args with
  | .validate r => p.validate registry r
  | .types json => p.listTypes registry json

/-- What is written in a run, and its exit status unless it gives up. -/
def run (registry : Registry) (args : List Text) : Effect Written Nat :=
  (p.command registry args).status

end Packages

end TreeSpec.CommandLine
