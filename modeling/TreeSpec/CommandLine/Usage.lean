import TreeSpec.CommandLine.Similar
import TreeSpec.Text.Quoted

/-!
# Arguments of a command

Options may stand before, between and after the other arguments, up to a double hyphen. The first
fault in an argument list is the one that is reported.
-/

namespace TreeSpec.CommandLine

set_option autoImplicit false

structure OptionSpec where
  name : Text
  takesValue : Bool
  deriving DecidableEq, Repr

inductive UsageError where
  | noSuchOption (name : Text) (similar : List Text)
  | needsNoValue (name : Text)
  | needsValue (name : Text)
  | missingArgument (name : Text)
  | extraArguments (arguments : List Text)
  | noSuchCommand (name : Text)
  | missingCommand
  /-- A fault in the value of a parameter. -/
  | badValue (parameter reason : Text)
  /-- The pattern of a type does not compile, for a reason in the words of who compiles it. -/
  | badRegex (name reason : Text)
  deriving DecidableEq, Repr

def UsageError.message : UsageError → Text
  | noSuchOption name similar =>
    "No such option: " ++ name ++
      (match similar with
      | [] => ""
      | [one] => " Did you mean " ++ one ++ "?"
      | several => " (Possible options: " ++ Text.joined ", " several ++ ")")
  | needsNoValue name => "Option " ++ Text.quoted name ++ " does not take a value."
  | needsValue name => "Option " ++ Text.quoted name ++ " requires an argument."
  | missingArgument name => "Missing argument '" ++ name ++ "'."
  | extraArguments arguments =>
    "Got unexpected extra argument" ++ (if arguments.length = 1 then "" else "s") ++ " (" ++
      Text.joined " " arguments ++ ")"
  | noSuchCommand name => "No such command " ++ Text.quoted name ++ "."
  | missingCommand => "Missing command."
  | badValue parameter reason => "Invalid value for " ++ parameter ++ ": " ++ reason
  | badRegex name reason =>
    "Invalid value for --type: invalid regex for '" ++ name ++ "': " ++ reason

/-- The options that were given, in order, with their values, and the other arguments. -/
structure Arguments where
  options : List (Text × Text)
  positional : List Text
  deriving DecidableEq, Repr

namespace Arguments

def none : Arguments := ⟨[], []⟩

def addOption (a : Arguments) (name value : Text) : Arguments :=
  { a with options := a.options ++ [(name, value)] }

def addPositional (a : Arguments) (value : Text) : Arguments :=
  { a with positional := a.positional ++ [value] }

def has (a : Arguments) (name : Text) : Bool := a.options.any (·.1 = name)

/-- The values of an option that may be given several times. -/
def values (a : Arguments) (name : Text) : List Text :=
  (a.options.filter (·.1 = name)).map (·.2)

end Arguments

def looksLikeOption (arg : Text) : Bool :=
  match arg with
  | .char '-' :: _ :: _ => true
  | _ => false

def isNoEquals (c : CodePoint) : Bool := c != '='

/-- The parts of a text before and after its first equals sign. -/
def splitAtEquals (text : Text) : Text × Option Text :=
  match text.dropWhile isNoEquals with
  | _ :: value => (text.takeWhile isNoEquals, some value)
  | [] => (text, none)

/-- The fault of an argument whose option is not known. After a single hyphen each letter is an
option, so the first one is at fault. -/
def unknownOption (specs : List OptionSpec) (arg name : Text) : UsageError :=
  match arg with
  | [.char '-', c] => .noSuchOption ['-', c] []
  | .char '-' :: c :: _ =>
    if c = '-' then .noSuchOption name (similarTo name (specs.map (·.name)))
    else .noSuchOption ['-', c] []
  | _ => .noSuchOption name []

/-- Reads arguments. Without `interspersed` the first argument that is no option ends the
options. -/
def readArguments (specs : List OptionSpec) (interspersed : Bool) (read : Arguments) :
    List Text → Except UsageError Arguments
  | [] => .ok read
  | arg :: rest =>
    if arg = "--" then .ok { read with positional := read.positional ++ rest }
    else if !looksLikeOption arg then
      if interspersed then readArguments specs interspersed (read.addPositional arg) rest
      else .ok { read with positional := read.positional ++ arg :: rest }
    else
      let (name, value?) := splitAtEquals arg
      match specs.find? (·.name = name) with
      | none => .error (unknownOption specs arg name)
      | some spec =>
        match spec.takesValue, value? with
        | false, some _ => .error (.needsNoValue name)
        | false, none => readArguments specs interspersed (read.addOption name "") rest
        | true, some value => readArguments specs interspersed (read.addOption name value) rest
        | true, none =>
          match rest with
          | value :: later => readArguments specs interspersed (read.addOption name value) later
          | [] => .error (.needsValue name)

end TreeSpec.CommandLine
