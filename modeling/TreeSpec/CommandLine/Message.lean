import TreeSpec.CommandLine.Files
import TreeSpec.CommandLine.Types
import TreeSpec.CommandLine.Usage
import TreeSpec.Report.Notice

/-!
# Messages of the program

What the program says, one message at a time, on one of its two outputs. Colours are left out, as
they are for terminals only.
-/

namespace TreeSpec.CommandLine

set_option autoImplicit false

def errorJson (e : ValidationError) : Json :=
  .object
    [("kind", .text e.kind.text), ("path", .list (e.path.map .text)), ("spec", .text e.spec),
      ("value", .text e.value), ("detail", .text e.detail), ("message", .text e.message)]

def errorLine (e : ValidationError) : Text :=
  if e.detail.isEmpty then e.message else e.message ++ " (" ++ e.detail ++ ")"

inductive Message where
  /-- There is no document at the path, for a reason in the words of who reads it. -/
  | unparsable (path reason : Text)
  /-- The schema at the path is no mapping. -/
  | notMapping (path : Text)
  | error (e : ValidationError)
  /-- The document at the path has no errors. -/
  | valid (path : Text)
  | errorCount (n : Nat)
  | json (j : Json)
  | line (text : Text)
  /-- How the command line is used. -/
  | usage (text : Text)

def Message.text : Message → Text
  | unparsable path reason => "Error: cannot parse " ++ shownPath path ++ ": " ++ reason
  | notMapping path => "Error: schema " ++ shownPath path ++ " is not a mapping"
  | error e => errorLine e
  | valid path => shownPath path ++ " is valid."
  | errorCount n => "\n" ++ toString n ++ " error(s) found"
  | json j => j.render 0
  | line text => text
  | usage text => "Usage: " ++ text

inductive Written where
  | out (m : Message)
  | err (m : Message)
  /-- What is said of a fault of the command line, on the output for errors. -/
  | refusal (e : UsageError)
  /-- A line of the log, on the output for errors. Its source is named in a full log. -/
  | log (full : Bool) (n : Notice)

namespace Written

def out? : Written → Option Message
  | out m => some m
  | _ => none

end Written

end TreeSpec.CommandLine
