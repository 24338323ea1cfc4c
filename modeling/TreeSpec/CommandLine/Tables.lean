import TreeSpec.Builtin.Probes
import TreeSpec.Data.Value
import TreeSpec.Text.Pieces

/-!
# Tables of the outside world

Accounts and hosts are listed in text files, one on each line. Which paths exist has to be found out
in advance, so the texts of a document are gathered: no other path can be asked for.
-/

namespace TreeSpec.CommandLine

set_option autoImplicit false

def lines (text : Text) : List Text := Text.pieces (· = '\n') text

/-- The account of a line: its name, and its number after another field, with colons between
them. -/
def account? (line : Text) : Option (Text × Nat) :=
  match Text.pieces (· = ':') line with
  | name :: _ :: number :: _ =>
    if !number.isEmpty && number.all CodePoint.isDigit then
      some (name, Text.digitsValue number)
    else none
  | _ => none

def accounts (text : Text) : List (Text × Nat) := (lines text).filterMap account?

/-- The host names of a line, which come after an address. A number sign starts a comment. -/
def hostNames (line : Text) : List Text :=
  ((Text.pieces Text.isBlank (line.takeWhile (· != '#'))).filter (!·.isEmpty)).drop 1

/-- The world that is described by a table of users, a table of groups, a table of hosts and a list
of paths. -/
def worldOf (users groups hosts : Text) (paths : List Text) : World where
  hosts := ((lines hosts).flatMap hostNames).map (·, none)
  paths := paths
  users := accounts users
  groups := accounts groups

mutual

def scalarTexts : Value → List Text
  | .missing => []
  | .scalar s => s.toText.toOption.toList
  | .sequence _ items => textsOfItems items
  | .mapping entries => textsOfEntries entries

def textsOfItems : List Value → List Text
  | [] => []
  | v :: rest => scalarTexts v ++ textsOfItems rest

def textsOfEntries : List (Scalar × Value) → List Text
  | [] => []
  | (_, v) :: rest => scalarTexts v ++ textsOfEntries rest

end

end TreeSpec.CommandLine
