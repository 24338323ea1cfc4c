import TreeSpec.Text.Pieces

/-!
# Files named on the command line

A path is looked up from a directory. Empty steps and steps that stay in place do not count, when a
path is looked up and when it is shown.
-/

namespace TreeSpec.CommandLine

set_option autoImplicit false

inductive FileStatus where
  | file (content : Text)
  | directory
  | absent
  deriving DecidableEq, Repr

def pathSteps (path : Text) : List Text :=
  (Text.pieces (· = '/') path).filter fun s => !s.isEmpty && s != "."

def isAbsolute (path : Text) : Bool := path.head? = some '/'

/-- The slashes that a path starts from. Two are kept apart from one, and more are not. -/
def pathRoot (path : Text) : Text :=
  let slashes : Text := path.takeWhile (· == .char '/')
  if slashes.length = 2 then slashes else slashes.take 1

def shownPath (path : Text) : Text :=
  let shown := pathRoot path ++ Text.joined "/" (pathSteps path)
  if shown.isEmpty then "." else shown

/-! ## Looking up -/

/-- What a step leads to. -/
inductive Spot where
  /-- Something below the directory, by the names on the way, the innermost first. -/
  | inside (names : List Text)
  /-- A directory around it. -/
  | around
  | nowhere
  deriving DecidableEq, Repr

def Spot.status (files : List (Text × Text)) : Spot → FileStatus
  | inside [] | around => .directory
  | inside names =>
    let steps := names.reverse
    match files.find? fun f => pathSteps f.1 = steps with
    | some f => .file f.2
    | none => if files.any fun f => steps.isPrefixOf (pathSteps f.1) then .directory else .absent
  | nowhere => .absent

/-- Takes a step, which is possible from a directory only. -/
def Spot.step (files : List (Text × Text)) (spot : Spot) (name : Text) : Spot :=
  if spot.status files != .directory then nowhere
  else if name.isEmpty || name = "." then spot
  else if name = ".." then
    match spot with
    | inside (_ :: names) => inside names
    | _ => around
  else
    match spot with
    | inside names => inside (name :: names)
    | _ => nowhere

/-- Looks a path up in a directory that holds the given files. Outside it there is nothing to be
seen but the directories around it, up to the outermost one, around which there is none but
itself. -/
def lookIn (files : List (Text × Text)) (path : Text) : FileStatus :=
  if path.isEmpty then .absent
  else
    let spot := if isAbsolute path then .around else .inside []
    ((Text.pieces (· = '/') path).foldl (Spot.step files) spot).status files

end TreeSpec.CommandLine
