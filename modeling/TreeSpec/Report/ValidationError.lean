import TreeSpec.Failure

/-!
# Validation errors

One error is reported for each node of a schema that the data does not meet. It names the node by
the keys that lead to it.
-/

namespace TreeSpec

set_option autoImplicit false

inductive ErrorKind where
  /-- The spec itself could not be compiled. -/
  | schema
  /-- The data has another shape than the schema. -/
  | shape
  /-- No clause of the spec accepts the value. -/
  | leaf
  deriving DecidableEq, Repr

namespace ErrorKind

def text : ErrorKind → Text
  | schema => "schema"
  | shape => "structure"
  | leaf => "leaf"

def ofText (name : Text) : Except Failure ErrorKind :=
  match [schema, shape, leaf].find? (·.text = name) with
  | some kind => .ok kind
  | none => .error (.unknownErrorKind name)

end ErrorKind

abbrev Path := List Text

def Path.render (p : Path) : Text :=
  if p.isEmpty then "<root>" else Text.joined "." p

structure ValidationError where
  kind : ErrorKind
  path : Path
  spec : Text
  /-- The text of the value. -/
  value : Text
  detail : Text
  deriving DecidableEq, Repr

def ValidationError.message (e : ValidationError) : Text :=
  e.value ++ " doesn't match " ++ e.spec ++ " at " ++ e.path.render

end TreeSpec
