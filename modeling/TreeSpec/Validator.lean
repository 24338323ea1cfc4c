import TreeSpec.Schema.Walk

/-!
# Validators

A validator checks data trees against one schema with a registry of its own. It remembers the errors
of the latest check that was completed.
-/

namespace TreeSpec

set_option autoImplicit false

structure Validator where
  schema : Node
  registry : Registry
  debug : Bool
  errors : List ValidationError

namespace Validator

/-- A validator for a schema, which has to be a mapping. -/
def new (schema : Value) (debug : Bool) (registry : Registry) : Except Failure Validator :=
  match schema with
  | .mapping _ => (Node.ofValue schema).map fun node => ⟨node, registry, debug, []⟩
  | other => .error (.schemaNotMapping other.typeName)

def setting (v : Validator) : Setting := ⟨v.registry, v.debug⟩

/-- Registers a type for this validator only. -/
def add (name : Text) (source : MatcherSource) (description : Text) : Change Validator Unit :=
  (Registry.add name source description).within registry fun r v => { v with registry := r }

/-- Checks data. The errors are kept unless the walk gave up. -/
def validate (v : Validator) (data : Value) : Validator × Effect Event Bool :=
  let (schema, walk) := v.schema.visit v.setting [] data
  let v := { v with schema := schema }
  match walk.result with
  | .error e => (v, ⟨.error e, walk.trace⟩)
  | .ok _ =>
    let errors := walk.trace.filterMap Event.error?
    ({ v with errors := errors },
      ⟨.ok errors.isEmpty, walk.trace ++ v.setting.trace (.finished errors.length)⟩)

/-- The message of the last error, or the empty text. -/
def lastMessage (v : Validator) : Text :=
  (v.errors.getLast?.map ValidationError.message).getD ""

end Validator

end TreeSpec
