import TreeSpec.CommandLine.Run
import TreeSpec.Proofs.CommandLine.Output
import TreeSpec.Proofs.CommandLine.TypeOptions
import TreeSpec.Proofs.Service.Alike
import TreeSpec.Proofs.Walk.Debug

/-!
# Validating on the command line

The exit status and the output of a validation depend on the two documents, on the types and on the
form of the report. They are those of a fault, or they tell what a validator made of the schema and
the types finds in the data. This is so whatever reads the command line, loads documents, compiles
patterns and writes, as long as faults of the command line end the run with status two and documents
are read or found malformed.
-/

namespace TreeSpec.CommandLine

set_option autoImplicit false

namespace Packages

variable (p : Packages)

def Malformed (path : Text) : Prop := ∃ reason, p.load path = .error (.malformed reason)

/-- Loading the document gives a value with texts throughout, or finds that it is malformed. -/
structure Loads (path : Text) : Prop where
  settled : ∀ e, p.load path ≠ .error (.failure e)
  renderable : ∀ v, p.load path = .ok v → v.Renderable

end Packages

namespace Request

variable (r : Request)

/-- A document is at fault, or the first text that gives no type, if it is not one at which
compiling gives up. -/
def Faulty (p : Packages) : Prop :=
  p.Malformed r.schemaPath ∨
    (∃ v, p.load r.schemaPath = .ok v ∧ ∀ entries, v ≠ .mapping entries) ∨
    p.Malformed r.dataPath ∨ ∃ text, p.FirstUnusable r.types text ∧ ∀ e, ¬ p.GivesUp text e

/-- The errors one by one and a verdict; or both as JSON. -/
def messages (valid : Bool) (errors : List ValidationError) : List Message :=
  if r.json then
    [.json (.object [("valid", .bool valid), ("errors", .list (errors.map errorJson))])]
  else errors.map .error ++ [if valid then .valid r.dataPath else .errorCount errors.length]

/-- What is due to a request: what is seen of a fault, of a failure for which the run gives up, or
of a check. -/
inductive Due (p : Packages) (registry : Registry) : Seen → Prop where
  | faulty (h : r.Faulty p) : Due p registry (.ok 2, [])
  | givenUp {entries : List (Scalar × Value)} {value : Value} {text : Text} {e : Failure}
      (hschema : p.load r.schemaPath = .ok (.mapping entries))
      (hdata : p.load r.dataPath = .ok value)
      (htext : p.FirstUnusable r.types text) (he : p.GivesUp text e) : Due p registry (.error e, [])
  | checked {entries : List (Scalar × Value)} {value : Value} {types : List (Text × Finder)}
      {made v : Validator} {valid : Bool}
      (hschema : p.load r.schemaPath = .ok (.mapping entries))
      (hdata : p.load r.dataPath = .ok value)
      (htypes : List.Forall₂ p.GivesType r.types types)
      (hmade : Validator.new (.mapping entries) false registry = .ok made)
      (hv : (registerAll types).outcome made = (v, (pure () : Effect Event Unit)))
      (hvalid : (v.validate value).2.result = .ok valid) :
      Due p registry
        (p.shown (if valid then 0 else 1) (r.messages valid (v.validate value).1.errors))

end Request

section Run

variable {p : Packages} {registry : Registry} {args : List Text} {r : Request} {x : Seen}

variable {path : Text} {schema value : Value} {entries : List (Scalar × Value)}

theorem Packages.Loads.cases (h : p.Loads path) :
    (∃ v, p.load path = .ok v) ∨ p.Malformed path := by
  cases hload : p.load path with
  | ok v => exact .inl ⟨v, rfl⟩
  | error rejection =>
    cases rejection with
    | malformed reason => exact .inr ⟨reason, hload⟩
    | failure e => exact absurd hload (h.settled e)

variable {v : Validator} {valid : Bool}

namespace Request

/-- Debugging is no part of what is due. -/
theorem Due.debug (h : r.Due p registry x) (debug : Bool) :
    ({ r with debug := debug } : Request).Due p registry x := by
  cases h with
  | faulty hf => exact .faulty hf
  | givenUp hschema hdata hfirst he => exact .givenUp hschema hdata hfirst he
  | checked hschema hdata hgiven hmade hv hvalid =>
    exact .checked hschema hdata hgiven hmade hv hvalid

end Request

end Run

/-! ## The libraries that are here -/

end TreeSpec.CommandLine
