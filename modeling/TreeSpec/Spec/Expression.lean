import TreeSpec.Registry
import TreeSpec.Spec.Alternative

/-!
# Compiled specs

A compiled spec has one clause for each alternative other than the reserved word, with the matcher
that the registry gave for its name. Compiling never gives up: a spec that cannot be compiled
carries the reason and accepts nothing.
-/

namespace TreeSpec

set_option autoImplicit false

inductive SchemaError where
  | malformed (spec : Text) (error : SpecError)
  | unknownType (name spec : Text)
  /-- A schema holds a sequence in place of a spec. -/
  | sequence
  /-- A reason given by the caller. -/
  | stated (message spec : Text)
  deriving DecidableEq, Repr

namespace SchemaError

def message : SchemaError → Text
  | malformed spec error => "Invalid type spec '" ++ spec ++ "': " ++ error.message
  | unknownType name _ => "Unknown type '" ++ name ++ "'"
  | sequence => "Sequences are not supported in schemas"
  | stated message _ => message

def spec : SchemaError → Text
  | malformed spec _ => spec
  | unknownType _ spec => spec
  | sequence => "<sequence>"
  | stated _ spec => spec

end SchemaError

structure Clause where
  /-- The name of the type; of the type that is inverted, if the clause is negated. -/
  name : Text
  negated : Bool
  rawArgs : Option Text
  /-- The arguments in the block. -/
  parsedArgs : List Text
  /-- Inverted already if the clause is negated. -/
  matcher : Matcher

namespace Clause

def label (c : Clause) : Text :=
  (if c.negated then "no" ++ c.name else c.name) ++
    match c.rawArgs with
    | some args => "(" ++ args ++ ")"
    | none => []

def question (c : Clause) (value : Text) : Question := ⟨value, c.rawArgs, c.parsedArgs⟩

end Clause

structure Expression where
  spec : Text
  clauses : List Clause
  /-- The reserved word occurred. -/
  allowsMissing : Bool
  error : Option SchemaError

namespace Alternative

/-- The clause of an alternative whose name stands for a type. -/
def clause? (a : Alternative) (r : Registry) : Option Clause :=
  (r.resolve a.name).map fun found =>
    ⟨found.name, found.negated, a.rawArgs, splitArgs a.rawArgs, found.matcher⟩

end Alternative

namespace Expression

def isValid (e : Expression) : Bool := e.error.isNone

/-- A spec that accepts nothing, for the given reason. -/
def broken (spec : Text) (error : SchemaError) : Expression := ⟨spec, [], false, some error⟩

/-- Compiles alternatives one after the other and adds their clauses to those before. The first name
that stands for nothing ends it, and then no clause counts. -/
def compileOnto (r : Registry) (spec : Text) (clauses : List Clause) (allowsMissing : Bool) :
    List Alternative → Expression
  | [] => ⟨spec, clauses, allowsMissing, none⟩
  | a :: rest =>
    if a.isOptional then compileOnto r spec clauses true rest
    else
      match a.clause? r with
      | some c => compileOnto r spec (clauses ++ [c]) allowsMissing rest
      | none => ⟨spec, [], allowsMissing, some (.unknownType a.name spec)⟩

def compile (r : Registry) (spec : Text) : Expression :=
  match Alternative.parse spec with
  | .error e => broken spec (.malformed spec e)
  | .ok alternatives => compileOnto r spec [] false alternatives

end Expression

end TreeSpec
