import TreeSpec.Builtin.Types
import TreeSpec.Validator

/-!
# Sessions

A session holds the shared types with all registries and validators that were made. A registry takes
the shared types as they are when it is made. Actions change the session step by step; what was
changed before an action fails stays changed.
-/

namespace TreeSpec

set_option autoImplicit false

structure Session where
  /-- The types for registries that will be made. -/
  shared : Dictionary Matcher
  registries : Dictionary Registry
  validators : Dictionary Validator
  /-- The number of the next registry. -/
  nextIdent : Nat

inductive Action where
  | newRegistry (id : Text) (builtin : Dictionary Matcher)
  | register (id name : Text) (source : MatcherSource) (description : Text)
  | registerShared (name : Text) (source : MatcherSource) (description : Text)
  | clearShared
  | newValidator (id : Text) (schema : Value) (debug : Bool) (builtin : Dictionary Matcher)
  /-- Registers a type for one validator. -/
  | registerFor (id name : Text) (source : MatcherSource) (description : Text)
  /-- Gives a validator a new registry. -/
  | replaceRegistry (id : Text) (builtin : Dictionary Matcher)
  | setDebug (id : Text) (enabled : Bool)
  | validate (id : Text) (data : Value)

namespace Session

def empty : Session := ⟨[], [], [], 0⟩

def makeRegistry (s : Session) (builtin : Dictionary Matcher) : Registry :=
  .new s.nextIdent builtin s.shared

/-- The session in which the number of the next registry was used. -/
def used (s : Session) : Session := { s with nextIdent := s.nextIdent + 1 }

def putRegistry (id : Text) (r : Registry) (s : Session) : Session :=
  { s with registries := s.registries.put id r }

def putValidator (id : Text) (v : Validator) (s : Session) : Session :=
  { s with validators := s.validators.put id v }

/-- Changes one validator, if there is one of that name. -/
def changeValidator (s : Session) (id : Text) (f : Validator → Validator) : Session :=
  match s.validators.get? id with
  | some v => putValidator id (f v) s
  | none => s

/-- Registers a type for all registries that will be made. -/
def addShared (name : Text) (source : MatcherSource) (description : Text) :
    Change Session Unit := do
  let m ← MonadExcept.ofExcept (Matcher.ofSource source description)
  modify fun s => { s with shared := s.shared.put name m }

/-- Makes a validator, with a registry if the schema can be used. -/
def makeValidator (id : Text) (schema : Value) (debug : Bool) (builtin : Dictionary Matcher) :
    Change Session Unit := do
  let v ← MonadExcept.ofExcept (Validator.new schema debug ((← get).makeRegistry builtin))
  modify used
  modify (putValidator id v)

/-- Carries out an action. An action on a name that stands for nothing has no effect. -/
def perform (s : Session) (a : Action) : Session × Effect Event Unit :=
  match a with
  | .newRegistry id builtin =>
    (putRegistry id (s.makeRegistry builtin) s.used, pure ())
  | .register id name source description =>
    match s.registries.get? id with
    | none => (s, pure ())
    | some r =>
      ((Registry.add name source description).within (fun _ => r) (putRegistry id)).outcome s
  | .registerShared name source description => (addShared name source description).outcome s
  | .clearShared => ({ s with shared := [] }, pure ())
  | .newValidator id schema debug builtin => (makeValidator id schema debug builtin).outcome s
  | .registerFor id name source description =>
    match s.validators.get? id with
    | none => (s, pure ())
    | some v =>
      ((Validator.add name source description).within (fun _ => v) (putValidator id)).outcome s
  | .replaceRegistry id builtin =>
    (s.used.changeValidator id fun v => { v with registry := s.makeRegistry builtin }, pure ())
  | .setDebug id enabled => (s.changeValidator id ({ · with debug := enabled }), pure ())
  | .validate id data =>
    match s.validators.get? id with
    | none => (s, pure ())
    | some v =>
      let (v, effect) := v.validate data
      (putValidator id v s, effect *> pure ())

end Session

end TreeSpec
