import TreeSpec.Dictionary
import TreeSpec.Matcher

/-!
# Registries

A registry finds the matcher of a type name in three tiers: its own types, the shared types as they
were when the registry was made, and the builtin types. A name that is in no tier may still be read
as `no` in front of another name, and then stands for the inverted type.
-/

namespace TreeSpec

set_option autoImplicit false

/-- The tiers, from the one that wins to the one that gives way. -/
inductive Tier where
  | own
  | shared
  | builtin
  deriving DecidableEq, Repr

def Tier.text : Tier → Text
  | own => "instance"
  | shared => "global"
  | builtin => "builtin"

structure Registry where
  /-- Tells registries apart. -/
  ident : Nat
  builtin : Dictionary Matcher
  shared : Dictionary Matcher
  own : Dictionary Matcher
  /-- How often a type of its own was registered. -/
  version : Nat

/-- What a name stands for: a type, or its inversion. The matcher is inverted already. -/
structure Resolution where
  name : Text
  matcher : Matcher
  negated : Bool

structure TypeInfo where
  kind : Text
  tier : Tier
  description : Text
  deriving DecidableEq, Repr

/-- The rest of a name that starts with `no` and goes on. -/
def negationBase? (name : Text) : Option Text :=
  match name with
  | .char 'n' :: .char 'o' :: c :: cs => some (c :: cs)
  | _ => none

def insertName (name : Text) : List Text → List Text
  | [] => [name]
  | n :: ns =>
    if name < n then name :: n :: ns
    else if name = n then n :: ns
    else n :: insertName name ns

namespace Registry

def new (ident : Nat) (builtin shared : Dictionary Matcher) : Registry :=
  ⟨ident, builtin, shared, [], 0⟩

/-- Registers what a registration argument stands for as a type of the registry's own, in place of
an earlier one of that name. -/
def add (name : Text) (source : MatcherSource) (description : Text) : Change Registry Unit := do
  let m ← MonadExcept.ofExcept (Matcher.ofSource source description)
  modify fun r => { r with own := r.own.put name m }
  modify fun r => { r with version := r.version + 1 }

/-- The registry with one more type, if that can be registered. -/
def register (r : Registry) (name : Text) (source : MatcherSource) (description : Text) :
    Except Failure Registry :=
  let (result, r) := (add name source description).run.run r
  result.map fun _ => r

/-- The tiers with their types, in order of precedence. -/
def tiers (r : Registry) : List (Tier × Dictionary Matcher) :=
  [(.own, r.own), (.shared, r.shared), (.builtin, r.builtin)]

/-- The matcher of a name with the tier it comes from. -/
def find? (r : Registry) (name : Text) : Option (Tier × Matcher) :=
  r.tiers.findSome? fun t => (t.2.get? name).map (t.1, ·)

def lookup (r : Registry) (name : Text) : Option Matcher :=
  (r.find? name).map (·.2)

/-- The type that a name with `no` in front inverts, and the inverted matcher. -/
def lookupNegated (r : Registry) (name : Text) : Option (Text × Matcher) := do
  let base ← negationBase? name
  let m ← r.lookup base
  return (base, .negated m)

/-- What a name stands for. A type of that very name goes first. -/
def resolve (r : Registry) (name : Text) : Option Resolution :=
  match r.lookup name with
  | some m => some ⟨name, m, false⟩
  | none => (r.lookupNegated name).map fun b => ⟨b.1, b.2, true⟩

def isRegistered (r : Registry) (name : Text) : Bool := (r.resolve name).isSome

def names (r : Registry) : List Text :=
  (r.tiers.flatMap fun t => t.2.keys).foldr insertName []

/-- The types with their kind, tier and description, in increasing order of their names. -/
def describe (r : Registry) : List (Text × TypeInfo) :=
  r.names.filterMap fun name =>
    (r.find? name).map fun (tier, m) => (name, ⟨m.kind, tier, m.description⟩)

end Registry

end TreeSpec
