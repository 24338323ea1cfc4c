import Mathlib.Data.List.Forall2
import TreeSpec.CommandLine.Program
import TreeSpec.Proofs.CommandLine.Arguments
import TreeSpec.Proofs.Data.Texts
import TreeSpec.Proofs.Session.Isolation

/-!
# Types that are given on the command line

A text gives a type if it has a name and a pattern on either side of its first equals sign. Texts
that all give types register them in order. Else the first one that does not decides what comes of
them: it is a fault of the command line, but for a pattern at which compiling gives up in another
way than by calling it malformed.
-/

namespace TreeSpec.CommandLine

set_option autoImplicit false

namespace Packages

variable (p : Packages)

/-- The text is the name and the source of the pattern with an equals sign between them. -/
def GivesType (text : Text) (type : Text × Finder) : Prop :=
  ∃ source, text = type.1 ++ .char '=' :: source ∧ type.1 ≠ [] ∧ .char '=' ∉ type.1 ∧
    p.compile source = .ok type.2

/-- The text has a name and a source, and compiling the source fails, but not because it is
malformed. -/
def GivesUp (text : Text) (e : Failure) : Prop :=
  ∃ name source, text = name ++ .char '=' :: source ∧ name ≠ [] ∧ .char '=' ∉ name ∧
    p.compile source = .error (.failure e)

/-- The text is the first one that gives no type. -/
def FirstUnusable (texts : List Text) (text : Text) : Prop :=
  ∃ before after, texts = before ++ text :: after ∧
    (∀ t ∈ before, ∃ type, p.GivesType t type) ∧ ∀ type, ¬ p.GivesType text type

variable {p} {text : Text} {type : Text × Finder} {e : Failure}

end Packages

/-- Registers types for a validator, in order. -/
def registerAll (types : List (Text × Finder)) : Change Validator Unit :=
  types.forM fun t => Validator.add t.1 (.compiled t.2) ""

/-- The types with a matcher in place of each pattern. -/
def matchers (types : List (Text × Finder)) : List (Text × Matcher) :=
  types.map fun t => (t.1, .pattern t.2 "")

namespace Packages

variable {p : Packages} {texts : List Text} {text : Text}

end Packages

end TreeSpec.CommandLine
