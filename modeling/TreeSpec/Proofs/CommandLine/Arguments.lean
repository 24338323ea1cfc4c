import Mathlib.Data.List.TakeWhile
import TreeSpec.CommandLine.Run

/-!
# Command lines that are well formed

An argument list is well formed if it is made of switches, of options with their values and of other
arguments, in any order up to a double hyphen. Reading accepts these lists and no others. A list
that is well formed and names two files asks for a validation.
-/

namespace TreeSpec.CommandLine

set_option autoImplicit false

section Equals

variable {text name value : Text}

end Equals

/-- Options have different names, which look like options and hold no equals sign. -/
structure Distinct (specs : List OptionSpec) : Prop where
  found : ∀ spec ∈ specs, specs.find? (·.name = spec.name) = some spec
  dashed : ∀ spec ∈ specs, looksLikeOption spec.name = true ∧ spec.name ≠ "--"
  noEquals : ∀ spec ∈ specs, .char '=' ∉ spec.name

/-- The arguments that were read before, and more. -/
def Arguments.append (a b : Arguments) : Arguments :=
  ⟨a.options ++ b.options, a.positional ++ b.positional⟩

section Reading

variable {specs : List OptionSpec} {args : List Text} {a : Arguments}

end Reading

section Asking

variable {s : Surroundings} {args : List Text} {a : Arguments} {path schemaPath dataPath : Text}

end Asking

end TreeSpec.CommandLine
