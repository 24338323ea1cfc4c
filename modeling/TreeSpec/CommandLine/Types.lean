import TreeSpec.Registry
import TreeSpec.Report.Json

/-!
# Listings of types

The types of a registry as a table of lines or as JSON.
-/

namespace TreeSpec.CommandLine

set_option autoImplicit false

def padTo (width : Nat) (text : Text) : Text :=
  text ++ Text.repeated (width - text.length) ' '

def dropBlanks (text : Text) : Text :=
  (text.reverse.dropWhile Text.isBlank).reverse

def typeLine (name : Text) (info : TypeInfo) : Text :=
  dropBlanks ("  " ++ padTo 16 name ++ " " ++ padTo 10 info.kind ++ " " ++ info.description)

/-- The table of the types and a line about negation. -/
def typeTable (types : List (Text × TypeInfo)) : List Text :=
  let note : Text := "\nEvery type can be negated with the 'no' prefix, e.g. 'noint'."
  (types.map fun t => typeLine t.1 t.2) ++ [note]

def typesJson (types : List (Text × TypeInfo)) : Json :=
  .object (types.map fun (name, info) =>
    (name, .object
      [("kind", .text info.kind), ("tier", .text info.tier.text),
        ("description", .text info.description)]))

end TreeSpec.CommandLine
