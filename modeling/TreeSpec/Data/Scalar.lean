import TreeSpec.Decimal.FloatText
import TreeSpec.Text.Numeral

/-!
# Scalars

The scalars of a data tree and their texts. All types are tried against the text of a scalar, so two
scalars with the same text cannot be told apart by a schema.
-/

namespace TreeSpec

set_option autoImplicit false

/-- A scalar of a type that is known by its texts only. -/
structure Foreign where
  typeName : Text
  text : Text
  /-- The scalar as it is written in a listing of values. -/
  shown : Text
  deriving DecidableEq, Repr

inductive Scalar where
  | text (s : Text)
  | bool (b : Bool)
  | int (i : Int)
  | float (x : Float)
  | null
  | foreign (f : Foreign)

namespace Scalar

/-- The text that types are tried against. Only integers that are too long have none. -/
def toText : Scalar → Except Failure Text
  | text s => .ok s
  | bool b => .ok (if b then "true" else "false")
  | int i => Text.writeInteger i
  | float x => .ok (FloatText.write x)
  | null => .ok "None"
  | foreign f => .ok f.text

/-- The scalar as it is written in a listing of values, where text is quoted. -/
def shown : Scalar → Text
  | text s => Text.quoted s
  | bool b => if b then "True" else "False"
  | int i => toString i
  | float x => FloatText.write x
  | null => "None"
  | foreign f => f.shown

def isText : Scalar → Bool
  | text _ => true
  | _ => false

def typeName : Scalar → Text
  | text _ => "str"
  | bool _ => "bool"
  | int _ => "int"
  | float _ => "float"
  | null => "NoneType"
  | foreign f => f.typeName

end Scalar

end TreeSpec
