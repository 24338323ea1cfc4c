import TreeSpec.Spec.Token
import TreeSpec.Text.Pieces

/-!
# Alternatives of a type spec

A type spec is one alternative or several with pipes between them. An alternative is a name with or
without an argument block. The arguments of a block are the pieces between commas and hyphens.
-/

namespace TreeSpec

set_option autoImplicit false

structure Alternative where
  name : Text
  rawArgs : Option Text
  deriving DecidableEq, Repr

namespace Alternative

mutual

def readAll : List Token → Except SpecError (List Alternative)
  | ⟨.name n, _⟩ :: ⟨.args a, _⟩ :: rest => readMore ⟨n, some a⟩ rest
  | ⟨.name n, _⟩ :: rest => readMore ⟨n, none⟩ rest
  | t :: _ => .error (.expectedName t.position)
  | [] => .ok []

def readMore (a : Alternative) : List Token → Except SpecError (List Alternative)
  | ⟨.pipe, _⟩ :: rest => (readAll rest).map (a :: ·)
  | ⟨.name text, position⟩ :: _ => .error (.unexpectedToken text position)
  | ⟨.args text, position⟩ :: _ => .error (.unexpectedToken text position)
  | ⟨.stop, _⟩ :: _ => .ok [a]
  | [] => .ok [a]

end

def ofTokens : List Token → Except SpecError (List Alternative)
  | ⟨.stop, position⟩ :: _ => .error (.emptySpec position)
  | tokens => readAll tokens

def parse (spec : Text) : Except SpecError (List Alternative) := do
  ofTokens (← Token.scan spec)

/-- The word that stands for a value that may be missing. -/
def optionalWord : Text := "optional"

def isOptional (a : Alternative) : Bool :=
  a.name = optionalWord && a.rawArgs.isNone

end Alternative

def isArgSeparator (c : CodePoint) : Bool := c = ',' || c = '-'

/-- The arguments of a block, blanks around them apart. Without a block there is none. -/
def splitArgs (rawArgs : Option Text) : List Text :=
  match rawArgs with
  | none => []
  | some raw => (Text.pieces isArgSeparator raw).map Text.trim

end TreeSpec
