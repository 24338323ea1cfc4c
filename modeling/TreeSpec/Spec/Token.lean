import TreeSpec.Text.Blank
import TreeSpec.Text.Quoted
import TreeSpec.Text.Word

/-!
# Tokens of a type spec

A type spec is made of names, argument blocks and pipes, with blanks between them. Scanning either
gives all tokens with their positions and a last token at the end of the text, or stops at the first
character that starts no token.
-/

namespace TreeSpec

set_option autoImplicit false

inductive Lexeme where
  | name (text : Text)
  /-- The text between the parentheses. -/
  | args (text : Text)
  | pipe
  | stop
  deriving DecidableEq, Repr

structure Token where
  lexeme : Lexeme
  position : Nat
  deriving DecidableEq, Repr

/-- Why a text is no type spec. Each cause comes with its position in the text. -/
inductive SpecError where
  | unexpectedCharacter (c : CodePoint) (position : Nat)
  | emptySpec (position : Nat)
  | expectedName (position : Nat)
  | unexpectedToken (text : Text) (position : Nat)
  deriving DecidableEq, Repr

namespace SpecError

def position : SpecError → Nat
  | unexpectedCharacter _ p | emptySpec p | expectedName p | unexpectedToken _ p => p

def cause : SpecError → Text
  | unexpectedCharacter c _ => "Unexpected character '" ++ c :: "'"
  | emptySpec _ => "Empty type spec"
  | expectedName _ => "Expected type name"
  | unexpectedToken text _ => "Unexpected token '" ++ text ++ "'"

def message (e : SpecError) : Text :=
  e.cause ++ " at position " ++ toString e.position

end SpecError

namespace Lexeme

def kind : Lexeme → Text
  | name _ => "NAME"
  | args _ => "ARGS"
  | pipe => "PIPE"
  | stop => "EOF"

def value? : Lexeme → Option Text
  | name t | args t => some t
  | pipe => some "|"
  | stop => none

end Lexeme

namespace Token

/-- The token as it is written in a listing of values. -/
def shown (t : Token) : Text :=
  let value := (t.lexeme.value?.map Text.quoted).getD "None"
  "Token(" ++ t.lexeme.kind ++ ", " ++ value ++ ", pos=" ++ toString t.position ++ ")"

def endsBlock (c : CodePoint) : Bool := c = '(' || c = ')' || c = '|'

/-- The inner text of an argument block and what follows the block, after its opening
parenthesis. -/
def block? (cs : Text) : Option (Text × Text) :=
  match cs.dropWhile (!endsBlock ·) with
  | .char ')' :: rest => some (cs.takeWhile (!endsBlock ·), rest)
  | _ => none

theorem length_dropWhile_le (p : CodePoint → Bool) (cs : Text) :
    (cs.dropWhile p).length ≤ cs.length :=
  (List.dropWhile_sublist p).length_le

theorem length_of_block? {cs inner rest : Text} (h : block? cs = some (inner, rest)) :
    rest.length < cs.length := by
  unfold block? at h
  split at h
  · next hd =>
    cases h
    have := length_dropWhile_le (!endsBlock ·) cs
    rw [hd, List.length_cons] at this
    omega
  · cases h

def scanFrom (position : Nat) (cs : Text) : Except SpecError (List Token) :=
  match cs with
  | [] => .ok [⟨.stop, position⟩]
  | c :: rest =>
    if Text.isBlank c then scanFrom (position + 1) rest
    else if c = '|' then (scanFrom (position + 1) rest).map (⟨.pipe, position⟩ :: ·)
    else if c = '(' then
      match _h : block? rest with
      | some (inner, after) =>
        (scanFrom (position + inner.length + 2) after).map
          (⟨.args inner, position⟩ :: ·)
      | none => .error (.unexpectedCharacter c position)
    else if Text.isWord c then
      let more := rest.takeWhile Text.isWord
      (scanFrom (position + more.length + 1) (rest.dropWhile Text.isWord)).map
        (⟨.name (c :: more), position⟩ :: ·)
    else .error (.unexpectedCharacter c position)
termination_by cs.length
decreasing_by
  · simp
  · simp
  · have := length_of_block? _h
    simp only [List.length_cons]
    omega
  · have := length_dropWhile_le Text.isWord rest
    simp only [List.length_cons]
    omega

def scan (spec : Text) : Except SpecError (List Token) :=
  scanFrom 0 spec

end Token

end TreeSpec
