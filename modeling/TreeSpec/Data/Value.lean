import TreeSpec.Data.Scalar

/-!
# Values

A data tree is made of scalars, sequences and mappings. The marker for a value that is missing is a
value too, so that a walk can go on below an absent key.
-/

namespace TreeSpec

set_option autoImplicit false

inductive SequenceKind where
  | list
  | tuple
  | bytes
  deriving DecidableEq, Repr

def SequenceKind.typeName : SequenceKind → Text
  | list => "list"
  | tuple => "tuple"
  | bytes => "bytes"

inductive Value where
  | missing
  | scalar (s : Scalar)
  | sequence (kind : SequenceKind) (items : List Value)
  /-- The entries in order. Two keys may have the same text. -/
  | mapping (entries : List (Scalar × Value))

namespace Value

@[elab_as_elim] theorem induction {P : Value → Prop} (missing : P .missing)
    (scalar : ∀ s, P (.scalar s))
    (sequence : ∀ kind items, (∀ v ∈ items, P v) → P (.sequence kind items))
    (mapping : ∀ entries : List (Scalar × Value), (∀ e ∈ entries, P e.2) → P (.mapping entries))
    (v : Value) : P v := by
  refine @Value.rec P (fun items => ∀ v ∈ items, P v) (fun entries => ∀ e ∈ entries, P e.2)
    (fun e => P e.2) missing scalar sequence mapping ?_ ?_ ?_ ?_ ?_ v
  · intro v hv
    cases hv
  · intro v rest hv hrest
    exact List.forall_mem_cons.mpr ⟨hv, hrest⟩
  · intro e he
    cases he
  · intro e rest he hrest
    exact List.forall_mem_cons.mpr ⟨he, hrest⟩
  · exact fun _ _ h => h

def missingText : Text := "<missing>"

def mappingText : Text := "<mapping>"

def sequenceText : Text := "<sequence>"

def typeName : Value → Text
  | missing => "_Missing"
  | scalar s => s.typeName
  | sequence kind _ => kind.typeName
  | mapping _ => "dict"

/-- Neither a mapping nor a sequence; the marker counts as a scalar. -/
def isScalar : Value → Bool
  | missing | scalar _ => true
  | sequence _ _ | mapping _ => false

def describe : Value → Except Failure Text
  | missing => .ok missingText
  | scalar s => s.toText
  | sequence _ _ => .ok sequenceText
  | mapping _ => .ok mappingText

/-- The null scalar counts as missing. -/
def orMissing : Value → Value
  | scalar .null => missing
  | v => v

end Value

end TreeSpec
