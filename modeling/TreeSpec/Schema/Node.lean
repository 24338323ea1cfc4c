import TreeSpec.Data.Value
import TreeSpec.Dictionary
import TreeSpec.Spec.Expression

/-!
# Schema trees

A schema tree has a spec at each leaf and named children at each branch. A leaf keeps its compiled
spec together with the state of the registry that it was compiled against.
-/

namespace TreeSpec

set_option autoImplicit false

/-- A compiled spec, and the registry with its version at that time. -/
structure Memo where
  registry : Nat
  version : Nat
  expression : Expression

structure Leaf where
  spec : Text
  /-- Known from the start to be broken. -/
  fault : Option SchemaError
  memo : Option Memo

namespace Leaf

def new (spec : Text) : Leaf := ⟨spec, none, none⟩

def compile (l : Leaf) (r : Registry) : Expression :=
  match l.fault with
  | some error => .broken l.spec error
  | none => .compile r l.spec

/-- The compiled spec that is kept, if it was compiled against the registry as it is now. -/
def kept? (l : Leaf) (r : Registry) : Option Expression :=
  match l.memo with
  | some m => if m.registry = r.ident && m.version = r.version then some m.expression else none
  | none => none

def keep (l : Leaf) (r : Registry) (e : Expression) : Leaf :=
  { l with memo := some ⟨r.ident, r.version, e⟩ }

end Leaf

inductive Node where
  | leaf (l : Leaf)
  | branch (children : List (Text × Node))

namespace Node

@[elab_as_elim] theorem induction {P : Node → Prop} (leaf : ∀ l, P (.leaf l))
    (branch : ∀ children : List (Text × Node), (∀ e ∈ children, P e.2) → P (.branch children))
    (n : Node) : P n := by
  refine @Node.rec P (fun children => ∀ e ∈ children, P e.2) (fun e => P e.2) leaf branch ?_ ?_ ?_ n
  · intro e he
    cases he
  · intro e rest he hrest
    exact List.forall_mem_cons.mpr ⟨he, hrest⟩
  · exact fun _ _ h => h

mutual

/-- The schema tree of a value. A mapping is a branch and the text of a scalar is a spec. Sequences
cannot be checked and become broken leaves. -/
def ofValue : Value → Except Failure Node
  | .mapping entries =>
    (ofEntries entries).map fun children => branch (Dictionary.ofEntries children)
  | .sequence _ _ => .ok (leaf ⟨Value.sequenceText, some .sequence, none⟩)
  | .missing => .ok (leaf (.new Value.missingText))
  | .scalar s => s.toText.map fun spec => leaf (.new spec)

def ofEntries : List (Scalar × Value) → Except Failure (List (Text × Node))
  | [] => .ok []
  | (key, v) :: rest => do
    let name ← key.toText
    let child ← ofValue v
    return (name, child) :: (← ofEntries rest)

end

/-- The children of a branch come from the entries of its mapping. -/
theorem mem_ofEntries {entries : List (Scalar × Value)} {children : List (Text × Node)}
    (h : ofEntries entries = .ok children) {child : Text × Node} (hchild : child ∈ children) :
    ∃ e ∈ entries, e.1.toText = .ok child.1 ∧ ofValue e.2 = .ok child.2 := by
  induction entries generalizing children with
  | nil =>
    cases h
    cases hchild
  | cons e rest ih =>
    obtain ⟨name, hname, h⟩ := ok_of_bind h
    obtain ⟨node, hnode, h⟩ := ok_of_bind h
    obtain ⟨more, hmore, h⟩ := ok_of_bind h
    cases h
    rcases List.mem_cons.mp hchild with rfl | hchild
    · exact ⟨e, List.mem_cons_self, hname, hnode⟩
    · obtain ⟨e', he', htext⟩ := ih hmore hchild
      exact ⟨e', List.mem_cons_of_mem e he', htext⟩

mutual

/-- The tree as it is written in a listing of values. -/
def shown : Node → Text
  | leaf l => "LeafNode(" ++ Text.quoted l.spec ++ ")"
  | branch children =>
    "BranchNode(\x7b" ++ Text.joined ", " (shownChildren children) ++ "\x7d)"

def shownChildren : List (Text × Node) → List Text
  | [] => []
  | (key, child) :: rest => (Text.quoted key ++ ": " ++ child.shown) :: shownChildren rest

end

end Node

end TreeSpec
