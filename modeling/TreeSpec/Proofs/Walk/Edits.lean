import Mathlib.Logic.Relation
import TreeSpec.Proofs.Data.Dictionary
import TreeSpec.Proofs.Walk.Alike
import TreeSpec.Proofs.Walk.LastEntry

/-!
# Edits that no schema sees

A mapping that a branch comes to may have entries that are not asked for, may have its entries in
another order and may spell out that a value is absent. Edits of this kind are made at any branch,
and data that come from each other by them are alike for the schema.
-/

namespace TreeSpec

set_option autoImplicit false

namespace Node

/-- One edit at a mapping that a branch of the node comes to. A key that is put in has a text. -/
inductive Edit : Node → Value → Value → Prop where
  /-- An entry whose key is no name of a child comes in. -/
  | extra {children : List (Text × Node)} {before after : List (Scalar × Value)} {key : Scalar}
      {text : Text} (htext : key.toText = .ok text) (hother : text ∉ Dictionary.keys children)
      (value : Value) :
      Edit (.branch children) (.mapping (before ++ after))
      (.mapping (before ++ (key, value) :: after))
  /-- The entries change places, and the last one of each child's name is the same as before. -/
  | order {children : List (Text × Node)} {entries entries' : List (Scalar × Value)}
      (hperm : entries.Perm entries')
      (hlast : ∀ key ∈ Dictionary.keys children,
        Value.latest? key entries = Value.latest? key entries') :
      Edit (.branch children) (.mapping entries) (.mapping entries')
  /-- A null comes in under a key whose text no key has. -/
  | null {children : List (Text × Node)} {before after : List (Scalar × Value)} {key : Scalar}
      {text : Text} (htext : key.toText = .ok text)
      (hnew : ∀ e ∈ before ++ after, e.1.toText ≠ .ok text) :
      Edit (.branch children) (.mapping (before ++ after))
        (.mapping (before ++ (key, .scalar .null) :: after))
  /-- The value that stands for a child is edited. -/
  | within {children : List (Text × Node)} {before after : List (Scalar × Value)} {key : Scalar}
      {text : Text} {child : Node} {value value' : Value} (htext : key.toText = .ok text)
      (hchild : (text, child) ∈ children) (hlast : ∀ e ∈ after, e.1.toText ≠ .ok text)
      (hedit : Edit child value value') :
      Edit (.branch children) (.mapping (before ++ (key, value) :: after))
        (.mapping (before ++ (key, value') :: after))

/-- No branch has two children of one name. -/
inductive Distinct : Node → Prop where
  | leaf (l : Leaf) : Distinct (.leaf l)
  | branch {children : List (Text × Node)} (names : (Dictionary.keys children).Nodup)
      (below : ∀ e ∈ children, Distinct e.2) : Distinct (.branch children)

variable {n : Node} {data data' : Value}

theorem distinct_ofValue {schema : Value} (h : ofValue schema = .ok n) : n.Distinct := by
  induction schema using Value.induction generalizing n with
  | missing =>
    cases h
    exact .leaf _
  | scalar v =>
    obtain ⟨spec, -, rfl⟩ := ok_of_map h
    exact .leaf _
  | sequence kind items _ =>
    cases h
    exact .leaf _
  | mapping entries ih =>
    obtain ⟨children, hchildren, rfl⟩ := ok_of_map h
    refine .branch (Dictionary.nodup_keys_ofEntries children) fun c hc => ?_
    obtain ⟨e, he, -, hnode⟩ := mem_ofEntries hchildren (Dictionary.mem_of_mem_ofEntries hc)
    exact ih e he hnode

/-- Where names are distinct, there is one child of a name. -/
theorem child_unique {children : List (Text × Node)} (names : (Dictionary.keys children).Nodup)
    {text : Text} {child other : Node} (h : (text, child) ∈ children)
    (hother : (text, other) ∈ children) :
    other = child :=
  congrArg Prod.snd (List.inj_on_of_nodup_map names hother h rfl)

theorem alike_of_latest? {text : Text} {entries entries' : List (Scalar × Value)}
    (h : Value.latest? text entries = Value.latest? text entries') (n : Node) :
    n.Alike (Value.lastOf text entries) (Value.lastOf text entries') := by
  rw [Value.lastOf_eq_latest?, Value.lastOf_eq_latest?, h]
  exact (alike_equivalence n).refl _

theorem Edit.alike (h : n.Edit data data') (hn : n.Distinct) : n.Alike data data' := by
  induction h with
  | @extra children before after key text htext hother value =>
    refine alike_inside (Value.all_insert htext value ..).symm fun e he => alike_of_latest? ?_ e.2
    have hne : e.1 ≠ text := by
      rintro rfl
      exact hother (List.mem_map_of_mem he)
    exact (Value.latest?_insert_of_ne htext hne ..).symm
  | order hperm hlast =>
    exact alike_inside hperm.all_eq fun e he =>
      alike_of_latest? (hlast e.1 (List.mem_map_of_mem he)) e.2
  | @null children before after key text htext hnew =>
    refine alike_inside (Value.all_insert htext _ before after).symm fun e he => ?_
    by_cases heq : e.1 = text
    · have hafter : ∀ e ∈ after, e.1.toText ≠ .ok text :=
        fun e he => hnew e (List.mem_append_right before he)
      rw [heq, Value.lastOf_eq_latest?, Value.lastOf_eq_latest?, Value.latest?_eq_none hnew,
        Value.latest?_insert_self htext hafter]
      exact alike_null e.2
    · exact alike_of_latest? (Value.latest?_insert_of_ne htext heq ..).symm e.2
  | @within children before after key text child value value' htext hchild hlast _ ih =>
    cases hn with
    | branch names below =>
      have hkeys := (Value.all_insert htext value before after).trans
        (Value.all_insert htext value' before after).symm
      refine alike_inside hkeys fun e he => ?_
      by_cases heq : e.1 = text
      · obtain ⟨name, node⟩ := e
        obtain rfl : name = text := heq
        obtain rfl := child_unique names hchild he
        rw [Value.lastOf_eq_latest?, Value.lastOf_eq_latest?,
          Value.latest?_insert_self htext hlast, Value.latest?_insert_self htext hlast]
        exact ih (below _ hchild)
      · have hsame := (Value.latest?_insert_of_ne htext heq value before after).trans
          (Value.latest?_insert_of_ne htext heq value' before after).symm
        exact alike_of_latest? hsame e.2

/-- Data that come from each other by any number of edits, made or undone, are alike. -/
theorem alike_of_edits (hn : n.Distinct) (h : Relation.EqvGen n.Edit data data') :
    n.Alike data data' :=
  (alike_equivalence n).eqvGen_iff.mp (h.mono fun _ _ hedit => hedit.alike hn)

end Node

end TreeSpec
