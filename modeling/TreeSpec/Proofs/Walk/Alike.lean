import TreeSpec.Proofs.Walk.Calls
import TreeSpec.Proofs.Walk.Faults

/-!
# Data that a node cannot tell apart

What comes of an encounter is whether it can be read, the error that the data deserves and the calls
that are made for it. Data are alike for a node if walks over them come to the same outcomes in the
same order. At a branch this follows from what stands for the children, and everything that a check
answers follows from it.
-/

namespace TreeSpec

set_option autoImplicit false

/-- Whether the encounter can be read, its error, and its calls. -/
def Encounter.outcome (r : Registry) (e : Encounter) : Bool × Option ValidationError × List Call :=
  (e.isReadable, e.node.fault? r e.path e.data, e.calls r)

namespace Node

/-- Walks over the data come to the same outcomes, with every registry. -/
def Alike (n : Node) (data data' : Value) : Prop :=
  ∀ (r : Registry) (path : Path),
    (n.encounters path data).map (Encounter.outcome r) =
      (n.encounters path data').map (Encounter.outcome r)

variable {n : Node} {children : List (Text × Node)} {data data' : Value}

theorem alike_equivalence (n : Node) : Equivalence n.Alike where
  refl _ _ _ := rfl
  symm h r path := (h r path).symm
  trans h h' r path := (h r path).trans (h' r path)

/-- Mappings are alike if all keys of both can be read or not of either, and what stands for a child
in the one is alike for the child to what stands for it in the other. -/
theorem alike_inside {entries entries' : List (Scalar × Value)}
    (hkeys : (entries.all fun e => !e.1.isTooLong) = entries'.all fun e => !e.1.isTooLong)
    (hchildren : ∀ e ∈ children, e.2.Alike (Value.lastOf e.1 entries) (Value.lastOf e.1 entries')) :
    (branch children).Alike (.mapping entries) (.mapping entries') := by
  intro r path
  have hhere : Encounter.outcome r ⟨path, branch children, .mapping entries⟩ =
      Encounter.outcome r ⟨path, branch children, .mapping entries'⟩ := by
    simp only [Encounter.outcome, Encounter.isReadable, hkeys]
    rfl
  rw [encounters_branch, encounters_branch, List.map_cons, List.map_cons, hhere, List.map_flatMap,
    List.map_flatMap]
  exact congrArg _ (List.flatMap_congr fun e he => hchildren e he r _)

/-- A leaf does not look into a mapping. -/
theorem alike_mappings (l : Leaf) (entries entries' : List (Scalar × Value)) :
    (leaf l).Alike (.mapping entries) (.mapping entries') := by
  intro r path
  rw [encounters_leaf, encounters_leaf]
  rfl

/-- Outside of mappings only the data at the node itself counts. -/
theorem alike_outside (hdata : ∀ entries, data ≠ .mapping entries)
    (hdata' : ∀ entries, data' ≠ .mapping entries) (hreadable : data.isReadable = data'.isReadable)
    (hfault : ∀ r path, n.fault? r path data = n.fault? r path data')
    (hcalls : ∀ r path, Encounter.calls r ⟨path, n, data⟩ = Encounter.calls r ⟨path, n, data'⟩) :
    n.Alike data data' := by
  intro r path
  cases n with
  | leaf l =>
    rw [encounters_leaf, encounters_leaf, List.map_singleton, List.map_singleton]
    exact congrArg (fun x => [x]) (Prod.ext hreadable (Prod.ext (hfault r path) (hcalls r path)))
  | branch children =>
    rw [encounters_outside path children hdata, encounters_outside path children hdata',
      List.map_singleton, List.map_singleton]
    simp only [Encounter.outcome, Encounter.isReadable_outside path children hdata,
      Encounter.isReadable_outside path children hdata', hreadable, hfault r path, hcalls r path]

theorem alike_null (n : Node) : n.Alike .missing (.scalar .null) := by
  refine alike_outside (by simp) (by simp) rfl (fun r path => ?_) fun r path => ?_
  · cases n <;> rfl
  · cases n <;> rfl

/-- A scalar other than null is like its text. -/
theorem alike_text {v : Scalar} {text : Text} (hnull : v ≠ .null) (h : v.toText = .ok text)
    (n : Node) : n.Alike (.scalar v) (.scalar (.text text)) := by
  have hmissing : (Value.scalar v).orMissing = .scalar v := by
    cases v <;> first | rfl | exact absurd rfl hnull
  have htext : (Value.scalar v).textOf = text := by
    simp only [Value.textOf, Value.describe, h]
    rfl
  have hfound : (Value.scalar (.text text)).orMissing = .scalar (.text text) ∧
      (Value.scalar (.text text)).textOf = text := ⟨rfl, rfl⟩
  refine alike_outside (by simp) (by simp) ?_ (fun r path => ?_) fun r path => ?_
  · exact congrArg (!·) (Scalar.not_isTooLong_of_toText h)
  · cases n with
    | leaf l =>
      simp only [fault?, Leaf.fault?, hmissing, htext, hfound]
    | branch children =>
      simp only [fault?, hmissing, htext, hfound]
  · cases n with
    | leaf l =>
      simp only [Encounter.calls, Encounter.trials, hmissing, htext, hfound]
    | branch children =>
      simp only [Encounter.calls, Encounter.trials]

namespace Alike

variable (h : n.Alike data data') (r : Registry) (path : Path)

include h

theorem isReadable :
    (n.encounters path data).all Encounter.isReadable =
      (n.encounters path data').all Encounter.isReadable := by
  have hall : ∀ es : List Encounter, es.all Encounter.isReadable =
      (es.map (Encounter.outcome (.new 0 [] []))).all (·.1) := by
    intro es
    rw [List.all_map]
    rfl
  rw [hall, hall, h]

theorem faults : n.faults r path data = n.faults r path data' := by
  have hfaults : ∀ es : List Encounter, (es.filterMap fun e => e.node.fault? r e.path e.data) =
      (es.map (Encounter.outcome r)).filterMap (·.2.1) := by
    intro es
    rw [List.filterMap_map]
    rfl
  rw [faults_eq_filterMap, faults_eq_filterMap, hfaults, hfaults, h]

theorem calls :
    ((n.encounters path data).takeWhile Encounter.isReadable).flatMap (Encounter.calls r) =
      ((n.encounters path data').takeWhile Encounter.isReadable).flatMap (Encounter.calls r) := by
  have hcalls :
      ∀ es : List Encounter, (es.takeWhile Encounter.isReadable).flatMap (Encounter.calls r) =
      ((es.map (Encounter.outcome r)).takeWhile (·.1)).flatMap (·.2.2) := by
    intro es
    rw [List.takeWhile_map, List.flatMap_map]
    rfl
  rw [hcalls, hcalls, h]

end Alike

end Node

end TreeSpec
