import Mathlib.Data.List.TakeWhile
import TreeSpec.Proofs.Spec.Compilation
import TreeSpec.Proofs.Spec.Evaluation
import TreeSpec.Proofs.Walk.Encounters

/-!
# The errors of a walk

The errors that data deserves are listed without walking over it: the nodes of the schema are gone
through in depth first, each is looked up in the data by its path, and a node that is reached has at
most one error. A walk that is completed reports just these errors, and a walk over data whose keys
and scalars have texts is completed.
-/

namespace TreeSpec

set_option autoImplicit false

/-- All keys and scalars have a text. What a sequence holds is never looked at. -/
inductive Value.Renderable : Value → Prop where
  | missing : Renderable missing
  | scalar {s : Scalar} {text : Text} (h : s.toText = .ok text) : Renderable (scalar s)
  | sequence (kind : SequenceKind) (items : List Value) : Renderable (sequence kind items)
  | mapping {entries : List (Scalar × Value)}
      (keys : ∀ e ∈ entries, ∃ text, e.1.toText = .ok text)
      (values : ∀ e ∈ entries, Renderable e.2) : Renderable (mapping entries)

/-- The reserved word is one of the alternatives. -/
def mayBeMissing (spec : Text) : Bool :=
  ((Alternative.parse spec).toOption.getD []).any (·.isOptional)

/-- The error of data at a leaf: a broken spec goes before a wrong shape, and that before a value
that no clause accepts. -/
def Leaf.fault? (r : Registry) (path : Path) (l : Leaf) (data : Value) : Option ValidationError :=
  match (l.compile r).error with
  | some error => some ⟨.schema, path, l.spec, data.textOf, error.message⟩
  | none =>
    match data with
    | .mapping _ | .sequence _ _ => some ⟨.shape, path, l.spec, data.textOf, ""⟩
    | .missing =>
      if mayBeMissing l.spec then none else some ⟨.leaf, path, l.spec, data.textOf, ""⟩
    | .scalar _ =>
      if (l.compile r).clauses.any fun c => (c.attempt data.textOf).passed then none
      else some ⟨.leaf, path, l.spec, data.textOf, ""⟩

namespace Node

def fault? (r : Registry) (path : Path) (n : Node) (data : Value) : Option ValidationError :=
  match n, data.orMissing with
  | leaf l, data => l.fault? r path data
  | branch _, .mapping _ => none
  | branch _, data => some ⟨.shape, path, Value.mappingText, data.textOf, ""⟩

/-- The errors of data at a node and below it, the node having the given path. -/
def faults (r : Registry) (path : Path) (n : Node) (data : Value) : List ValidationError :=
  n.preorder.filterMap fun e => (data.reach e.1).bind (e.2.fault? r (path ++ e.1))

theorem faults_eq_filterMap (r : Registry) (path : Path) (n : Node) (data : Value) :
    n.faults r path data =
      (n.encounters path data).filterMap fun e => e.node.fault? r e.path e.data := by
  unfold faults encounters
  rw [List.filterMap_filterMap]
  congr 1
  funext e
  cases data.reach e.1 <;> rfl

theorem fault?_outside (r : Registry) (path : Path) (children : List (Text × Node)) {data : Value}
    (h : ∀ entries, data ≠ .mapping entries) :
    (branch children).fault? r path data =
      some ⟨.shape, path, Value.mappingText, data.orMissing.textOf, ""⟩ := by
  cases data with
  | mapping entries => exact absurd rfl (h entries)
  | scalar v => cases v <;> rfl
  | missing | sequence => rfl

end Node

/-- A spec that is compiled allows a missing value just if it has the reserved word. -/
theorem Leaf.allowsMissing_compile {l : Leaf} {r : Registry} (h : (l.compile r).error = none) :
    (l.compile r).allowsMissing = mayBeMissing l.spec := by
  unfold compile at h ⊢
  split at h
  · cases h
  · rw [Expression.compile_eq] at h ⊢
    unfold mayBeMissing
    cases hp : Alternative.parse l.spec with
    | error e =>
      rw [hp] at h
      cases h
    | ok alternatives =>
      simp only [hp, Expression.ofAlternatives] at h ⊢
      split at h
      · next hdrop =>
        have hall :=
          List.takeWhile_append_dropWhile (p := Alternative.isKnown r) (l := alternatives)
        rw [hdrop, List.append_nil] at hall
        simp only [hall, Except.toOption, Option.getD_some]
      · cases h

section Report

variable (s : Setting) (path : Path)

theorem Setting.errors_trace (n : Notice) : (s.trace n).filterMap Event.error? = [] :=
  s.filterMap_trace rfl

theorem Setting.errors_report (e : ValidationError) :
    (s.report e).filterMap Event.error? = [e] := by
  rw [report, List.filterMap_cons, s.errors_trace]
  rfl

theorem Attempt.errors_events (a : Attempt) : (a.events s path).filterMap Event.error? = [] := by
  have hcalls : (a.calls.map Event.call).filterMap Event.error? = [] := by
    simp [List.filterMap_eq_nil_iff, Event.error?]
  unfold Attempt.events
  rw [List.filterMap_append, List.filterMap_append, hcalls, s.errors_trace]
  split <;> rfl

theorem errors_flatMap_events (attempts : List Attempt) :
    (attempts.flatMap (Attempt.events s path)).filterMap Event.error? = [] := by
  rw [List.filterMap_flatMap]
  exact List.flatMap_eq_nil_iff.mpr fun a _ => a.errors_events s path

/-- A report of a value that can be read is of one error, which bears the text of the value. -/
theorem Setting.errors_reportValue {data : Value} (h : data.isReadable = true) (kind : ErrorKind)
    (spec detail : Text) :
    (s.reportValue kind path spec data detail).trace.filterMap Event.error? =
      [⟨kind, path, spec, data.textOf, detail⟩] := by
  rw [s.reportValue_of_isReadable path h]
  exact s.errors_report _

/-- A leaf that is checked against data that can be read reports its error and nothing else. -/
theorem Leaf.errors_check {l : Leaf} {data : Value} (h : data.isReadable = true) :
    (check s path l.spec (l.compile s.registry) data).trace.filterMap Event.error? =
      (l.fault? s.registry path data).toList := by
  cases he : (l.compile s.registry).error with
  | some error =>
    rw [check_of_error s path l.spec he, s.errors_reportValue path h]
    simp only [fault?, he, Option.toList_some]
  | none =>
    cases data with
    | missing =>
      rw [check_missing s path l.spec he, allowsMissing_compile he]
      by_cases hm : mayBeMissing l.spec = true
      · simp [hm, fault?, he]
      · simp only [hm, Bool.false_eq_true, if_false, s.errors_reportValue path h, fault?, he,
          Option.toList_some]
    | scalar v =>
      rw [check_of_isReadable s path he h, Effect.emit_bind]
      have htried := errors_flatMap_events s path
        ((l.compile s.registry).attempts (some (Value.scalar v).textOf))
      have haccepts := Expression.accepts_some he (Value.scalar v).textOf
      simp only [List.filterMap_append, htried, List.nil_append, fault?, he, ← haccepts]
      by_cases ha : (l.compile s.registry).accepts (some (Value.scalar v).textOf) = true
      · simp [ha]
      · simp only [ha, Bool.false_eq_true, if_false, s.errors_reportValue path h,
          Option.toList_some]
    | sequence | mapping =>
      rw [check_of_not_scalar s path l.spec he rfl, s.errors_reportValue path h]
      simp only [fault?, he, Option.toList_some]

theorem Encounter.errors_step {e : Encounter} (h : e.isReadable = true) :
    (e.step s).trace.filterMap Event.error? = (e.node.fault? s.registry e.path e.data).toList := by
  cases e using Encounter.cases with
  | leaf path l data => exact Leaf.errors_check s path ((Value.isReadable_orMissing data).trans h)
  | inside path children entries =>
    have hnotices : (step s ⟨path, .branch children, .mapping entries⟩).OnlyNotices :=
      (Node.onlyNotices_enter s path entries).bind fun _ => Effect.onlyNotices_of_trace rfl
    exact hnotices.filterMap_trace fun _ => rfl
  | outside path children data hdata =>
    rw [isReadable_outside path children hdata, ← Value.isReadable_orMissing] at h
    rw [step_outside s path children hdata, s.errors_reportValue path h,
      Node.fault?_outside _ path children hdata]
    rfl

/-- A walk reports the errors of the nodes that it comes to before the first one that cannot be
read. -/
theorem Node.errors_inspect_read (n : Node) (data : Value) :
    (n.inspect s path data).trace.filterMap Event.error? =
      ((n.encounters path data).takeWhile Encounter.isReadable).filterMap fun e =>
        e.node.fault? s.registry e.path e.data := by
  rw [inspect_eq_followAll, Encounter.filterMap_trace_followAll s (fun _ => rfl),
    List.filterMap_eq_flatMap_toList]
  exact List.flatMap_congr fun e he => Encounter.errors_step s (List.mem_takeWhile_imp he)

/-- A walk over data of which everything can be read is completed, and reports the errors that the
data deserves. -/
theorem Node.errors_inspect {n : Node} {data : Value}
    (h : (n.encounters path data).all Encounter.isReadable = true) :
    (n.inspect s path data).result = .ok () ∧
      (n.inspect s path data).trace.filterMap Event.error? = n.faults s.registry path data := by
  refine ⟨?_, ?_⟩
  · rw [inspect_eq_followAll, Encounter.result_followAll, h, if_pos rfl]
  · rw [errors_inspect_read, faults_eq_filterMap,
      List.takeWhile_eq_self_iff.mpr (List.all_eq_true.mp h)]

end Report

section Texts

variable {data : Value}

theorem Value.Renderable.lastOf {entries : List (Scalar × Value)}
    (h : ∀ e ∈ entries, e.2.Renderable)
    (key : Text) : (lastOf key entries).Renderable := by
  unfold Value.lastOf
  cases hf : entries.reverse.find? fun e => e.1.toText.toOption = some key with
  | none => exact .missing
  | some e => exact h e (List.mem_reverse.mp (List.mem_of_find?_eq_some hf))

theorem Value.Renderable.reach (h : data.Renderable) {path : Path} {found : Value}
    (hfound : data.reach path = some found) : found.Renderable := by
  induction path generalizing data with
  | nil =>
    cases hfound
    exact h
  | cons key rest ih =>
    cases h with
    | mapping keys values => exact ih (Renderable.lastOf values key) hfound
    | missing | scalar | sequence => cases hfound

theorem Scalar.not_isTooLong_of_toText {v : Scalar} {text : Text} (h : v.toText = .ok text) :
    v.isTooLong = false := by
  apply Bool.eq_false_iff.mpr
  intro hlong
  rw [v.toText_of_isTooLong hlong] at h
  cases h

/-- All that a walk comes to can be read if keys and scalars have texts. -/
theorem Node.isReadable_of_renderable (path : Path) (n : Node) (h : data.Renderable) :
    (n.encounters path data).all Encounter.isReadable = true := by
  apply List.all_eq_true.mpr
  intro e he
  obtain ⟨⟨p, node⟩, -, hfound⟩ := List.mem_filterMap.mp he
  obtain ⟨found, hreach, rfl⟩ := Option.map_eq_some_iff.mp hfound
  cases h.reach hreach with
  | scalar htext => cases node <;> exact congrArg (!·) (Scalar.not_isTooLong_of_toText htext)
  | missing | sequence => cases node <;> rfl
  | mapping keys values =>
    cases node with
    | leaf l => rfl
    | branch children =>
      apply List.all_eq_true.mpr
      intro entry hentry
      obtain ⟨text, htext⟩ := keys entry hentry
      exact congrArg (!·) (Scalar.not_isTooLong_of_toText htext)

end Texts

end TreeSpec
