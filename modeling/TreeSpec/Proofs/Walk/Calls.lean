import Mathlib.Data.List.TakeWhile
import TreeSpec.Proofs.Spec.Compilation
import TreeSpec.Proofs.Spec.Evaluation
import TreeSpec.Proofs.Walk.Encounters

/-!
# The calls of a walk

Predicates are asked at leaves only, where the spec is valid and the data is a scalar, and there by
the clauses that are tried. A walk makes just these calls, in the order of the schema and of the
clauses.
-/

namespace TreeSpec

set_option autoImplicit false

namespace Encounter

/-- The clauses that are tried, with the text of the value that they are tried on. -/
def trials (r : Registry) (e : Encounter) : List (Clause × Text) :=
  match e.node, e.data.orMissing with
  | .leaf l, .scalar v =>
    let text := (Value.scalar v).textOf
    if (l.compile r).isValid then ((l.compile r).tried text).map (·, text) else []
  | _, _ => []

def calls (r : Registry) (e : Encounter) : List Call :=
  (e.trials r).flatMap fun t => t.1.calls t.2

end Encounter

section Calls

variable (s : Setting) (path : Path)

theorem Setting.calls_trace (n : Notice) : (s.trace n).filterMap Event.call? = [] :=
  s.filterMap_trace rfl

theorem Attempt.calls_events (a : Attempt) : (a.events s path).filterMap Event.call? = a.calls := by
  have hcalls : (a.calls.map Event.call).filterMap Event.call? = a.calls := by
    simp [List.filterMap_map, Function.comp_def, Event.call?]
  unfold Attempt.events
  rw [List.filterMap_append, List.filterMap_append, hcalls, s.calls_trace]
  split <;> simp [Event.call?]

theorem Setting.calls_reportValue {data : Value} (h : data.isReadable = true) (kind : ErrorKind)
    (spec detail : Text) :
    (s.reportValue kind path spec data detail).trace.filterMap Event.call? = [] := by
  rw [s.reportValue_of_isReadable path h]
  exact s.calls_trace _

theorem Leaf.parsedArgs_of_mem_clauses {l : Leaf} {r : Registry} {c : Clause}
    (h : c ∈ (l.compile r).clauses) : c.parsedArgs = splitArgs c.rawArgs := by
  unfold compile at h
  split at h
  · cases h
  · exact Expression.parsedArgs_of_mem_clauses h

/-- The calls for a scalar are those of the clauses up to the first one that accepts it. -/
theorem Leaf.calls_check_scalar {v : Scalar} {spec : Text} {e : Expression} (he : e.error = none)
    (hsplit : ∀ c ∈ e.clauses, c.parsedArgs = splitArgs c.rawArgs)
    (h : (Value.scalar v).isReadable = true) :
    (check s path spec e (.scalar v)).trace.filterMap Event.call? =
      (e.tried (Value.scalar v).textOf).flatMap (Clause.calls (Value.scalar v).textOf) := by
  have hreport := s.calls_reportValue path h .leaf spec ""
  have hverdict : (if e.accepts (some (Value.scalar v).textOf) then pure ()
      else s.reportValue .leaf path spec (.scalar v) "" : Effect Event Unit).trace.filterMap
        Event.call? = [] := by
    split
    · rfl
    · exact hreport
  rw [check_of_isReadable s path he h, Effect.emit_bind,
    List.filterMap_append, hverdict, List.append_nil, Expression.attempts_some he]
  simp only [List.filterMap_flatMap, Attempt.calls_events, List.flatMap_map]
  exact List.flatMap_congr fun c hc =>
    Clause.calls_attempt (hsplit c (Expression.mem_clauses_of_mem_tried hc)) _

/-- Where there is no scalar, or no valid spec, no call is made. -/
theorem Leaf.calls_check_other {data : Value} {spec : Text} {e : Expression}
    (h : data.isReadable = true) (hnot : e.isValid = false ∨ ∀ v, data ≠ .scalar v) :
    (check s path spec e data).trace.filterMap Event.call? = [] := by
  cases he : e.error with
  | some error => rw [check_of_error s path spec he, s.calls_reportValue path h]
  | none =>
    have hdata := hnot.resolve_left (by simp [Expression.isValid_iff.mpr he])
    cases data with
    | missing =>
      rw [check_missing s path spec he]
      split
      · rfl
      · exact s.calls_reportValue path h ..
    | scalar v => exact absurd rfl (hdata v)
    | sequence | mapping => rw [check_of_not_scalar s path spec he rfl, s.calls_reportValue path h]

theorem Encounter.calls_step {e : Encounter} (h : e.isReadable = true) :
    (e.step s).trace.filterMap Event.call? = e.calls s.registry := by
  cases e using Encounter.cases with
  | leaf path l data =>
    have hdata := (Value.isReadable_orMissing data).trans h
    simp only [step, calls, trials]
    cases hd : data.orMissing with
    | scalar v =>
      rw [hd] at hdata
      cases hvalid : (l.compile s.registry).isValid with
      | true =>
        rw [Leaf.calls_check_scalar s path (Expression.isValid_iff.mp hvalid)
          (fun _ hc => Leaf.parsedArgs_of_mem_clauses hc) hdata]
        simp only [hvalid, if_true, List.flatMap_map]
      | false =>
        rw [Leaf.calls_check_other s path hdata (.inl hvalid)]
        simp only [hvalid, Bool.false_eq_true, if_false, List.flatMap_nil]
    | missing | sequence | mapping =>
      rw [hd] at hdata
      rw [Leaf.calls_check_other s path hdata (.inr fun v h => by cases h)]
      rfl
  | inside path children entries =>
    have hnotices : (step s ⟨path, .branch children, .mapping entries⟩).OnlyNotices :=
      (Node.onlyNotices_enter s path entries).bind fun _ => Effect.onlyNotices_of_trace rfl
    exact hnotices.filterMap_trace fun _ => rfl
  | outside path children data hdata =>
    rw [isReadable_outside path children hdata, ← Value.isReadable_orMissing] at h
    rw [step_outside s path children hdata, s.calls_reportValue path h]
    rfl

/-- The calls of a walk are those of its encounters, up to the first one that cannot be read. -/
theorem Node.calls_inspect (n : Node) (data : Value) :
    (n.inspect s path data).trace.filterMap Event.call? =
      ((n.encounters path data).takeWhile Encounter.isReadable).flatMap
        (Encounter.calls s.registry) := by
  rw [inspect_eq_followAll, Encounter.filterMap_trace_followAll s (fun _ => rfl)]
  exact List.flatMap_congr fun e he => Encounter.calls_step s (List.mem_takeWhile_imp he)

end Calls

end TreeSpec
