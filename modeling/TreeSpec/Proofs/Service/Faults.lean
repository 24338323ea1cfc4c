import TreeSpec.Proofs.Service.Memory

/-!
# The errors of a check

At every point of a history, a check of data that has texts throughout is completed, and the errors
that it leaves are those that the data deserves by the schema and the present state of the registry.
-/

namespace TreeSpec

set_option autoImplicit false

namespace Service

variable {s : Service}

theorem after_forget (h : s.Sound) (ops : List Operation) :
    (s.after Validator.validate ops).forget = s.forget.after Validator.inspect ops := by
  induction ops generalizing s with
  | nil => rfl
  | cons op ops ih =>
    have hstep : (s.forget.perform Validator.inspect op).1 =
        (s.perform Validator.validate op).1.forget := by rw [perform_forget h op]
    have hrest := ih (h.perform op)
    simp only [after, List.foldl_cons] at hrest ⊢
    rw [hstep, hrest]

theorem schema_perform_inspect (s : Service) (op : Operation) :
    (s.perform Validator.inspect op).1.validator.schema = s.validator.schema := by
  by_cases hcheck : ∃ data, op = .validate data
  · obtain ⟨data, rfl⟩ := hcheck
    simp only [perform, Validator.inspect]
    split <;> rfl
  · exact (perform_of_no_check Validator.inspect s (not_exists.mp hcheck)).1

theorem schema_after_inspect (s : Service) (ops : List Operation) :
    (s.after Validator.inspect ops).validator.schema = s.validator.schema := by
  induction ops generalizing s with
  | nil => rfl
  | cons op ops ih => exact (ih _).trans (schema_perform_inspect s op)

/-- Kept specs apart, a validator at any point of a history has the schema that it was made with. -/
theorem forget_schema_after {schema : Value} {debug : Bool} {r : Registry} {v : Validator}
    (hv : Validator.new schema debug r = .ok v) (others : Nat → Registry) (ops : List Operation) :
    ((begin others v).after Validator.validate ops).validator.schema.forget = v.schema := by
  obtain ⟨hsound, hforget⟩ := sound_begin hv others
  have hafter := after_forget hsound ops
  rw [hforget] at hafter
  exact (congrArg (fun s => s.validator.schema) hafter).trans (schema_after_inspect _ ops)

/-- The next check is that of a validator that keeps no specs. -/
theorem inspect_after {schema : Value} {debug : Bool} {r : Registry} {v : Validator}
    (hv : Validator.new schema debug r = .ok v) (others : Nat → Registry) (ops : List Operation)
    (data : Value) :
    let now := ((begin others v).after Validator.validate ops).validator
    ({ now with schema := v.schema } : Validator).inspect data =
      ((now.validate data).1.forget, (now.validate data).2.retrace Event.lasting) := by
  intro now
  have hnow : now.forget = { now with schema := v.schema } := by
    rw [← forget_schema_after hv others ops]
    rfl
  rw [← hnow]
  exact Validator.validate_forget ((sound_begin hv others).1.after ops).leaves_current data

end Service

namespace Validator

/-- What is read off the events of a check is said in its walk, but for the notice at the end. -/
theorem filterMap_trace_inspect {α : Type} {f : Event → Option α}
    (hf : ∀ n, f (.notice (.finished n)) = none)
    (v : Validator) (data : Value) :
    (v.inspect data).2.trace.filterMap f =
    (v.schema.inspect v.setting [] data).trace.filterMap f := by
  unfold inspect
  simp only
  split
  · rfl
  · rw [List.filterMap_append, v.setting.filterMap_trace (hf _), List.append_nil]

/-- Without memory, a check of data of which everything can be read leaves the errors that the data
deserves. -/
theorem inspect_of_readable {v : Validator} {data : Value}
    (h : (v.schema.encounters [] data).all Encounter.isReadable = true) :
    (v.inspect data).2.result = .ok (v.schema.faults v.registry [] data).isEmpty ∧
      (v.inspect data).1.errors = v.schema.faults v.registry [] data := by
  obtain ⟨hok, herrors⟩ := Node.errors_inspect v.setting [] h
  simp only [inspect, hok, herrors]
  exact ⟨rfl, rfl⟩

end Validator

namespace Service

/-- Whatever was done before, a check reports the errors of the nodes that it comes to before the
first one that cannot be read. -/
theorem errors_validate_read {schema : Value} {debug : Bool} {r : Registry} {v : Validator}
    (hv : Validator.new schema debug r = .ok v) (others : Nat → Registry) (ops : List Operation)
    (data : Value) :
    let now := ((begin others v).after Validator.validate ops).validator
    (now.validate data).2.trace.filterMap Event.error? =
      ((v.schema.encounters [] data).takeWhile Encounter.isReadable).filterMap fun e =>
        e.node.fault? now.registry e.path e.data := by
  intro now
  have hinspect :=
    Validator.filterMap_trace_inspect (f := Event.error?) (fun _ => rfl)
      { now with schema := v.schema } data
  rw [inspect_after hv others ops data] at hinspect
  exact (Event.errors_lasting _).symm.trans (hinspect.trans (Node.errors_inspect_read ..))

end Service

end TreeSpec
