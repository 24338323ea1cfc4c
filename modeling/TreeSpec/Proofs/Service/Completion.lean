import TreeSpec.Builtin.Types
import TreeSpec.Proofs.Service.Faults

/-!
# Which checks are completed

Neither the data nor a spec nor a failing matcher keeps a check from being completed, whatever was
done before. Only an integer of too many digits does, where it is a scalar that the walk comes to or
a key of a mapping that it enters. A check that is not completed leaves the errors of the one
before.
-/

namespace TreeSpec

set_option autoImplicit false

theorem Scalar.isTooLong_natCast {n : Nat} (h : Nat.pow 10 maxDigits ≤ n) :
    (int n).isTooLong = true := by
  rw [← Int.natAbs_natCast n] at h
  exact decide_eq_true (pow_le_iff_lt_length_digits.mp h)

namespace Validator

/-- Without memory, a check fails just at an integer that is too long, and it keeps the errors
then. -/
theorem inspect_of_not_readable {v : Validator} {data : Value}
    (h : (v.schema.encounters [] data).all Encounter.isReadable = false) :
    (v.inspect data).2.result = .error .integerTooLong ∧ (v.inspect data).1.errors = v.errors := by
  have hresult : (v.schema.inspect v.setting [] data).result = .error .integerTooLong := by
    rw [Node.inspect_eq_followAll, Encounter.result_followAll, h, if_neg Bool.false_ne_true]
  simp only [inspect, hresult, and_self]

/-- One key that is too long is enough, also if no node of the schema asks for it. -/
theorem validate_fails_of_key (v : Validator) {children : List (Text × Node)}
    (hschema : v.schema = .branch children) {entries : List (Scalar × Value)} {e : Scalar × Value}
    (he : e ∈ entries) (h : e.1.isTooLong = true) :
    (v.validate (.mapping entries)).2.result = .error .integerTooLong := by
  have hwalk :
      (v.schema.visit v.setting [] (.mapping entries)).2.result = .error .integerTooLong := by
    rw [hschema, Node.visit_branch_snd v.setting [] children rfl,
      Effect.bind_of_error (Node.enter_fails v.setting [] he h)]
  simp only [validate, hwalk]

end Validator

namespace Service

/-- Whatever was done before, a check is completed just if all that has to be written of the data it
comes to can be, and then its errors are there and its result says whether there are any. Otherwise
it fails for an integer that is too long, and the errors stay as they were. -/
theorem validate_completed_iff {schema : Value} {debug : Bool} {r : Registry} {v : Validator}
    (hv : Validator.new schema debug r = .ok v) (others : Nat → Registry) (ops : List Operation)
    (data : Value) :
    let now := ((begin others v).after Validator.validate ops).validator
    let readable := (v.schema.encounters [] data).all Encounter.isReadable
    ((∃ b, (now.validate data).2.result = .ok b) ↔ readable = true) ∧
      (readable = true →
        (now.validate data).2.result = .ok (v.schema.faults now.registry [] data).isEmpty ∧
        (now.validate data).1.errors = v.schema.faults now.registry [] data) ∧
      (readable = false →
        (now.validate data).2.result = .error .integerTooLong ∧
        (now.validate data).1.errors = now.errors) := by
  intro now readable
  have hcheck := inspect_after hv others ops data
  have hcompleted : readable = true →
      (now.validate data).2.result = .ok (v.schema.faults now.registry [] data).isEmpty ∧
        (now.validate data).1.errors = v.schema.faults now.registry [] data := by
    intro h
    have hinspect := Validator.inspect_of_readable (v := { now with schema := v.schema }) h
    rw [hcheck] at hinspect
    exact hinspect
  have hfailed : readable = false →
      (now.validate data).2.result = .error .integerTooLong ∧
        (now.validate data).1.errors = now.errors := by
    intro h
    have hinspect := Validator.inspect_of_not_readable (v := { now with schema := v.schema }) h
    rw [hcheck] at hinspect
    exact hinspect
  refine ⟨⟨?_, fun h => ⟨_, (hcompleted h).1⟩⟩, hcompleted, hfailed⟩
  rintro ⟨b, hb⟩
  apply Bool.of_not_eq_false
  intro h
  rw [(hfailed h).1] at hb
  cases hb

/-- A type without a meaning is asked, and an integer that is too long stands in a sequence. -/
theorem completed_with_undefined_type :
    let schema : Value :=
      .mapping [(.text "a", .scalar (.text "no_")), (.text "b", .scalar (.text "|"))]
    let data : Value := .mapping [(.text "a", .scalar (.bool true)),
      (.text "b", .sequence .list [.scalar (.int (Nat.pow 10 maxDigits))])]
    let ops : List Operation := [.register "_" (.ready (.undefined "")) ""]
    ∃ v, Validator.new schema false (.new 0 [] []) = .ok v ∧
      (v.schema.encounters [] data).all Encounter.isReadable = true ∧
      ((((begin (fun n => .new n [] []) v).after Validator.validate ops).validator).validate
        data).2.result = .ok false := by
  intro schema data ops
  have hv : Validator.new schema false (.new 0 [] []) = .ok _ := rfl
  refine ⟨_, rfl, by decide +kernel, ?_⟩
  refine ((validate_completed_iff hv (fun n => .new n [] []) ops data).2.1
    (by decide +kernel)).1.trans ?_
  exact congrArg Except.ok (by decide +kernel)

/-- A key that no node of the schema asks for keeps a check from being completed. -/
theorem validate_fails_on_long_key :
    let schema : Value := .mapping [(.text "a", .scalar (.text "word"))]
    let long : Scalar × Value := (.int (Nat.pow 10 maxDigits), .scalar (.text "y"))
    ∃ v, Validator.new schema false (.new 0 (Builtin.types World.empty.probes) []) = .ok v ∧
      (v.validate (.mapping [(.text "a", .scalar (.text "x")), long])).2.result =
        .error .integerTooLong := by
  intro schema long
  have hv : Validator.new schema false (.new 0 (Builtin.types World.empty.probes) []) = .ok _ := rfl
  have hlong : long.1.isTooLong = true := Scalar.isTooLong_natCast (Nat.le_refl _)
  have hmem : long ∈ [(.text "a", .scalar (.text "x")), long] :=
    List.mem_cons_of_mem _ List.mem_cons_self
  exact ⟨_, hv, Validator.validate_fails_of_key _ rfl hmem hlong⟩

end Service

end TreeSpec
