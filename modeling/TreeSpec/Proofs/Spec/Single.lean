import TreeSpec.Proofs.Spec.Evaluation
import TreeSpec.Proofs.Spec.Labels

/-!
# Specs of a single alternative

A type name, alone or with an argument block after it, is a spec. It accepts what the matcher behind
the name answers yes to, when that is asked with the arguments of the block.
-/

namespace TreeSpec

set_option autoImplicit false

/-- The alternative can be written in a spec. -/
structure Alternative.WellFormed (x : Alternative) : Prop where
  name : x.name.Name
  args : ∀ a ∈ x.rawArgs, ∀ c ∈ a, Token.endsBlock c = false

/-- What the matcher of an alternative is asked about a value. -/
def Alternative.question (x : Alternative) (value : Text) : Question :=
  ⟨value, x.rawArgs, splitArgs x.rawArgs⟩

namespace Alternative

variable {x : Alternative}

theorem WellFormed.clauseText (h : x.WellFormed) : ClauseText x.spelled x := by
  obtain ⟨name, args⟩ := x
  cases args with
  | none => exact (ClauseText.bare Text.blank_nil h.name Text.blank_nil).spelled
  | some a =>
    exact (ClauseText.block Text.blank_nil h.name Text.blank_nil (h.args a rfl)
      Text.blank_nil).spelled

theorem WellFormed.parse_spelled (h : x.WellFormed) : parse x.spelled = .ok [x] :=
  parse_eq_ok_iff_specText.mpr (.one h.clauseText)

end Alternative

theorem Attempt.passed_iff {a : Attempt} : a.passed = true ↔ a.outcome = .ok true := by
  unfold passed
  cases a.outcome with
  | error e => simp
  | ok b => simp

namespace Expression

variable {r : Registry} {x : Alternative} {found : Resolution}

/-- A spec of one alternative accepts a value just if the matcher that its name stands for says
so. -/
theorem accepts_spelled (hx : x.WellFormed) (hnot : x.isOptional = false)
    (hfound : r.resolve x.name = some found) (value : Text) :
    (compile r x.spelled).accepts (some value) = true ↔
      (found.matcher.ask (x.question value)).result = .ok true := by
  have hclause :
      x.clause? r = some ⟨found.name, found.negated, x.rawArgs, splitArgs x.rawArgs,
        found.matcher⟩ := by
    unfold Alternative.clause?
    rw [hfound]
    rfl
  have hknown : [x].all (Alternative.isKnown r) = true := by
    rw [List.all_cons, List.all_nil, Bool.and_true, Alternative.isKnown, hnot, Bool.false_or,
      Registry.isRegistered, hfound]
    rfl
  have hcompile : compile r x.spelled =
      ⟨x.spelled, [⟨found.name, found.negated, x.rawArgs, splitArgs x.rawArgs, found.matcher⟩],
        false, none⟩ := by
    rw [compile_of_parse hx.parse_spelled hknown]
    simp only [ofKnown, List.filter_cons, List.filter_nil, hnot, Bool.not_false, if_true,
      List.filterMap_cons, List.filterMap_nil, hclause, List.any_cons, List.any_nil, Bool.or_false]
  rw [hcompile, accepts_some rfl, List.any_cons, List.any_nil, Bool.or_false, Attempt.passed_iff]
  rfl

end Expression

end TreeSpec
