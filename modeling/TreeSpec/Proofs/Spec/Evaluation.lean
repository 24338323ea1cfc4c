import TreeSpec.Spec.Evaluation

/-!
# What is tried and what is asked

A value is tried against the clauses up to the first one that accepts it, and it is accepted if one
of all clauses accepts it. A trial asks the predicate of its matcher once, however often the matcher
is inverted.
-/

namespace TreeSpec

set_option autoImplicit false

namespace Matcher

/-- The predicate that is asked, under any number of inversions. -/
def predicate? : Matcher → Option Predicate
  | predicate p _ => some p
  | negated inner => inner.predicate?
  | pattern _ _ | undefined _ => none

end Matcher

/-- The calls that a trial makes: that of the predicate, whatever its answer is, and what it looks
up. -/
def Clause.calls (value : Text) (c : Clause) : List Call :=
  match c.matcher.predicate? with
  | some p =>
    let question : Question := ⟨value, c.rawArgs, splitArgs c.rawArgs⟩
    .predicate p.name question :: (p.run question).trace.map .lookup
  | none => []

/-- The clauses up to the first one that accepts the value, or all of them if none does. -/
def Expression.tried (e : Expression) (value : Text) : List Clause :=
  e.clauses.take (e.clauses.findIdx (fun c => (c.attempt value).passed) + 1)

namespace Matcher

theorem trace_ask_of_predicate? {m : Matcher} {p : Predicate} (h : m.predicate? = some p)
    (q : Question) : (m.ask q).trace = .predicate p.name q :: (p.run q).trace.map .lookup := by
  induction m with
  | pattern | undefined => cases h
  | predicate p' description =>
    obtain rfl : p' = p := Option.some.inj h
    rw [ask, Effect.emit_bind]
    exact congrArg (Call.predicate p'.name q :: ·) List.map_eq_flatMap.symm
  | negated inner ih =>
    have hasked : ((negated inner).ask q).trace = (inner.ask q).trace := by
      simp only [ask, bind_pure_comp, Effect.map_trace]
    rw [hasked]
    exact ih h

theorem trace_ask_of_not_predicate {m : Matcher} (h : m.predicate? = none) (q : Question) :
    (m.ask q).trace = [] := by
  induction m with
  | pattern | undefined => rfl
  | predicate => cases h
  | negated inner ih =>
    simp only [ask, bind_pure_comp, Effect.map_trace]
    exact ih h

end Matcher

theorem Clause.calls_attempt {c : Clause} (hsplit : c.parsedArgs = splitArgs c.rawArgs)
    (value : Text) : (c.attempt value).calls = c.calls value := by
  unfold Clause.calls
  rw [← hsplit]
  cases h : c.matcher.predicate? with
  | some p => exact Matcher.trace_ask_of_predicate? h _
  | none => exact Matcher.trace_ask_of_not_predicate h _

theorem any_passed_attemptUntil (value : Text) (clauses : List Clause) :
    (attemptUntil value clauses).any (·.passed) =
      clauses.any (fun c => (c.attempt value).passed) := by
  induction clauses with
  | nil => rfl
  | cons c rest ih =>
    simp only [attemptUntil, List.any_cons]
    by_cases hc : (c.attempt value).passed = true
    · simp [hc]
    · simp only [hc, Bool.false_eq_true, if_false, List.any_cons, ih]

theorem attemptUntil_eq_map_take (value : Text) (clauses : List Clause) :
    attemptUntil value clauses =
      (clauses.take (clauses.findIdx (fun c => (c.attempt value).passed) + 1)).map
        (Clause.attempt value) := by
  induction clauses with
  | nil => rfl
  | cons c rest ih =>
    rw [attemptUntil, List.findIdx_cons]
    by_cases hc : (c.attempt value).passed = true
    · simp [hc]
    · simp only [hc, Bool.false_eq_true, if_false, cond_false, List.take_succ_cons,
        List.map_cons, ih]

namespace Expression

theorem mem_clauses_of_mem_tried {e : Expression} {value : Text} {c : Clause}
    (h : c ∈ e.tried value) : c ∈ e.clauses :=
  List.mem_of_mem_take h

theorem isValid_iff {e : Expression} : e.isValid = true ↔ e.error = none :=
  Option.isNone_iff_eq_none

theorem accepts_none {e : Expression} (h : e.error = none) : e.accepts none = e.allowsMissing := by
  simp only [accepts, verdict, h]

theorem verdict_attempts {e : Expression} (h : e.error = none) (value : Option Text) :
    e.verdict value (e.attempts value) = e.accepts value := by
  simp only [accepts, h]

theorem accepts_some {e : Expression} (h : e.error = none) (value : Text) :
    e.accepts (some value) = e.clauses.any (fun c => (c.attempt value).passed) := by
  simp only [accepts, verdict, attempts, h]
  exact any_passed_attemptUntil value e.clauses

theorem accepts_of_error {e : Expression} {error : SchemaError} (h : e.error = some error)
    (value : Option Text) : e.accepts value = false := by
  simp only [accepts, h]

theorem attempts_some {e : Expression} (h : e.error = none) (value : Text) :
    e.attempts (some value) = (e.tried value).map (Clause.attempt value) := by
  simp only [attempts, h]
  exact attemptUntil_eq_map_take value e.clauses

end Expression

end TreeSpec
