import Mathlib.Logic.Function.Iterate
import TreeSpec.Proofs.Registry.Lookup
import TreeSpec.Proofs.Spec.Single

/-!
# Inverted types

A matcher may be inverted any number of times. Each time turns its answer around, and none of them
hides that it fails. So of a type and its inversion exactly one accepts a value, unless the type
fails on it: then neither does. A name is inverted once, as the inversion of a name is not read from
a name that is itself an inversion.
-/

namespace TreeSpec

set_option autoImplicit false

namespace Matcher

theorem result_ask_predicate (p : Predicate) (description : Text) (q : Question) :
    ((predicate p description).ask q).result = (p.run q).result := by
  rw [ask, Effect.emit_bind]
  rfl

theorem result_ask_negated (m : Matcher) (q : Question) :
    ((negated m).ask q).result = (m.ask q).result.map not := by
  simp only [ask, bind_pure_comp, Effect.map_result]

theorem result_ask_iterate (m : Matcher) (n : Nat) (q : Question) :
    ((negated^[n] m).ask q).result = (m.ask q).result.map not^[n] := by
  induction n with
  | zero => cases hresult : (m.ask q).result <;> rw [Function.iterate_zero, id_eq, hresult] <;> rfl
  | succ n ih =>
    rw [Function.iterate_succ_apply', result_ask_negated, ih, Function.iterate_succ']
    cases (m.ask q).result <;> rfl

theorem kind_iterate (m : Matcher) (n : Nat) :
    (negated^[n] m).kind = (List.replicate n ("no-" : Text)).flatten ++ m.kind := by
  induction n with
  | zero => rfl
  | succ n ih =>
    rw [Function.iterate_succ_apply', kind, ih, List.replicate_succ, List.flatten_cons,
      List.append_assoc]

end Matcher

/-- The alternative with `no` in front of its name. -/
def Alternative.inverted (x : Alternative) : Alternative := ⟨"no" ++ x.name, x.rawArgs⟩

namespace Alternative

variable {x : Alternative}

theorem WellFormed.inverted (h : x.WellFormed) : x.inverted.WellFormed := by
  refine ⟨⟨List.cons_ne_nil _ _, ?_⟩, h.args⟩
  intro c hc
  have hno : ∀ c ∈ ("no" : Text), Text.isWord c = true := by decide +kernel
  rcases List.mem_append.mp hc with hc | hc
  · exact hno c hc
  · exact h.name.2 c hc

theorem isOptional_inverted (x : Alternative) : x.inverted.isOptional = false := by
  apply Bool.eq_false_iff.mpr
  intro h
  have hname := congrArg name (isOptional_iff.mp h)
  cases hname

end Alternative

namespace Expression

variable {r : Registry} {x : Alternative} {m : Matcher}

/-- A type accepts what its matcher says yes to. -/
theorem accepts_type (hx : x.WellFormed) (hnot : x.isOptional = false)
    (hm : r.lookup x.name = some m)
    (value : Text) : (compile r x.spelled).accepts (some value) = true ↔
      (m.ask (x.question value)).result = .ok true :=
  accepts_spelled hx hnot (Registry.resolve_of_lookup hm) value

/-- The bare name of a pattern accepts the values in which the pattern is found. -/
theorem accepts_pattern {name description : Text} {p : Pattern} (hname : name.Name)
    (hnot : name ≠ Alternative.optionalWord) (hm : r.lookup name = some (.pattern p description))
    (value : Text) :
    (compile r name).accepts (some value) = true ↔ p.search value = true := by
  have hx : (⟨name, none⟩ : Alternative).WellFormed := ⟨hname, nofun⟩
  have hoptional : (⟨name, none⟩ : Alternative).isOptional = false := by
    rw [← Bool.not_eq_true, Alternative.isOptional_iff]
    exact fun h => hnot (congrArg Alternative.name h)
  have haccepts := accepts_type hx hoptional hm value
  rw [Alternative.spelled, List.append_nil] at haccepts
  have hask (q : Question) :
      ((Matcher.pattern p description).ask q).result = .ok (p.search q.value) := rfl
  rw [haccepts, hask, Except.ok.injEq]
  rfl

/-- The inversion of a type accepts what the matcher of the type says no to. -/
theorem accepts_inversion (hx : x.WellFormed) (hm : r.lookup x.name = some m)
    (hnone : r.lookup x.inverted.name = none) (value : Text) :
    (compile r x.inverted.spelled).accepts (some value) = true ↔
      (m.ask (x.question value)).result = .ok false := by
  have hresolve := Registry.resolve_negation hx.name.1 hm hnone
  rw [accepts_spelled hx.inverted x.isOptional_inverted hresolve, Matcher.result_ask_negated]
  have hquestion : x.inverted.question value = x.question value := rfl
  rw [hquestion]
  cases (m.ask (x.question value)).result with
  | error e => simp [Except.map]
  | ok answer => cases answer <;> simp [Except.map]

end Expression

namespace Registry

/-- A name that no type bears is not inverted, unless a type bears the name with `no` in front. -/
theorem isRegistered_no_iff {r : Registry} {base : Text} (h : r.lookup base = none) :
    r.isRegistered ("no" ++ base) = true ↔ (r.lookup ("no" ++ base)).isSome = true := by
  rw [isRegistered_iff, or_iff_left_iff_imp]
  rintro ⟨base', hname, -, hbase⟩
  rw [← List.append_cancel_left hname, h] at hbase
  cases hbase

/-- Inverting a matcher any number of times keeps its failures and turns its answer around as often.
Of a type and its inversion with the same arguments exactly one accepts a value, unless the matcher
of the type fails on it: then neither does. The inversion of a name that is not a type itself is no
name. -/
theorem negation_fails_closed :
    (∀ (m : Matcher) (n : Nat) (q : Question),
      (∀ e, ((Matcher.negated^[n] m).ask q).result = .error e ↔ (m.ask q).result = .error e) ∧
      (∀ answer, (m.ask q).result = .ok answer →
        ((Matcher.negated^[n] m).ask q).result = .ok (not^[n] answer)) ∧
      (Matcher.negated^[n] m).kind = (List.replicate n ("no-" : Text)).flatten ++ m.kind) ∧
    (∀ (r : Registry) (x : Alternative) (m : Matcher) (value : Text), x.WellFormed →
      x ≠ Alternative.reserved → r.lookup x.name = some m → r.lookup x.inverted.name = none →
      (∀ answer, (m.ask (x.question value)).result = .ok answer →
        (Expression.compile r x.spelled).accepts (some value) = answer ∧
        (Expression.compile r x.inverted.spelled).accepts (some value) = !answer) ∧
      (∀ e, (m.ask (x.question value)).result = .error e →
        (Expression.compile r x.spelled).accepts (some value) = false ∧
        (Expression.compile r x.inverted.spelled).accepts (some value) = false)) ∧
    (∀ (r : Registry) (base : Text), r.lookup base = none →
      (r.isRegistered ("no" ++ base) = true ↔ (r.lookup ("no" ++ base)).isSome = true)) := by
  refine ⟨?_, ?_, fun r base => isRegistered_no_iff⟩
  · intro m n q
    refine ⟨?_, ?_, Matcher.kind_iterate m n⟩
    · intro e
      rw [Matcher.result_ask_iterate]
      cases (m.ask q).result <;> simp [Except.map]
    · intro answer hanswer
      rw [Matcher.result_ask_iterate, hanswer]
      rfl
  · intro r x m value hx hreserved hm hnone
    have hnot : x.isOptional = false := by
      rw [← Bool.not_eq_true, Alternative.isOptional_iff]
      exact hreserved
    have hyes := Expression.accepts_type hx hnot hm value
    have hno := Expression.accepts_inversion hx hm hnone value
    refine ⟨?_, ?_⟩
    · intro answer hanswer
      rw [hanswer] at hyes hno
      cases answer <;> simp_all
    · intro e he
      rw [he] at hyes hno
      simp_all

/-- A type that fails on the empty text and takes a single character otherwise, and a name of two
negations. -/
theorem negations_of_failing_type :
    let run (q : Question) : Effect Lookup Bool :=
      match q.value with
      | [] => Effect.fail .notImplemented
      | _ :: more => pure more.isEmpty
    let r := (Registry.new 0 [] []).insert "x" (.predicate ⟨"p", "", run⟩ "")
    (Expression.compile r "x( -)").accepts (some []) = false ∧
      (Expression.compile r "nox( -)").accepts (some []) = false ∧
      (Expression.compile r "nox( -)").accepts (some "yz") = true ∧
      r.isRegistered "nox" = true ∧ r.isRegistered "nonox" = false := by
  intro run r
  obtain ⟨-, hspecs, hnames⟩ := negation_fails_closed
  have hx : (⟨"x", some " -"⟩ : Alternative).WellFormed := by
    refine ⟨⟨List.cons_ne_nil _ _, by decide +kernel⟩, ?_⟩
    intro a ha
    obtain rfl := Option.some.inj ha
    decide +kernel
  have hvalue (value : Text) := hspecs r ⟨"x", some " -"⟩ (.predicate ⟨"p", "", run⟩ "") value hx
    (by decide) rfl rfl
  refine ⟨((hvalue []).2 .notImplemented rfl).1, ((hvalue []).2 .notImplemented rfl).2,
    ((hvalue "yz").1 false rfl).2, rfl, ?_⟩
  exact Bool.eq_false_iff.mpr (fun h => absurd ((hnames r "nox" rfl).mp h) (by decide))

end Registry

end TreeSpec
