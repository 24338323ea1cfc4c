import TreeSpec.Proofs.Registry.Lookup
import TreeSpec.Proofs.Walk.Inspection
import TreeSpec.Validator

/-!
# Histories of a validator

A validator is in service together with all registries, which are told apart by their numbers. It
checks data, types are registered for it or on a registry itself, and it may be given another
registry, also one that it had before. Throughout, a kept spec whose registry is still of the
version of that time is what compiling gives now, so checks agree with those of a validator that
keeps no specs.
-/

namespace TreeSpec

set_option autoImplicit false

namespace Validator

/-- Checks data with a walk that keeps no specs. -/
def inspect (v : Validator) (data : Value) : Validator × Effect Event Bool :=
  let walk := v.schema.inspect v.setting [] data
  match walk.result with
  | .error e => (v, ⟨.error e, walk.trace⟩)
  | .ok _ =>
    let errors := walk.trace.filterMap Event.error?
    ({ v with errors := errors },
      ⟨.ok errors.isEmpty, walk.trace ++ v.setting.trace (.finished errors.length)⟩)

def forget (v : Validator) : Validator := { v with schema := v.schema.forget }

theorem outcome_add {ε : Type} (name : Text) (source : MatcherSource) (description : Text)
    (v : Validator) : ((add name source description).outcome v : Validator × Effect ε Unit) =
      match Matcher.ofSource source description with
      | .ok m => ({ v with registry := v.registry.insert name m }, pure ())
      | .error e => (v, .fail e) := by
  rw [add, Change.outcome_within, Registry.outcome_add]
  cases Matcher.ofSource source description <;> rfl

end Validator

abbrev Check := Validator → Value → Validator × Effect Event Bool

structure Service where
  registries : Nat → Registry
  validator : Validator

inductive Operation where
  | validate (data : Value)
  /-- Registers a type for the validator. -/
  | register (name : Text) (source : MatcherSource) (description : Text)
  /-- Registers a type on a registry itself, whether or not the validator uses it. -/
  | registerOn (ident : Nat) (name : Text) (source : MatcherSource) (description : Text)
  | setDebug (enabled : Bool)
  /-- Gives the validator one of the registries. -/
  | useRegistry (ident : Nat)

namespace Service

/-- A validator with its registry, and other registries under the other numbers. -/
def begin (others : Nat → Registry) (v : Validator) : Service :=
  ⟨fun n => if n = v.registry.ident then v.registry else { others n with ident := n }, v⟩

/-- The state of a registry has changed. A validator that uses it sees the change. -/
def update (s : Service) (r : Registry) : Service where
  registries n := if n = r.ident then r else s.registries n
  validator :=
    if s.validator.registry.ident = r.ident then { s.validator with registry := r } else s.validator

/-- Carries out an operation. The result is that of the check, if there was one. -/
def perform (check : Check) (s : Service) : Operation → Service × Effect Event (Option Bool)
  | .validate data =>
    ({ s with validator := (check s.validator data).1 }, some <$> (check s.validator data).2)
  | .register name source description =>
    let (v, effect) := (Validator.add name source description).outcome s.validator
    ({ s.update v.registry with validator := v }, effect *> pure none)
  | .registerOn ident name source description =>
    let (r, effect) := (Registry.add name source description).outcome (s.registries ident)
    (s.update r, effect *> pure none)
  | .setDebug enabled => ({ s with validator := { s.validator with debug := enabled } }, pure none)
  | .useRegistry ident =>
    ({ s with validator := { s.validator with registry := s.registries ident } }, pure none)

/-- The effects of the operations one after the other, each with the state after it. -/
def course (check : Check) (s : Service) :
    List Operation → List (Effect Event (Option Bool) × Service)
  | [] => []
  | op :: ops =>
    let next := s.perform check op
    (next.2, next.1) :: course check next.1 ops

def after (check : Check) (s : Service) (ops : List Operation) : Service :=
  ops.foldl (fun s op => (s.perform check op).1) s

def forget (s : Service) : Service := { s with validator := s.validator.forget }

end Service

/-- A kept spec is not of a later version than its registry, and if it is of the same version, it is
what compiling gives. -/
def Leaf.Faithful (registries : Nat → Registry) (l : Leaf) : Prop :=
  ∀ m, l.memo = some m → m.version ≤ (registries m.registry).version ∧
    (m.version = (registries m.registry).version → m.expression = l.compile (registries m.registry))

namespace Leaf

variable {registries : Nat → Registry} {l : Leaf} {r : Registry}

theorem Faithful.current (h : l.Faithful registries) (hr : registries r.ident = r) :
    l.Current r := by
  intro e he
  unfold kept? at he
  cases hm : l.memo with
  | none => simp [hm] at he
  | some m =>
    rw [hm] at he
    simp only [Option.ite_none_right_eq_some, Option.some.injEq, Bool.and_eq_true,
      decide_eq_true_eq] at he
    obtain ⟨⟨hident, hversion⟩, rfl⟩ := he
    have hsame := (h m hm).2
    rw [hident, hr] at hsame
    exact hsame hversion

theorem Faithful.compiled (h : l.Faithful registries) (hr : registries r.ident = r) :
    (l.compiled r).1.Faithful registries := by
  unfold Leaf.compiled
  split
  · exact h
  · intro m hm
    cases hm
    refine ⟨?_, fun _ => ?_⟩
    · exact Nat.le_of_eq (congrArg Registry.version hr.symm)
    · exact congrArg l.compile hr.symm

/-- A registry only moves on to a later version, of which no spec is kept. -/
theorem Faithful.update (h : l.Faithful registries)
    (hr : (registries r.ident).version < r.version) :
    l.Faithful fun n => if n = r.ident then r else registries n := by
  intro m hm
  obtain ⟨hle, heq⟩ := h m hm
  by_cases hident : m.registry = r.ident
  -- The new version is later than that of the kept spec, so nothing is said of what was kept.
  · rw [hident] at hle
    simp only [hident, if_true]
    exact ⟨by omega, fun hversion => by omega⟩
  · simp only [hident, if_false]
    exact ⟨hle, heq⟩

end Leaf

namespace Validator

/-- A validator is made with nothing kept and no errors. -/
theorem new_ok {schema : Value} {debug : Bool} {r : Registry} {v : Validator}
    (h : new schema debug r = .ok v) :
    Node.ofValue schema = .ok v.schema ∧ v.registry = r ∧ v.errors = [] := by
  unfold new at h
  split at h
  · obtain ⟨node, hnode, rfl⟩ := ok_of_map h
    exact ⟨hnode, rfl, rfl⟩
  · cases h

/-- Whether a validator can be made does not depend on its registry. -/
theorem new_withRegistry (schema : Value) (debug : Bool) (r other : Registry) :
    new schema debug r = (new schema debug other).map fun v => { v with registry := r } := by
  unfold new
  split
  · cases Node.ofValue (.mapping ‹_›) <;> rfl
  · rfl

theorem validate_registry (v : Validator) (data : Value) :
    (v.validate data).1.registry = v.registry := by
  unfold validate
  simp only
  split <;> rfl

theorem schema_validate (v : Validator) (data : Value) :
    (v.validate data).1.schema = (v.schema.visit v.setting [] data).1 := by
  unfold validate
  simp only
  split <;> rfl

theorem inspect_forget (v : Validator) (data : Value) :
    v.forget.inspect data = ((v.inspect data).1.forget, (v.inspect data).2) := by
  have hwalk : v.forget.schema.inspect v.forget.setting [] data =
      v.schema.inspect v.setting [] data := Node.inspect_forget v.setting [] v.schema data
  simp only [inspect, hwalk]
  split <;> rfl

end Validator

theorem Event.errors_lasting (events : List Event) :
    (events.flatMap Event.lasting).filterMap Event.error? = events.filterMap Event.error? := by
  refine Event.filterMap_flatMap (fun e => ?_) events
  rcases e with c | n | e
  · rfl
  · cases n <;> rfl
  · rfl

/-- Where kept specs are faithful, a check that keeps specs and one that does not find the same. -/
theorem Validator.validate_forget {v : Validator} (h : ∀ l ∈ v.schema.leaves, l.Current v.registry)
    (data : Value) :
    v.forget.inspect data =
      ((v.validate data).1.forget, (v.validate data).2.retrace Event.lasting) := by
  have hwalk := Node.retrace_visit v.setting [] h data
  have hforget : (v.schema.visit v.setting [] data).1.forget = v.schema.forget :=
    Node.forget_visit v.setting [] v.schema data
  have hresult : (v.schema.inspect v.setting [] data).result =
      (v.schema.visit v.setting [] data).2.result := by rw [← hwalk]; rfl
  have htrace : (v.schema.inspect v.setting [] data).trace =
      (v.schema.visit v.setting [] data).2.trace.flatMap Event.lasting := by rw [← hwalk]; rfl
  have hfinished : ∀ (s : Setting) count, (s.trace (.finished count)).flatMap Event.lasting =
      s.trace (.finished count) := by
    intro s count
    unfold Setting.trace
    split <;> rfl
  rw [inspect_forget]
  unfold inspect validate
  cases he : (v.schema.visit v.setting [] data).2.result with
  | error e =>
    simp only [hresult, he, htrace, forget, hforget, Effect.retrace]
  | ok u =>
    simp only [hresult, he, htrace, forget, hforget, Effect.retrace, Event.errors_lasting,
      List.flatMap_append, hfinished]
    rfl

namespace Service

section Registration

variable (check : Check) (s : Service) (name : Text) (source : MatcherSource) (description : Text)

/-- A registration for the validator is one on its registry. -/
theorem perform_register : s.perform check (.register name source description) =
    match Matcher.ofSource source description with
    | .ok m => (s.update (s.validator.registry.insert name m), pure none)
    | .error e => (s.update s.validator.registry, .fail e) := by
  simp only [perform, Validator.outcome_add]
  cases Matcher.ofSource source description with
  | error e => simp only [update, if_true]; rfl
  | ok m => simp only [update, Registry.insert, if_true]; rfl

theorem perform_registerOn (ident : Nat) :
    s.perform check (.registerOn ident name source description) =
      match Matcher.ofSource source description with
      | .ok m => (s.update ((s.registries ident).insert name m), pure none)
      | .error e => (s.update (s.registries ident), .fail e) := by
  simp only [perform, Registry.outcome_add]
  cases Matcher.ofSource source description <;> rfl

end Registration

/-- Registries bear their numbers, the validator has the present state of its registry, and what it
keeps is faithful. -/
structure Sound (s : Service) : Prop where
  ident : ∀ n, (s.registries n).ident = n
  current : s.registries s.validator.registry.ident = s.validator.registry
  faithful : ∀ l ∈ s.validator.schema.leaves, l.Faithful s.registries

variable {s : Service}

theorem Sound.leaves_current (h : s.Sound) :
    ∀ l ∈ s.validator.schema.leaves, l.Current s.validator.registry :=
  fun l hl => (h.faithful l hl).current h.current

theorem Sound.update (h : s.Sound) {r : Registry}
    (hr : (s.registries r.ident).version < r.version) : (s.update r).Sound := by
  refine ⟨?_, ?_, ?_⟩
  · intro n
    by_cases hn : n = r.ident
    · simp only [Service.update, hn, if_true]
    · simp only [Service.update, hn, if_false, h.ident]
  · by_cases hv : s.validator.registry.ident = r.ident
    · simp only [Service.update, hv, if_true]
    · simp only [Service.update, hv, if_false, h.current]
  · intro l hl
    have hschema : (s.update r).validator.schema = s.validator.schema := by
      simp only [Service.update]
      split <;> rfl
    rw [hschema] at hl
    exact (h.faithful l hl).update hr

/-- Putting a registry as it is changes nothing. -/
theorem Sound.update_self (h : s.Sound) {r : Registry} (hr : s.registries r.ident = r) :
    s.update r = s := by
  have hregistries : (fun n => if n = r.ident then r else s.registries n) = s.registries := by
    funext n
    split
    · next hn => rw [hn, hr]
    · rfl
  unfold Service.update
  rw [hregistries]
  split
  · next hident =>
    have hsame : r = s.validator.registry := by rw [← hr, ← hident, h.current]
    rw [hsame]
  · rfl

theorem Sound.update_insert (h : s.Sound) {r : Registry} (hr : s.registries r.ident = r)
    (name : Text) (m : Matcher) : (s.update (r.insert name m)).Sound := by
  refine h.update ?_
  change (s.registries r.ident).version < r.version + 1
  rw [hr]
  exact Nat.lt_succ_self _

theorem Sound.perform (h : s.Sound) (op : Operation) :
    (s.perform Validator.validate op).1.Sound := by
  cases op with
  | validate data =>
    refine ⟨h.ident, ?_, ?_⟩
    · simp only [Service.perform, Validator.validate_registry, h.current]
    · simp only [Service.perform, Validator.schema_validate]
      exact Node.forall_leaves_visit s.validator.setting []
        (fun l hl => hl.compiled h.current) _ data h.faithful
  | register name source description =>
    rw [perform_register]
    cases Matcher.ofSource source description with
    | error e => exact (h.update_self h.current).symm ▸ h
    | ok m => exact h.update_insert h.current name m
  | registerOn ident name source description =>
    have hr : s.registries (s.registries ident).ident = s.registries ident :=
      congrArg s.registries (h.ident ident)
    rw [perform_registerOn]
    cases Matcher.ofSource source description with
    | error e => exact (h.update_self hr).symm ▸ h
    | ok m => exact h.update_insert hr name m
  | setDebug enabled => exact ⟨h.ident, h.current, h.faithful⟩
  | useRegistry ident =>
    refine ⟨h.ident, ?_, h.faithful⟩
    exact congrArg s.registries (h.ident ident)

theorem Sound.after (h : s.Sound) (ops : List Operation) :
    (s.after Validator.validate ops).Sound := by
  induction ops generalizing s with
  | nil => exact h
  | cons op ops ih => exact ih (h.perform op)

end Service

end TreeSpec
