import TreeSpec.Proofs.Service.Memory
import TreeSpec.Proofs.Session.Atomicity
import TreeSpec.Proofs.Spec.Grammar
import TreeSpec.Proofs.Walk.Probes

/-!
# What probes are asked in a session

In a session over the builtin types all matchers make sensible lookups only: those of the
registries, those that are shared and those of the specs that were kept. Requests leave it so, as
long as the types that are registered do not call probes of their own accord.
-/

namespace TreeSpec

set_option autoImplicit false

/-- The predicate that a registration argument brings with it. -/
def MatcherSource.predicate? : MatcherSource → Option Predicate
  | ready m => m.predicate?
  | predicate p => some p
  | compiled _ | compiling _ | unusable _ => none

theorem MatcherSource.predicate?_of_ofSource {source : MatcherSource} {description : Text}
    {m : Matcher}
    (h : Matcher.ofSource source description = .ok m) : m.predicate? = source.predicate? := by
  cases source with
  | compiling t =>
    obtain ⟨p, -, rfl⟩ := ok_of_map h
    rfl
  | unusable => cases h
  | ready | compiled | predicate =>
    cases h
    rfl

namespace Request

/-- The builtin types for the registry that is made. -/
def builtin? : Request → Option (Dictionary Matcher)
  | .act (.newRegistry _ builtin) | .act (.newValidator _ _ _ builtin)
  | .act (.replaceRegistry _ builtin) => some builtin
  | _ => none

/-- Registries are made over the builtin types for some probes, and what is registered does not call
probes itself. -/
structure Proper (q : Request) : Prop where
  builtin : ∀ types, q.builtin? = some types → ∃ probes, types = Builtin.types probes
  argument : ∀ source p, q.argument? = some source → source.predicate? = some p → p.Proper

variable {q : Request} {o : Owner}

theorem builtin?_of_makes? {types : Dictionary Matcher} (h : q.makes? o = some types) :
    q.builtin? = some types := by
  rcases cases_of_makes? h with ⟨id, -, rfl⟩ | ⟨id, schema, debug, -, rfl, -⟩ | ⟨id, -, rfl⟩
  · rfl
  · rfl
  · rfl

theorem Proper.discreet_of_ofSource (hq : q.Proper) {source : MatcherSource}
    (hsource : q.argument? = some source)
    {name description : Text} {t : Text × Matcher}
    (ht : (Matcher.ofSource source description).toOption.map (name, ·) = some t) :
    t.2.Discreet := by
  obtain ⟨m, hm, rfl⟩ := Option.map_eq_some_iff.mp ht
  cases hresult : Matcher.ofSource source description with
  | error e =>
    rw [hresult] at hm
    cases hm
  | ok m' =>
    rw [hresult] at hm
    cases hm
    intro p hp
    rw [MatcherSource.predicate?_of_ofSource hresult] at hp
    exact (hq.argument source p hsource hp).discreet

theorem Proper.discreet_of_adds? (hq : q.Proper) {t : Text × Matcher} (h : q.adds? o = some t) :
    t.2.Discreet := by
  unfold adds? at h
  split at h
  · split at h
    · exact hq.discreet_of_ofSource rfl h
    · cases h
  · split at h
    · exact hq.discreet_of_ofSource rfl h
    · cases h
  · cases h

theorem Proper.discreet_of_shares? (hq : q.Proper) {t : Text × Matcher} (h : q.shares? = some t) :
    t.2.Discreet := by
  unfold shares? at h
  split at h
  · exact hq.discreet_of_ofSource rfl h
  · cases h

end Request

def Answer.calls (a : Answer) : List Call := a.trace.filterMap Event.call?

namespace Registry

theorem discreet_new {ident : Nat} {probes : Probes} {shared : Dictionary Matcher}
    (h : ∀ name m, shared.get? name = some m → m.Discreet) :
    (new ident (Builtin.types probes) shared).Discreet := by
  intro name m hm
  rw [lookup_eq] at hm
  rcases Option.or_eq_some_iff.mp hm with hown | ⟨-, hm⟩
  · cases hown
  · rcases Option.or_eq_some_iff.mp hm with hshared | ⟨-, hbuiltin⟩
    · exact h name m hshared
    · intro p hp
      exact (Builtin.proper_of_get?_types hbuiltin hp).discreet

theorem Discreet.insert {r : Registry} (h : r.Discreet) {t : Text × Matcher} (ht : t.2.Discreet) :
    (r.insert t.1 t.2).Discreet := by
  intro name m hm
  rw [lookup_insert] at hm
  split at hm
  · cases hm
    exact ht
  · exact h name m hm

end Registry

theorem Node.discreet_of_ofValue {schema : Value} {n : Node} (h : Node.ofValue schema = .ok n) :
    ∀ l ∈ n.leaves, l.Discreet := by
  intro l hl m hm
  rw [← Node.forget_ofValue h] at hl
  rw [Node.memo_of_mem_leaves_forget hl] at hm
  cases hm

/-- A check makes sensible lookups only, whether or not it is completed. -/
theorem Validator.isSensible_validate {v : Validator} (h : ∀ l ∈ v.schema.leaves, l.Discreet)
    (hr : v.registry.Discreet) (data : Value) : ∀ e ∈ (v.validate data).2.trace, e.IsSensible := by
  have hwalk : ∀ e ∈ (v.schema.visit v.setting [] data).2.trace, e.IsSensible :=
    Node.isSensible_visit [] h hr data
  unfold validate
  simp only
  split
  · exact hwalk
  · intro e he
    rcases List.mem_append.mp he with he | he
    · exact hwalk e he
    · exact Setting.isSensible_trace _ _ e he

namespace Session

variable {s : Session} {q : Request}

/-- The schema of a validator was made anew, or it is there from before, walked over if there was a
check. -/
theorem origin_of_schema_answer {id : Text} {v : Validator}
    (h : (s.answer q).1.validators.get? id = some v) :
    (∃ schema, Node.ofValue schema = .ok v.schema) ∨
      ∃ u, s.validators.get? id = some u ∧
        (v.schema = u.schema ∨ ∃ data, v.schema = (u.schema.visit u.setting [] data).1) := by
  have hsame : s.validators.get? id = some v → ∃ u, s.validators.get? id = some u ∧
      (v.schema = u.schema ∨ ∃ data, v.schema = (u.schema.visit u.setting [] data).1) :=
    fun hv => ⟨v, hv, .inl rfl⟩
  by_cases hfor : q.owner? = some (.validator id)
  · cases q with
    | act a =>
      cases a with
      | newRegistry | register | registerShared | clearShared => cases hfor
      | newValidator other schema debug builtin =>
        cases hfor
        simp only [answer, perform_newValidator] at h
        cases hnew : Validator.new schema debug (s.makeRegistry builtin) with
        | error e =>
          rw [hnew] at h
          exact .inr (hsame h)
        | ok u =>
          rw [hnew] at h
          simp only [putValidator, Dictionary.get?_put, if_true, Option.some.injEq] at h
          rw [← h]
          exact .inl ⟨schema, (Validator.new_ok hnew).1⟩
      | registerFor other name source description =>
        cases hfor
        simp only [answer, perform_registerFor] at h
        cases hu : s.validators.get? id with
        | none =>
          rw [hu] at h
          exact absurd (hu.symm.trans h) (by simp)
        | some u =>
          rw [hu] at h
          cases hm : Matcher.ofSource source description with
          | error e =>
            simp only [hm] at h
            exact .inr (hu ▸ hsame h)
          | ok m =>
            simp only [hm, putValidator, Dictionary.get?_put, if_true, Option.some.injEq] at h
            rw [← h]
            exact .inr ⟨u, rfl, .inl rfl⟩
      | replaceRegistry other builtin =>
        cases hfor
        simp only [answer, perform, get?_changeValidator] at h
        obtain ⟨u, hu, rfl⟩ := Option.map_eq_some_iff.mp h
        exact .inr ⟨u, hu, .inl rfl⟩
      | setDebug other enabled =>
        cases hfor
        simp only [answer, perform, get?_changeValidator] at h
        obtain ⟨u, hu, rfl⟩ := Option.map_eq_some_iff.mp h
        exact .inr ⟨u, hu, .inl rfl⟩
      | validate other data =>
        cases hfor
        simp only [answer, perform] at h
        cases hu : s.validators.get? id with
        | none =>
          rw [hu] at h
          exact absurd (hu.symm.trans h) (by simp)
        | some u =>
          simp only [hu, putValidator, Dictionary.get?_put, if_true, Option.some.injEq] at h
          rw [← h]
          exact .inr ⟨u, rfl, .inr ⟨data, u.schema_validate data⟩⟩
    | lookup | lookupNegated | resolve | compile | errors => exact .inr (hsame h)
  · exact .inr (hsame ((validators_congr (find?_answer_of_owner?_ne hfor)).symm.trans h))

/-- All matchers that can be reached make sensible lookups only. -/
structure Discreet (s : Session) : Prop where
  shared : ∀ name m, s.shared.get? name = some m → m.Discreet
  registry : ∀ o r, s.registryOf o = some r → r.Discreet
  kept : ∀ id v, s.validators.get? id = some v → ∀ l ∈ v.schema.leaves, l.Discreet

theorem discreet_empty : empty.Discreet := by
  refine ⟨?_, ?_, ?_⟩
  · intro name m hm
    cases hm
  · intro o r hr
    cases o <;> cases hr
  · intro id v hv
    cases hv

theorem Discreet.registry_of_validator (h : s.Discreet) {id : Text} {v : Validator}
    (hv : s.validators.get? id = some v) : v.registry.Discreet := by
  apply h.registry (.validator id)
  rw [registryOf, hv]
  rfl

theorem Discreet.answer (h : s.Discreet) (hq : q.Proper) : (s.answer q).1.Discreet := by
  -- A matcher that is there after the request was there before, or the request brought it with it.
  refine ⟨?_, ?_, ?_⟩
  · intro name m hm
    rw [shared_answer] at hm
    split at hm
    · cases hm
    · cases hshares : q.shares? with
      | none =>
        rw [hshares] at hm
        exact h.shared name m hm
      | some t =>
        rw [hshares, Option.elim_some, Dictionary.get?_put] at hm
        split at hm
        · cases hm
          exact hq.discreet_of_shares? hshares
        · exact h.shared name m hm
  · intro o r' hr'
    cases hmakes : q.makes? o with
    | none =>
      rw [registryOf_answer hmakes] at hr'
      obtain ⟨r, hr, rfl⟩ := Option.map_eq_some_iff.mp hr'
      have hdiscreet := h.registry o r hr
      cases hadds : q.adds? o with
      | none => exact hdiscreet
      | some t => exact hdiscreet.insert (hq.discreet_of_adds? hadds)
    | some types =>
      obtain ⟨probes, rfl⟩ := hq.builtin types (Request.builtin?_of_makes? hmakes)
      rw [registryOf_answer_of_makes? hmakes] at hr'
      split at hr'
      · cases hr'
        exact Registry.discreet_new h.shared
      · cases hr'
  · intro id v hv
    rcases origin_of_schema_answer hv with ⟨schema, hschema⟩ | ⟨u, hu, hsame | ⟨data, hwalked⟩⟩
    · exact Node.discreet_of_ofValue hschema
    · rw [hsame]
      exact h.kept id u hu
    · have hregistry := h.registry_of_validator hu
      rw [hwalked]
      exact Node.forall_leaves_visit u.setting [] (fun l hl => (hl.compiled hregistry).1)
        u.schema data
        (h.kept id u hu)

theorem Discreet.after (h : s.Discreet) {qs : List Request} (hqs : ∀ q ∈ qs, q.Proper) :
    (s.after qs).Discreet := by
  induction qs generalizing s with
  | nil => exact h
  | cons q qs ih =>
    obtain ⟨hq, hrest⟩ := List.forall_mem_cons.mp hqs
    exact ih (h.answer hq) hrest

theorem trace_answer_validate (s : Session) (id : Text) (data : Value) :
    (s.answer (.act (.validate id data))).2.trace =
      (s.validators.get? id).elim [] fun v => (v.validate data).2.trace := by
  simp only [answer, perform]
  cases s.validators.get? id with
  | none => rfl
  | some v =>
    change ((v.validate data).2 >>= fun _ => pure ()).trace = (v.validate data).2.trace
    rw [bind_pure_comp, Effect.map_trace]

theorem Discreet.calls_answer (h : s.Discreet) (q : Request) :
    ∀ c ∈ (s.answer q).2.calls, c.isSensible = true := by
  intro c hc
  obtain ⟨event, hevent, hcall⟩ := List.mem_filterMap.mp hc
  by_cases hcheck : ∃ id data, q = .act (.validate id data)
  · obtain ⟨id, data, rfl⟩ := hcheck
    rw [trace_answer_validate] at hevent
    cases hv : s.validators.get? id with
    | none =>
      rw [hv] at hevent
      cases hevent
    | some v =>
      rw [hv] at hevent
      exact v.isSensible_validate (h.kept id v hv) (h.registry_of_validator hv) data event
        hevent c hcall
  · have hno : ∀ id data, q ≠ .act (.validate id data) := fun id data h => hcheck ⟨id, data, h⟩
    rw [trace_answer_of_no_check hno] at hevent
    cases hevent

theorem Discreet.calls_course (h : s.Discreet) {qs : List Request} (hqs : ∀ q ∈ qs, q.Proper) :
    ∀ a ∈ s.course qs, ∀ c ∈ a.2.calls, c.isSensible = true := by
  induction qs generalizing s with
  | nil =>
    intro a ha
    cases ha
  | cons q qs ih =>
    obtain ⟨hq, hrest⟩ := List.forall_mem_cons.mp hqs
    intro a ha
    rcases List.mem_cons.mp ha with rfl | ha
    · exact h.calls_answer q
    · exact ih (h.answer hq) hrest a ha

/-- In a session over builtin types, with anything registered on top that does not call probes
itself, all lookups are sensible: those on the way to the answers, and those for a matcher that a
registry finds or inverts and for a spec that is compiled against it, whatever these are asked.
Where a probe fails on a sensible question, each spec whose types are the one that asks it and its
inversion rejects the value, as all trials fail. -/
theorem probes_asked_sensibly {qs : List Request} (hqs : ∀ q ∈ qs, q.Proper) :
    (∀ a ∈ empty.course qs, ∀ c ∈ a.2.calls, c.isSensible = true) ∧
    ∀ o r, (empty.after qs).registryOf o = some r →
      (∀ name m, (r.lookup name = some m ∨ ∃ base, r.lookupNegated name = some (base, m)) →
        ∀ q, ∀ c ∈ (m.ask q).trace, c.isSensible = true) ∧
      (∀ spec value, ∀ a ∈ (Expression.compile r spec).attempts value,
        ∀ c ∈ a.calls, c.isSensible = true) ∧
      ∀ probes kind value e, (Lookup.probe kind value).isSensible = true →
        (probes.ask kind value).result = .error e →
        ∀ name, r.lookup name = (Builtin.types probes).get? kind.typeName →
        ∀ spec xs, Alternative.parse spec = .ok xs →
          (∀ x ∈ xs, x.isOptional = true ∨ x.IsOf r name) →
          (∀ a ∈ (Expression.compile r spec).attempts (some value), a.outcome = .error e) ∧
            (Expression.compile r spec).accepts (some value) = false := by
  refine ⟨discreet_empty.calls_course hqs, ?_⟩
  intro o r hr
  have hdiscreet : r.Discreet := (discreet_empty.after hqs).registry o r hr
  refine ⟨?_, ?_, ?_⟩
  · intro name m hm
    rcases hm with hm | ⟨base, hm⟩
    · exact (hdiscreet name m hm).ask
    · obtain ⟨-, -, inner, hinner, rfl⟩ := Registry.lookupNegated_eq_some.mp hm
      exact (hdiscreet base inner hinner).negated.ask
  · intro spec value
    exact (Expression.discreet_compile hdiscreet spec).attempts value
  · intro probes kind value e hsensible he name htype spec xs hparse hxs
    exact Expression.rejects_of_probe hsensible he htype hparse hxs

/-- The host is looked up under its name and no account under the empty text, a type on top of the
builtin ones accepts in the end, and the inversion of the type whose probe failed rejects. -/
theorem lookups_of_failing_probes :
    let probes : Probes := ⟨fun _ => .fail .notImplemented, fun _ => pure true,
      fun _ => .fail .notImplemented, fun _ => pure true⟩
    let listed : Predicate := ⟨"listed", "", fun q => do
      Effect.emit [.table ⟨"list", q.value⟩]
      return true⟩
    let schema : Value := .mapping [(.text "a", .scalar (.text "noresolvablehost | listed")),
      (.text "b", .scalar (.text "resolvablehost | user | nogroup"))]
    let data : Value := .mapping [(.text "a", .scalar (.text "h")), (.text "b", .scalar (.text ""))]
    let made : Request := .act (.newValidator "_" schema false (Builtin.types probes))
    let later : List Request :=
      [.act (.registerFor "_" "listed" (.predicate listed) ""), .act (.validate "_" data)]
    (empty.course (made :: later)).flatMap (·.2.calls) =
        [.predicate "resolvablehost" ⟨"h", none, []⟩, .lookup (.probe .host "h"),
          .predicate "listed" ⟨"h", none, []⟩, .lookup (.table ⟨"list", "h"⟩),
          .predicate "resolvablehost" ⟨"", none, []⟩, .predicate "user" ⟨"", none, []⟩,
          .predicate "group" ⟨"", none, []⟩] ∧
      (∀ a ∈ empty.course (made :: later), ∀ c ∈ a.2.calls, c.isSensible = true) ∧
      ∃ r, (empty.after (made :: later)).registryOf (.validator "_") = some r ∧
        (Expression.compile r "noresolvablehost").accepts (some "h") = false := by
  intro probes listed schema data made later
  have hlisted : listed.SparesProbes := by
    intro q kind value h
    cases List.mem_singleton.mp h
  have hqs : ∀ q ∈ made :: later, q.Proper := by
    intro q hq
    simp only [later, List.mem_cons, List.not_mem_nil, or_false] at hq
    rcases hq with rfl | rfl | rfl
    · exact ⟨fun types h => ⟨probes, (Option.some.inj h).symm⟩, fun source p h => by cases h⟩
    · refine ⟨fun types h => (by cases h), fun source p h hp => ?_⟩
      cases h
      cases hp
      exact .inl hlisted
    · exact ⟨fun types h => (by cases h), fun source p h => by cases h⟩
  obtain ⟨hcalls, hregistry⟩ := probes_asked_sensibly hqs
  have hmakes : ∀ q ∈ later, q.makes? (.validator "_") = none := by
    intro q hq
    simp only [later, List.mem_cons, List.not_mem_nil, or_false] at hq
    rcases hq with rfl | rfl <;> rfl
  have hr : (empty.after (made :: later)).registryOf (.validator "_") = _ :=
    registryOf_after (s := (empty.answer made).1) hmakes
  refine ⟨by decide +kernel, hcalls, _, hr, ?_⟩
  obtain ⟨-, -, hfails⟩ := hregistry _ _ hr
  have hhost : (Lookup.probe .host "h").isSensible = true := by decide +kernel
  have hparse : Alternative.parse "noresolvablehost" = .ok [⟨"noresolvablehost", none⟩] :=
    Alternative.parse_name ⟨by decide, by decide +kernel⟩
  refine (hfails probes .host "h" .notImplemented hhost rfl "resolvablehost" rfl _ _ hparse ?_).2
  intro x hx
  rw [List.mem_singleton.mp hx]
  exact .inr (.inr ⟨rfl, rfl⟩)

end Session

end TreeSpec
