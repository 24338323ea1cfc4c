import TreeSpec.Proofs.Builtin.Probes
import TreeSpec.Proofs.Registry.Lookup
import TreeSpec.Proofs.Spec.Compilation
import TreeSpec.Proofs.Walk.Encounters

/-!
# What probes are asked in a walk

If the types of a registry make sensible lookups only, then so do the clauses of the specs that are
compiled against it, and a walk that tries these and the clauses that were kept from earlier walks.
A clause whose probe fails accepts nothing, and it does not matter whether it is inverted.
-/

namespace TreeSpec

set_option autoImplicit false

section Matchers

namespace Matcher

/-- Whatever the matcher is asked, sensible lookups only are made for it. -/
def Discreet (m : Matcher) : Prop := ∀ p, m.predicate? = some p → p.Discreet

variable {m : Matcher}

theorem Discreet.negated (h : m.Discreet) : (negated m).Discreet := h

theorem Discreet.ask (h : m.Discreet) (q : Question) :
    ∀ c ∈ (m.ask q).trace, c.isSensible = true := by
  intro c hc
  cases hp : m.predicate? with
  | none =>
    rw [trace_ask_of_not_predicate hp] at hc
    cases hc
  | some p =>
    rw [trace_ask_of_predicate? hp] at hc
    rcases List.mem_cons.mp hc with rfl | hc
    · rfl
    · obtain ⟨l, hl, rfl⟩ := List.mem_map.mp hc
      exact h p hp q l hl

/-- A matcher fails where its predicate fails. -/
theorem result_ask_of_error {p : Predicate} {q : Question} {e : Failure}
    (hp : m.predicate? = some p)
    (he : (p.run q).result = .error e) : (m.ask q).result = .error e := by
  induction m with
  | pattern | undefined => cases hp
  | predicate p' description =>
    obtain rfl : p' = p := Option.some.inj hp
    rw [ask, Effect.emit_bind]
    exact he
  | negated inner ih =>
    simp only [ask, bind_pure_comp, Effect.map_result, ih hp]
    rfl

end Matcher

def Registry.Discreet (r : Registry) : Prop := ∀ name m, r.lookup name = some m → m.Discreet

def Expression.Discreet (e : Expression) : Prop := ∀ c ∈ e.clauses, c.matcher.Discreet

end Matchers

section Clauses

variable {r : Registry} {spec : Text} {c : Clause}

/-- What a name stands for is a type, or the inversion of one. -/
theorem Registry.matcher_of_resolve {name : Text} {found : Resolution}
    (h : r.resolve name = some found) :
    ∃ m, r.lookup found.name = some m ∧
      found.matcher = if found.negated then .negated m else m := by
  cases hl : r.lookup name with
  | some m =>
    rw [resolve_of_lookup hl] at h
    cases h
    exact ⟨m, hl, rfl⟩
  | none =>
    rw [resolve_of_lookup_eq_none hl] at h
    obtain ⟨⟨base, inverted⟩, hb, rfl⟩ := Option.map_eq_some_iff.mp h
    obtain ⟨-, -, m, hm, rfl⟩ := lookupNegated_eq_some.mp hb
    exact ⟨m, hm, rfl⟩

namespace Expression

theorem matcher_of_mem_clauses (h : c ∈ (compile r spec).clauses) :
    ∃ m, r.lookup c.name = some m ∧ c.matcher = if c.negated then .negated m else m := by
  obtain ⟨-, -, x, -, -, hclause⟩ := exists_alternative_of_mem_clauses h
  obtain ⟨found, hfound, rfl⟩ := Option.map_eq_some_iff.mp hclause
  exact Registry.matcher_of_resolve hfound

theorem discreet_compile (hr : r.Discreet) (spec : Text) : (compile r spec).Discreet := by
  intro c hc
  obtain ⟨m, hm, hmatcher⟩ := matcher_of_mem_clauses hc
  have hdiscreet := hr c.name m hm
  rw [hmatcher]
  split
  · exact hdiscreet.negated
  · exact hdiscreet

theorem exists_clause_of_mem_attempts {e : Expression} {value : Option Text} {a : Attempt}
    (h : a ∈ e.attempts value) :
    ∃ c ∈ e.clauses, ∃ text, value = some text ∧ a = c.attempt text := by
  cases he : e.error with
  | some error => simp [attempts, he] at h
  | none =>
    cases value with
    | none => simp [attempts, he] at h
    | some text =>
      rw [attempts_some he] at h
      obtain ⟨c, hc, rfl⟩ := List.mem_map.mp h
      exact ⟨c, List.mem_of_mem_take hc, text, rfl, rfl⟩

theorem Discreet.attempts {e : Expression} (h : e.Discreet) (value : Option Text) :
    ∀ a ∈ e.attempts value, ∀ c ∈ a.calls, c.isSensible = true := by
  intro a ha c hc
  obtain ⟨clause, hclause, text, -, rfl⟩ := exists_clause_of_mem_attempts ha
  exact (h clause hclause).ask _ c hc

end Expression

/-- A clause of a type that asks a probe, inverted or not, fails where the question is sensible and
the probe fails. -/
theorem Clause.outcome_of_probe {probes : Probes} {kind : Probe} {value : Text} {e : Failure}
    (hc : c ∈ (Expression.compile r spec).clauses)
    (htype : r.lookup c.name = (Builtin.types probes).get? kind.typeName)
    (hsensible : (Lookup.probe kind value).isSensible = true)
    (he : (probes.ask kind value).result = .error e) : (c.attempt value).outcome = .error e := by
  obtain ⟨m, hm, hmatcher⟩ := Expression.matcher_of_mem_clauses hc
  obtain ⟨description, htable⟩ := Builtin.get?_typeName probes kind
  obtain rfl : m = .predicate (Builtin.predicate probes kind) description :=
    Option.some.inj (hm.symm.trans (htype.trans htable))
  have hpredicate : c.matcher.predicate? = some (Builtin.predicate probes kind) := by
    rw [hmatcher]
    split <;> rfl
  have hrun : ((Builtin.predicate probes kind).run (c.question value)).result = .error e := by
    have hsame : (c.question value).value = value := rfl
    rw [Builtin.run_predicate, hsame, if_pos hsensible, Builtin.result_consult]
    exact he
  exact Matcher.result_ask_of_error hpredicate hrun

/-- The alternative is of the type of that name, or of its inversion. -/
def Alternative.IsOf (r : Registry) (name : Text) (x : Alternative) : Prop :=
  x.name = name ∨ x.name = "no" ++ name ∧ r.lookup x.name = none

theorem Alternative.IsOf.name_of_clause? {x : Alternative} {name : Text} {m : Matcher}
    (h : x.IsOf r name)
    (hm : r.lookup name = some m) (hc : x.clause? r = some c) : c.name = name := by
  obtain ⟨found, hfound, rfl⟩ := Option.map_eq_some_iff.mp hc
  rcases h with hname | ⟨hname, hnot⟩
  · rw [hname, Registry.resolve_of_lookup hm] at hfound
    cases hfound
    rfl
  · rw [Registry.resolve_of_lookup_eq_none hnot] at hfound
    obtain ⟨⟨base, inverted⟩, hb, rfl⟩ := Option.map_eq_some_iff.mp hfound
    obtain ⟨hbase, -⟩ := Registry.lookupNegated_eq_some.mp hb
    exact List.append_cancel_left (hbase.symm.trans hname)

/-- Where a probe fails, a spec with no other type than the one that asks it, or its inversion,
rejects the value: all trials fail. -/
theorem Expression.rejects_of_probe {probes : Probes} {kind : Probe} {value name : Text}
    {e : Failure}
    {xs : List Alternative} (hsensible : (Lookup.probe kind value).isSensible = true)
    (he : (probes.ask kind value).result = .error e)
    (htype : r.lookup name = (Builtin.types probes).get? kind.typeName)
    (hparse : Alternative.parse spec = .ok xs)
    (hxs : ∀ x ∈ xs, x.isOptional = true ∨ x.IsOf r name) :
    (∀ a ∈ (compile r spec).attempts (some value), a.outcome = .error e) ∧
      (compile r spec).accepts (some value) = false := by
  obtain ⟨description, htable⟩ := Builtin.get?_typeName probes kind
  have hclauses : ∀ c ∈ (compile r spec).clauses, (c.attempt value).outcome = .error e := by
    intro c hc
    obtain ⟨xs', hparse', x, hx, hoptional, hclause⟩ := exists_alternative_of_mem_clauses hc
    obtain rfl : xs = xs' := Except.ok.inj (hparse.symm.trans hparse')
    rcases hxs x hx with hword | hof
    · rw [hoptional] at hword
      cases hword
    · have hname := hof.name_of_clause? (htype.trans htable) hclause
      rw [← hname] at htype
      exact Clause.outcome_of_probe hc htype hsensible he
  refine ⟨?_, ?_⟩
  · intro a ha
    obtain ⟨c, hc, text, htext, rfl⟩ := exists_clause_of_mem_attempts ha
    obtain rfl := Option.some.inj htext
    exact hclauses c hc
  · cases herror : (compile r spec).error with
    | some error => exact accepts_of_error herror _
    | none =>
      rw [accepts_some herror, List.any_eq_false]
      intro c hc
      simp [Attempt.passed, hclauses c hc]

end Clauses

/-- A call is sensible; other events make no lookups. -/
def Event.IsSensible (e : Event) : Prop := ∀ c, e.call? = some c → c.isSensible = true

def Leaf.Discreet (l : Leaf) : Prop := ∀ m, l.memo = some m → m.expression.Discreet

section Walk

variable {s : Setting} (path : Path)

theorem Effect.OnlyNotices.isSensible {α : Type} {x : Effect Event α} (h : x.OnlyNotices) :
    ∀ e ∈ x.trace, e.IsSensible := by
  intro e he c hc
  obtain ⟨n, rfl⟩ := h e he
  cases hc

theorem Setting.isSensible_trace (s : Setting) (n : Notice) : ∀ e ∈ s.trace n, e.IsSensible :=
  (s.onlyNotices_trace n).isSensible

theorem Setting.isSensible_reportValue (s : Setting) (kind : ErrorKind) (spec : Text) (data : Value)
    (detail : Text) : ∀ e ∈ (s.reportValue kind path spec data detail).trace, e.IsSensible := by
  intro e he c hc
  obtain ⟨error, rfl | rfl⟩ := mem_trace_reportValue he <;> cases hc

theorem Attempt.isSensible_events {a : Attempt} (h : ∀ c ∈ a.calls, c.isSensible = true) :
    ∀ e ∈ a.events s path, e.IsSensible := by
  intro e he c hc
  rcases mem_events he with ⟨called, hcalled, rfl⟩ | ⟨error, rfl⟩ | rfl
  · obtain rfl : called = c := Option.some.inj hc
    exact h called hcalled
  · cases hc
  · cases hc

namespace Leaf

theorem isSensible_check {e : Expression} (h : e.Discreet) (spec : Text) (data : Value) :
    ∀ ev ∈ (check s path spec e data).trace, ev.IsSensible := by
  refine forall_mem_trace_check s path spec ?_ ?_ data
  · exact fun value a ha => a.isSensible_events path (h.attempts value a ha)
  · exact s.isSensible_reportValue path

variable {l : Leaf} {r : Registry}

theorem discreet_compile (hr : r.Discreet) (l : Leaf) : (l.compile r).Discreet := by
  unfold compile
  split
  · intro c hc
    cases hc
  · exact Expression.discreet_compile hr l.spec

/-- What is kept from earlier walks is used, or what is compiled now, which is then kept. -/
theorem Discreet.compiled (h : l.Discreet) (hr : r.Discreet) :
    (l.compiled r).1.Discreet ∧ (l.compiled r).2.1.Discreet := by
  unfold Leaf.compiled
  split
  · next e he =>
    refine ⟨h, ?_⟩
    unfold kept? at he
    split at he
    · next m hm =>
      split at he
      · cases he
        exact h m hm
      · cases he
    · cases he
  · refine ⟨?_, discreet_compile hr l⟩
    intro m hm
    cases hm
    exact discreet_compile hr l

theorem isSensible_visit (h : l.Discreet) (hr : s.registry.Discreet) (data : Value) :
    ∀ e ∈ (l.visit s path data).2.trace, e.IsSensible := by
  apply Effect.forall_mem_trace_bind
  · intro e he c hc
    change e ∈ (l.compiled s.registry).2.2 at he
    unfold compiled at he
    split at he
    · cases he
    · obtain ⟨error, -, rfl⟩ := List.mem_map.mp he
      cases hc
  · intro u
    exact isSensible_check path (h.compiled hr).2 l.spec data

end Leaf

namespace Node

theorem isSensible_visitAll {children : List (Text × Node)}
    (hvisit : ∀ e ∈ children, ∀ path data, (∀ l ∈ e.2.leaves, l.Discreet) →
      ∀ ev ∈ (e.2.visit s path data).2.trace, ev.IsSensible)
    (h : ∀ l ∈ leavesAll children, l.Discreet) (found : Dictionary Value) :
    ∀ ev ∈ (visitAll s path found children).2.trace, ev.IsSensible := by
  induction children with
  | nil =>
    simp only [visitAll]
    intro ev hev
    cases hev
  | cons e rest ih =>
    obtain ⟨key, child⟩ := e
    obtain ⟨hchild, hvisit⟩ := List.forall_mem_cons.mp hvisit
    obtain ⟨hleaves, hmore⟩ := List.forall_mem_append.mp h
    rw [visitAll_cons_snd]
    exact Effect.forall_mem_trace_bind (hchild _ _ hleaves) fun _ => ih hvisit hmore

/-- A walk makes sensible lookups only, whatever it finds and whether or not it is completed. -/
theorem isSensible_visit {n : Node} (h : ∀ l ∈ n.leaves, l.Discreet) (hr : s.registry.Discreet)
    (data : Value) : ∀ ev ∈ (n.visit s path data).2.trace, ev.IsSensible := by
  induction n using Node.induction generalizing path data with
  | leaf l =>
    rw [visit_leaf]
    exact (l.isSensible_visit path (h l (List.mem_singleton.mpr rfl)) hr _)
  | branch children ih =>
    cases hd : data.orMissing with
    | mapping entries =>
      rw [visit_branch_snd s path children hd]
      have hentered := (onlyNotices_enter s path entries).isSensible
      refine Effect.forall_mem_trace_bind hentered fun found => ?_
      exact isSensible_visitAll path (fun e he path data hl => ih e he path hl data) h found
    | missing | scalar | sequence =>
      simp only [visit, hd]
      exact s.isSensible_reportValue path _ _ _ _

end Node

end Walk

end TreeSpec
