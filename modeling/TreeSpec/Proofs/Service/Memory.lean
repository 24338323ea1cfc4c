import TreeSpec.Proofs.Service.History
import TreeSpec.Proofs.Walk.Faults

/-!
# Kept specs cannot be seen

Dropping everything that a validator keeps commutes with every operation, where checks keep specs on
the one side and do not on the other. So the two kinds of validators give the same answers along
every history, and what is said of errors is about the latest check that was completed.
-/

namespace TreeSpec

set_option autoImplicit false

namespace Node

theorem forgetAll_eq_self {children : List (Text × Node)} (h : ∀ e ∈ children, e.2.forget = e.2) :
    forgetAll children = children := by
  induction children with
  | nil => rfl
  | cons e rest ih =>
    obtain ⟨hchild, hrest⟩ := List.forall_mem_cons.mp h
    simp only [forgetAll, hchild, ih hrest]

theorem forget_ofValue {schema : Value} {n : Node} (h : ofValue schema = .ok n) : n.forget = n := by
  induction schema using Value.induction generalizing n with
  | missing =>
    cases h
    rfl
  | scalar v =>
    obtain ⟨spec, -, rfl⟩ := ok_of_map h
    rfl
  | sequence kind items _ =>
    cases h
    rfl
  | mapping entries ih =>
    obtain ⟨children, hchildren, rfl⟩ := ok_of_map h
    have hall : ∀ c ∈ Dictionary.ofEntries children, c.2.forget = c.2 := by
      intro c hc
      obtain ⟨e, he, -, hnode⟩ := mem_ofEntries hchildren (Dictionary.mem_of_mem_ofEntries hc)
      exact ih e he hnode
    rw [forget, forgetAll_eq_self hall]

mutual

theorem memo_of_mem_leaves_forget : ∀ {n : Node} {l : Leaf}, l ∈ n.forget.leaves → l.memo = none
  | leaf _, _, h => by
    rw [List.mem_singleton.mp h]
  | branch _, _, h => memo_of_mem_leavesAll_forgetAll h

theorem memo_of_mem_leavesAll_forgetAll : ∀ {children : List (Text × Node)} {l : Leaf},
    l ∈ leavesAll (forgetAll children) → l.memo = none
  | [], _, h => by cases h
  | (_, child) :: rest, _, h => by
    rcases List.mem_append.mp h with h | h
    · exact memo_of_mem_leaves_forget h
    · exact memo_of_mem_leavesAll_forgetAll h

end

end Node

namespace Service

variable {s : Service}

theorem forget_update (r : Registry) : s.forget.update r = (s.update r).forget := by
  by_cases h : s.validator.registry.ident = r.ident
  · simp only [update, forget, Validator.forget, h, if_true]
  · simp only [update, forget, Validator.forget, h, if_false]

/-- A service that keeps specs goes through the same states as one that does not, kept specs
apart. -/
theorem perform_forget (h : s.Sound) (op : Operation) :
    s.forget.perform Validator.inspect op =
      ((s.perform Validator.validate op).1.forget,
        (s.perform Validator.validate op).2.retrace Event.lasting) := by
  cases op with
  | validate data =>
    have hcheck := Validator.validate_forget h.leaves_current data
    simp only [perform, forget, hcheck, map_eq_pure_bind, Effect.retrace_bind, Effect.retrace_pure]
  | register name source description =>
    rw [perform_register, perform_register]
    cases Matcher.ofSource source description with
    | error e => exact Prod.ext (forget_update s.validator.registry) rfl
    | ok m => exact Prod.ext (forget_update (s.validator.registry.insert name m)) rfl
  | registerOn ident name source description =>
    rw [perform_registerOn, perform_registerOn]
    cases Matcher.ofSource source description with
    | error e => exact Prod.ext (forget_update (s.registries ident)) rfl
    | ok m => exact Prod.ext (forget_update ((s.registries ident).insert name m)) rfl
  | setDebug enabled => rfl
  | useRegistry ident => rfl

theorem course_forget (h : s.Sound) (ops : List Operation) :
    s.forget.course Validator.inspect ops =
      (s.course Validator.validate ops).map fun e => (e.1.retrace Event.lasting, e.2.forget) := by
  induction ops generalizing s with
  | nil => rfl
  | cons op ops ih =>
    simp only [course, perform_forget h op, List.map_cons, ih (h.perform op)]

/-- A validator that was just made keeps nothing, whatever other registries there are. -/
theorem sound_begin {schema : Value} {debug : Bool} {r : Registry} {v : Validator}
    (hv : Validator.new schema debug r = .ok v) (others : Nat → Registry) :
    (begin others v).Sound ∧ (begin others v).forget = begin others v := by
  have hforget := Node.forget_ofValue (Validator.new_ok hv).1
  refine ⟨⟨?_, ?_, ?_⟩, ?_⟩
  · intro n
    by_cases hn : n = v.registry.ident
    · simp only [begin, hn, if_true]
    · simp only [begin, hn, if_false]
  · simp only [begin, if_true]
  · intro l hl m hm
    have hmemo : l.memo = none := Node.memo_of_mem_leaves_forget (hforget.symm ▸ hl)
    rw [hmemo] at hm
    cases hm
  · simp only [forget, begin, Validator.forget, hforget]

/-- What can be seen of an operation: its result, and what the validator says of errors after it. -/
def seen (e : Effect Event (Option Bool) × Service) :
    Except Failure (Option Bool) × List ValidationError × Text :=
  (e.1.result, e.2.validator.errors, e.2.validator.lastMessage)

/-- The errors found by a check, if the operation was a check and was completed. -/
def completed? (effect : Effect Event (Option Bool)) : Option (List ValidationError) :=
  match effect.result with
  | .ok (some _) => some (effect.trace.filterMap Event.error?)
  | _ => none

/-- The errors found by the latest check that was completed, none if there was no such check. -/
def latestErrors (effects : List (Effect Event (Option Bool))) : List ValidationError :=
  (effects.filterMap completed?).getLast?.getD []

/-- An operation that is no check leaves the schema and the errors as they are. -/
theorem perform_of_no_check (check : Check) (s : Service) {op : Operation}
    (h : ∀ data, op ≠ .validate data) :
    (s.perform check op).1.validator.schema = s.validator.schema ∧
      (s.perform check op).1.validator.errors = s.validator.errors ∧
      completed? (s.perform check op).2 = none := by
  have hupdate (r : Registry) : (s.update r).validator.schema = s.validator.schema ∧
      (s.update r).validator.errors = s.validator.errors := by
    unfold update
    simp only
    split <;> exact ⟨rfl, rfl⟩
  cases op with
  | validate data => exact absurd rfl (h data)
  | register name source description =>
    rw [perform_register]
    cases Matcher.ofSource source description with
    | error e => exact ⟨(hupdate _).1, (hupdate _).2, rfl⟩
    | ok m => exact ⟨(hupdate _).1, (hupdate _).2, rfl⟩
  | registerOn ident name source description =>
    rw [perform_registerOn]
    cases Matcher.ofSource source description with
    | error e => exact ⟨(hupdate _).1, (hupdate _).2, rfl⟩
    | ok m => exact ⟨(hupdate _).1, (hupdate _).2, rfl⟩
  | setDebug enabled => exact ⟨rfl, rfl, rfl⟩
  | useRegistry ident => exact ⟨rfl, rfl, rfl⟩

/-- An operation replaces the errors if it is a check that is completed, and else leaves them. -/
theorem errors_perform (s : Service) (op : Operation) :
    (s.perform Validator.validate op).1.validator.errors =
      (completed? (s.perform Validator.validate op).2).getD s.validator.errors := by
  by_cases hcheck : ∃ data, op = .validate data
  · obtain ⟨data, rfl⟩ := hcheck
    simp only [perform, completed?, Effect.map_result, Effect.map_trace]
    unfold Validator.validate
    simp only
    split
    · rfl
    · simp only [Except.map, List.filterMap_append, Setting.errors_trace, List.append_nil,
        Option.getD_some]
  · obtain ⟨-, herrors, hnone⟩ := perform_of_no_check Validator.validate s (not_exists.mp hcheck)
    rw [herrors, hnone, Option.getD_none]

theorem errors_after (s : Service) (ops : List Operation) :
    (s.after Validator.validate ops).validator.errors =
      (((s.course Validator.validate ops).map (·.1)).filterMap completed?).getLast?.getD
        s.validator.errors := by
  induction ops generalizing s with
  | nil => rfl
  | cons op ops ih =>
    have hstep := errors_perform s op
    simp only [after, List.foldl_cons] at ih ⊢
    rw [ih, hstep]
    simp only [course, List.map_cons, List.filterMap_cons]
    cases completed? (s.perform Validator.validate op).2 with
    | none => rfl
    | some errors => simp [List.getLast?_cons]

/-- Along every history a validator gives the answers of one that compiles each spec when it is
reached, and its errors and last message are those of the latest check that was completed. -/
theorem answers_without_memory {schema : Value} {debug : Bool} {r : Registry} {v : Validator}
    (hv : Validator.new schema debug r = .ok v) (others : Nat → Registry) (ops : List Operation) :
    ((begin others v).course Validator.validate ops).map seen =
        ((begin others v).course Validator.inspect ops).map seen ∧
      ((begin others v).after Validator.validate ops).validator.errors =
        latestErrors (((begin others v).course Validator.validate ops).map (·.1)) ∧
      ((begin others v).after Validator.validate ops).validator.lastMessage =
        ((latestErrors (((begin others v).course Validator.validate ops).map (·.1))).getLast?.map
          ValidationError.message).getD "" := by
  obtain ⟨hsound, hforget⟩ := sound_begin hv others
  have herrors : ((begin others v).after Validator.validate ops).validator.errors =
      latestErrors (((begin others v).course Validator.validate ops).map (·.1)) := by
    rw [errors_after, latestErrors, show (begin others v).validator.errors = [] from
      (Validator.new_ok hv).2.2]
  refine ⟨?_, herrors, ?_⟩
  · have hcourse := course_forget hsound ops
    rw [hforget] at hcourse
    rw [hcourse, List.map_map]
    rfl
  · rw [← herrors]
    rfl

/-- A type is registered after the first check, and another registry is used in between. -/
theorem answers_of_late_type :
    let schema : Value := .mapping [(.text "a", .scalar (.text "_"))]
    let data : Value := .mapping [(.text "a", .scalar (.bool true))]
    let always : Predicate := ⟨"always", "", fun _ => pure true⟩
    let ops : List Operation :=
      [.validate data, .register "_" (.predicate always) "", .validate data,
      .useRegistry 1, .validate data, .useRegistry 0, .validate data]
    ∃ v, Validator.new schema false (.new 0 [] []) = .ok v ∧
      (((begin (fun n => .new n [] []) v).course Validator.validate ops).map seen).map
          (·.1.toOption) =
        [some (some false), some none, some (some true), some none, some (some false), some none,
          some (some true)] := by
  intro schema data always ops
  refine ⟨_, rfl, ?_⟩
  have hv : Validator.new schema false (.new 0 [] []) = .ok _ := rfl
  rw [(answers_without_memory hv (fun n => .new n [] []) ops).1]
  decide +kernel

end Service

end TreeSpec
