import TreeSpec.Proofs.Spec.Single
import TreeSpec.Proofs.Walk.Calls
import TreeSpec.Proofs.Walk.Collisions
import TreeSpec.Proofs.Walk.Keeping

/-!
# The lines of a walk

A walk for debugging writes a line for each clause that it tries and one for each error. The lines
of trials at a leaf end at the first clause that accepts the value, and if there is none, an error
of the leaf follows. Each node has a path of its own, so the lines of a leaf can be told from all
others.
-/

namespace TreeSpec

set_option autoImplicit false

namespace Notice

/-- The line says that an error was recorded. -/
def isFailure : Notice → Bool
  | recorded _ => true
  | _ => false

/-- The line is of a trial at the path. -/
def isTrialAt (path : Path) : Notice → Bool
  | tried p _ _ _ _ => p = path
  | _ => false

end Notice

namespace Event

/-- The line of a trial. -/
def trial? : Event → Option Notice
  | notice (.tried path value label kind passed) => some (.tried path value label kind passed)
  | _ => none

/-- The error that a line says was recorded. -/
def recorded? : Event → Option ValidationError
  | notice (.recorded e) => some e
  | _ => none

end Event

/-! ## Trials on a value -/

namespace Clause

/-- The matcher says yes to the value. -/
def Accepts (c : Clause) (value : Text) : Prop :=
  (c.matcher.ask (c.question value)).result = .ok true

/-- The line of a trial of the clause. -/
def line (path : Path) (value : Text) (passed : Bool) (c : Clause) : Notice :=
  .tried path value c.label c.matcher.kind passed

theorem passed_attempt_iff {c : Clause} {value : Text} :
    (c.attempt value).passed = true ↔ c.Accepts value :=
  Attempt.passed_iff

end Clause

/-- The lines of all trials on a value, and whether it is accepted. Either no clause accepts the
value and each has its line, or those before the first one that does have one, and this one. -/
inductive Trialled (path : Path) (value : Text) (clauses : List Clause) :
    List Notice → Bool → Prop where
  | refused (h : ∀ c ∈ clauses, ¬ c.Accepts value) :
      Trialled path value clauses (clauses.map (Clause.line path value false)) false
  | accepted {before after : List Clause} {c : Clause} (hclauses : clauses = before ++ c :: after)
      (hbefore : ∀ b ∈ before, ¬ b.Accepts value) (h : c.Accepts value) :
      Trialled path value clauses
        (before.map (Clause.line path value false) ++ [c.line path value true]) true

/-- The line that a trial writes. -/
def Attempt.line (path : Path) (a : Attempt) : Notice := a.clause.line path a.value a.passed

section Trials

variable {path : Path} {value : Text} {c : Clause} {cs : List Clause} {lines : List Notice}
  {passed : Bool}

theorem Trialled.after_refused (hc : ¬ c.Accepts value) (h : Trialled path value cs lines passed) :
    Trialled path value (c :: cs) (c.line path value false :: lines) passed := by
  cases h with
  | refused h => exact .refused (List.forall_mem_cons.mpr ⟨hc, h⟩)
  | accepted hclauses hbefore h =>
    subst hclauses
    exact .accepted rfl (List.forall_mem_cons.mpr ⟨hc, hbefore⟩) h

/-- Trying clauses up to the first one that accepts the value writes such lines. -/
theorem trialled_attemptUntil (path : Path) (value : Text) (cs : List Clause) :
    Trialled path value cs ((attemptUntil value cs).map (Attempt.line path))
      (cs.any fun c => (c.attempt value).passed) := by
  induction cs with
  | nil => exact .refused nofun
  | cons c cs ih =>
    rw [attemptUntil, List.any_cons]
    cases hpassed : (c.attempt value).passed with
    | true =>
      have hline : (c.attempt value).line path = c.line path value true :=
        congrArg (c.line path value) hpassed
      rw [if_pos rfl, Bool.true_or, List.map_singleton, hline]
      -- The clauses after this one are not tried.
      have hfirst : c :: cs = [] ++ c :: cs := rfl
      exact .accepted hfirst nofun (Clause.passed_attempt_iff.mp hpassed)
    | false =>
      have hline : (c.attempt value).line path = c.line path value false :=
        congrArg (c.line path value) hpassed
      rw [if_neg Bool.false_ne_true, Bool.false_or, List.map_cons, hline]
      refine ih.after_refused ?_
      rw [← Clause.passed_attempt_iff, hpassed]
      exact Bool.false_ne_true

end Trials

/-! ## What is written at a node -/

section Steps

variable (s : Setting) (path : Path)

/-- At a branch that is entered no value is tried or reported. -/
theorem Node.not_isOfValue_enter {entries : List (Scalar × Value)} {ev : Event}
    (h : ev ∈ (enter s path entries).trace) :
    ev.isOfValue = false ∧ ∀ n, ev ≠ .notice (.finished n) := by
  rw [trace_enter, List.mem_append, List.mem_map] at h
  rcases h with h | ⟨n, hn, rfl⟩
  · rw [Setting.mem_trace h]
    exact ⟨rfl, nofun⟩
  · obtain ⟨_, _, _, rfl⟩ := Value.mem_warnings hn
    exact ⟨rfl, nofun⟩

/-- Nothing is said of a value that cannot be read. -/
theorem Encounter.not_isOfValue_step {e : Encounter} (h : e.isReadable = false) :
    ∀ ev ∈ (e.step s).trace, ev.isOfValue = false := by
  intro ev hev
  cases e using Encounter.cases with
  | leaf path l data =>
    have hdata : data.orMissing.isReadable = false := (Value.isReadable_orMissing data).trans h
    have hstep : step s ⟨path, .leaf l, data⟩ = Effect.fail .integerTooLong :=
      Leaf.check_of_not_isReadable s path hdata ..
    rw [hstep] at hev
    cases hev
  | inside path children entries =>
    rw [trace_step_inside] at hev
    exact (Node.not_isOfValue_enter s path hev).1
  | outside path children data hdata =>
    rw [isReadable_outside path children hdata, ← Value.isReadable_orMissing] at h
    rw [step_outside s path children hdata, s.reportValue_of_not_isReadable path h] at hev
    cases hev

theorem Event.trial?_of_not_isOfValue {ev : Event} (h : ev.isOfValue = false) :
    ev.trial? = none := by
  cases ev with
  | call | error => cases h
  | notice n => cases n <;> first | rfl | cases h

/-! ### Lines of trials -/

theorem Setting.trials_reportValue (kind : ErrorKind) (spec : Text) (data : Value) (detail : Text) :
    (s.reportValue kind path spec data detail).trace.filterMap Event.trial? = [] := by
  refine List.filterMap_eq_nil_iff.mpr fun ev hev => ?_
  obtain ⟨error, rfl | rfl⟩ := mem_trace_reportValue hev <;> rfl

theorem Attempt.trials_events (hs : s.debug = true) (a : Attempt) :
    (a.events s path).filterMap Event.trial? = [a.line path] := by
  have hcalls : (a.calls.map Event.call).filterMap Event.trial? = [] := by
    simp [List.filterMap_eq_nil_iff, Event.trial?]
  have hline : s.trace (.tried path a.value a.clause.label a.clause.matcher.kind a.passed) =
      [.notice (a.line path)] :=
    if_pos hs
  unfold Attempt.events
  rw [List.filterMap_append, List.filterMap_append, hcalls, hline]
  split <;> rfl

/-- A leaf writes a line for each trial on a scalar, of which there are none if the spec is
broken. -/
theorem Leaf.trials_check_scalar (hs : s.debug = true) (spec : Text) (e : Expression) {v : Scalar}
    (h : (Value.scalar v).isReadable = true) :
    (check s path spec e (.scalar v)).trace.filterMap Event.trial? =
      (e.attempts (some (Value.scalar v).textOf)).map (Attempt.line path) := by
  cases he : e.error with
  | some error =>
    rw [check_of_error s path spec he, s.trials_reportValue]
    simp only [Expression.attempts, he, List.map_nil]
  | none =>
    have hverdict : (if e.accepts (some (Value.scalar v).textOf) then pure ()
        else s.reportValue .leaf path spec (.scalar v) "" : Effect Event Unit).trace.filterMap
          Event.trial? = [] := by
      split
      · rfl
      · exact s.trials_reportValue path ..
    rw [check_of_isReadable s path he h, Effect.emit_bind, List.filterMap_append, hverdict,
      List.append_nil, List.map_eq_flatMap]
    simp only [List.filterMap_flatMap, Attempt.trials_events s path hs]

/-- A leaf writes no such line where there is no scalar. -/
theorem Leaf.trials_check_other (spec : Text) (e : Expression) {data : Value}
    (hdata : ∀ v, data ≠ .scalar v) :
    (check s path spec e data).trace.filterMap Event.trial? = [] := by
  cases he : e.error with
  | some error => rw [check_of_error s path spec he, s.trials_reportValue]
  | none =>
    cases data with
    | missing =>
      rw [check_missing s path spec he]
      split
      · rfl
      · exact s.trials_reportValue path ..
    | scalar v => exact absurd rfl (hdata v)
    | sequence | mapping => rw [check_of_not_scalar s path spec he rfl, s.trials_reportValue]

end Steps

namespace Encounter

/-- The lines of the trials at a leaf. -/
def lines (r : Registry) (e : Encounter) : List Notice :=
  match e.node, e.data.orMissing with
  | .leaf l, .scalar v =>
    ((l.compile r).attempts (some (Value.scalar v).textOf)).map (Attempt.line e.path)
  | _, _ => []

/-- A leaf with a valid spec comes to a scalar that is not missing. The text of the value and the
clauses of the spec are given with it. -/
inductive Tests (r : Registry) : Encounter → Text → List Clause → Prop where
  | intro {path : Path} {l : Leaf} {data : Value} {v : Scalar} (hdata : data.orMissing = .scalar v)
      (hvalid : (l.compile r).isValid = true) :
      Tests r ⟨path, .leaf l, data⟩ (Value.scalar v).textOf (l.compile r).clauses

variable {r : Registry} {e : Encounter} {value : Text} {clauses : List Clause}

theorem lines_of_scalar (r : Registry) {path : Path} {l : Leaf} {data : Value} {v : Scalar}
    (h : data.orMissing = .scalar v) : lines r ⟨path, .leaf l, data⟩ =
      ((l.compile r).attempts (some (Value.scalar v).textOf)).map (Attempt.line path) := by
  simp only [lines, h]

theorem lines_of_not_scalar (r : Registry) {path : Path} {l : Leaf} {data : Value}
    (h : ∀ v, data.orMissing ≠ .scalar v) : lines r ⟨path, .leaf l, data⟩ = [] := by
  unfold lines
  split
  · next hdata => exact absurd hdata (h _)
  · rfl

theorem trials_step (s : Setting) (hs : s.debug = true) {e : Encounter} (h : e.isReadable = true) :
    (e.step s).trace.filterMap Event.trial? = e.lines s.registry := by
  cases e using Encounter.cases with
  | leaf path l data =>
    have hdata : data.orMissing.isReadable = true := (Value.isReadable_orMissing data).trans h
    have hstep :
        step s ⟨path, .leaf l, data⟩ =
        Leaf.check s path l.spec (l.compile s.registry) data.orMissing := rfl
    rw [hstep]
    by_cases hscalar : ∃ v, data.orMissing = .scalar v
    · obtain ⟨v, hv⟩ := hscalar
      rw [lines_of_scalar _ hv, hv]
      rw [hv] at hdata
      exact Leaf.trials_check_scalar s path hs _ _ hdata
    · rw [not_exists] at hscalar
      rw [lines_of_not_scalar _ hscalar]
      exact Leaf.trials_check_other s path _ _ hscalar
  | inside path children entries =>
    rw [trace_step_inside, List.filterMap_eq_nil_iff.mpr]
    · rfl
    · intro ev hev
      exact Event.trial?_of_not_isOfValue (Node.not_isOfValue_enter s path hev).1
  | outside path children data hdata =>
    rw [step_outside s path children hdata, s.trials_reportValue]
    rfl

/-- What is written at a leaf that has something to try, and whether the leaf has an error then. -/
theorem Tests.trialled (h : e.Tests r value clauses) :
    Trialled e.path value clauses (e.lines r) (e.node.fault? r e.path e.data).isNone := by
  obtain @⟨path, l, data, v, hdata, hvalid⟩ := h
  have herror := Expression.isValid_iff.mp hvalid
  have htrials := trialled_attemptUntil path (Value.scalar v).textOf (l.compile r).clauses
  have hlines : lines r ⟨path, .leaf l, data⟩ =
      (attemptUntil (Value.scalar v).textOf (l.compile r).clauses).map (Attempt.line path) := by
    rw [lines_of_scalar r hdata]
    simp only [Expression.attempts, herror]
  have hfault : ((Node.leaf l).fault? r path data).isNone =
      (l.compile r).clauses.any fun c => (c.attempt (Value.scalar v).textOf).passed := by
    simp only [Node.fault?, hdata, Leaf.fault?, herror]
    split <;> simp_all
  rw [hlines, hfault]
  exact htrials

theorem lines_of_not_tests (h : ∀ value clauses, ¬ e.Tests r value clauses) : e.lines r = [] := by
  obtain ⟨path, node, data⟩ := e
  cases node with
  | branch children => rfl
  | leaf l =>
    by_cases hscalar : ∃ v, data.orMissing = .scalar v
    · obtain ⟨v, hv⟩ := hscalar
      cases herror : (l.compile r).error with
      | some error => simp only [lines_of_scalar r hv, Expression.attempts, herror, List.map_nil]
      | none => exact absurd (.intro hv (Expression.isValid_iff.mpr herror)) (h _ _)
    · exact lines_of_not_scalar r (not_exists.mp hscalar)

theorem isTrialAt_of_mem_lines {n : Notice} (h : n ∈ e.lines r) (path : Path) :
    n.isTrialAt path = decide (e.path = path) := by
  unfold lines at h
  split at h
  · obtain ⟨a, -, rfl⟩ := List.mem_map.mp h
    rfl
  · cases h

end Encounter

/-! ## Paths of their own -/

theorem Leaf.path_of_fault? {r : Registry} {path : Path} {l : Leaf} {data : Value}
    {error : ValidationError}
    (h : l.fault? r path data = some error) : error.path = path := by
  unfold fault? at h
  split at h
  · cases h
    rfl
  · split at h
    · cases h
      rfl
    · cases h
      rfl
    · split at h <;> cases h
      rfl
    · split at h <;> cases h
      rfl

namespace Node

/-- A node has its errors under its own path. -/
theorem path_of_fault? {r : Registry} {path : Path} {n : Node} {data : Value}
    {error : ValidationError}
    (h : n.fault? r path data = some error) : error.path = path := by
  unfold fault? at h
  split at h
  · exact Leaf.path_of_fault? h
  · cases h
  · cases h
    rfl

theorem nodup_preorderAll {children : List (Text × Node)} (names : (Dictionary.keys children).Nodup)
    (h : ∀ c ∈ children, (c.2.preorder.map (·.1)).Nodup) :
    ((preorderAll children).map (·.1)).Nodup := by
  induction children with
  | nil => exact List.nodup_nil
  | cons c rest ih =>
    obtain ⟨key, child⟩ := c
    obtain ⟨hchild, hrest⟩ := List.forall_mem_cons.mp h
    obtain ⟨hkey, names⟩ : key ∉ Dictionary.keys rest ∧ (Dictionary.keys rest).Nodup :=
      List.nodup_cons.mp names
    have hfirst : (child.preorder.map fun e => (key :: e.1, e.2)).map (·.1) =
        (child.preorder.map (·.1)).map (key :: ·) := by
      rw [List.map_map, List.map_map]
      rfl
    rw [preorderAll, List.map_append, hfirst]
    refine (hchild.map (List.cons_injective)).append (ih names hrest) ?_
    intro p hp hmore
    obtain ⟨q, -, rfl⟩ := List.mem_map.mp hp
    obtain ⟨⟨p, n⟩, hmem, rfl⟩ := List.mem_map.mp hmore
    obtain ⟨c, hc, q', heq, -⟩ := mem_preorderAll.mp hmem
    obtain ⟨rfl, -⟩ := List.cons.inj heq
    exact hkey (List.mem_map_of_mem hc)

/-- Where children have different names, no two nodes have the same path. -/
theorem Distinct.nodup_preorder {n : Node} (h : n.Distinct) : (n.preorder.map (·.1)).Nodup := by
  induction h with
  | leaf l => exact List.nodup_singleton _
  | branch names _ ih =>
    rw [preorder, List.map_cons]
    refine List.nodup_cons.mpr ⟨?_, nodup_preorderAll names ih⟩
    intro hmem
    obtain ⟨⟨p, n⟩, hmem, rfl⟩ := List.mem_map.mp hmem
    obtain ⟨c, -, q, heq, -⟩ := mem_preorderAll.mp hmem
    cases heq

theorem Distinct.pairwise_encounters {n : Node} (h : n.Distinct) (path : Path) (data : Value) :
    (n.encounters path data).Pairwise fun e e' => e.path ≠ e'.path := by
  refine List.Pairwise.filterMap _ ?_ (List.pairwise_map.mp h.nodup_preorder)
  intro e e' hne f hf f' hf'
  obtain ⟨found, -, rfl⟩ := Option.map_eq_some_iff.mp hf
  obtain ⟨found', -, rfl⟩ := Option.map_eq_some_iff.mp hf'
  exact fun heq => hne (List.append_cancel_left heq)

end Node

namespace Encounter

variable {r : Registry} {e : Encounter} {es : List Encounter} {path : Path}

theorem filter_lines_of_ne (h : e.path ≠ path ∨ e.lines r = []) :
    (e.lines r).filter (Notice.isTrialAt path) = [] := by
  rcases h with h | h
  · refine List.filter_eq_nil_iff.mpr fun n hn => ?_
    rw [isTrialAt_of_mem_lines hn, decide_eq_true_eq]
    exact h
  · rw [h, List.filter_nil]

theorem filter_flatMap_lines_of_ne (h : ∀ e ∈ es, e.path ≠ path ∨ e.lines r = []) :
    (es.flatMap (lines r)).filter (Notice.isTrialAt path) = [] := by
  rw [List.filter_flatMap, List.flatMap_eq_nil_iff]
  exact fun e he => filter_lines_of_ne (h e he)

/-- Among lines of nodes with paths of their own those of one node are found by its path. -/
theorem filter_flatMap_lines (hpaths : es.Pairwise fun e e' => e.path ≠ e'.path) (he : e ∈ es) :
    (es.flatMap (lines r)).filter (Notice.isTrialAt e.path) = e.lines r := by
  obtain ⟨before, after, rfl⟩ := List.append_of_mem he
  obtain ⟨-, hafter, hbefore⟩ := List.pairwise_append.mp hpaths
  have hown : (e.lines r).filter (Notice.isTrialAt e.path) = e.lines r := by
    refine List.filter_eq_self.mpr fun n hn => ?_
    rw [isTrialAt_of_mem_lines hn, decide_eq_true rfl]
  have hfront : (before.flatMap (lines r)).filter (Notice.isTrialAt e.path) = [] :=
    filter_flatMap_lines_of_ne fun e' he' => .inl (hbefore e' he' e List.mem_cons_self)
  have hback : (after.flatMap (lines r)).filter (Notice.isTrialAt e.path) = [] :=
    filter_flatMap_lines_of_ne fun e' he' =>
      .inl (Ne.symm ((List.pairwise_cons.mp hafter).1 e' he'))
  rw [List.flatMap_append, List.flatMap_cons, List.filter_append, List.filter_append, hfront,
    hown, hback, List.nil_append, List.append_nil]

/-- A node has no error just if no error is under its path. -/
theorem isNone_fault?_iff (hpaths : es.Pairwise fun e e' => e.path ≠ e'.path) (he : e ∈ es) :
    (e.node.fault? r e.path e.data).isNone = true ↔
      ∀ error ∈ es.filterMap (fun e => e.node.fault? r e.path e.data), error.path ≠ e.path := by
  rw [Option.isNone_iff_eq_none]
  constructor
  · intro hnone error herror hpath
    obtain ⟨e', he', hfault⟩ := List.mem_filterMap.mp herror
    have hsame : e' = e :=
      List.inj_on_of_nodup_map (List.pairwise_map.mpr hpaths) he' he
        ((Node.path_of_fault? hfault).symm.trans hpath)
    rw [hsame, hnone] at hfault
    cases hfault
  · intro h
    rw [Option.eq_none_iff_forall_ne_some]
    intro error hfault
    exact h error (List.mem_filterMap.mpr ⟨e, he, hfault⟩) (Node.path_of_fault? hfault)

end Encounter

/-! ## What is written of a walk -/

/-- The errors that lines say were recorded are the errors that were. -/
def Event.Echoed (events : List Event) : Prop :=
  events.filterMap recorded? = events.filterMap error?

namespace Event

theorem Echoed.append {xs ys : List Event} (hxs : Echoed xs) (hys : Echoed ys) :
    Echoed (xs ++ ys) := by
  unfold Echoed at hxs hys ⊢
  rw [List.filterMap_append, List.filterMap_append, hxs, hys]

theorem echoed_of_neither {events : List Event}
    (h : ∀ ev ∈ events, ev.recorded? = none ∧ ev.error? = none) :
    Echoed events := by
  unfold Echoed
  rw [List.filterMap_eq_nil_iff.mpr fun ev hev => (h ev hev).1,
    List.filterMap_eq_nil_iff.mpr fun ev hev => (h ev hev).2]

theorem neither_of_not_isOfValue {ev : Event} (h : ev.isOfValue = false) :
    ev.recorded? = none ∧ ev.error? = none := by
  cases ev with
  | call | error => cases h
  | notice n => cases n <;> first | exact ⟨rfl, rfl⟩ | cases h

end Event

section Echoes

variable (s : Setting) (path : Path)

theorem Setting.echoed_reportValue (hs : s.debug = true) (kind : ErrorKind) (spec : Text)
    (data : Value)
    (detail : Text) : Event.Echoed (s.reportValue kind path spec data detail).trace := by
  refine Effect.trace_bind_of_append (P := Event.Echoed) (fun _ _ => .append) rfl fun value => ?_
  have hreport (error : ValidationError) :
      s.report error = [.error error, .notice (.recorded error)] :=
    congrArg (Event.error error :: ·) (if_pos hs)
  rw [hreport]
  rfl

theorem Attempt.neither_events (a : Attempt) :
    ∀ ev ∈ a.events s path, ev.recorded? = none ∧ ev.error? = none := by
  intro ev hev
  rcases mem_events hev with ⟨c, -, rfl⟩ | ⟨error, rfl⟩ | rfl <;> exact ⟨rfl, rfl⟩

theorem Leaf.echoed_check (hs : s.debug = true) (spec : Text) (e : Expression) (data : Value) :
    Event.Echoed (check s path spec e data).trace := by
  refine trace_check_induction (P := Event.Echoed) s path spec rfl (fun _ _ => .append) ?_ ?_ data
  · exact fun value a ha => Event.echoed_of_neither (a.neither_events s path)
  · exact s.echoed_reportValue path hs

theorem Leaf.mem_events_compiled {r : Registry} {l : Leaf} {ev : Event}
    (h : ev ∈ (l.compiled r).2.2) :
    ∃ error, ev = .notice (.brokenSpec error) := by
  unfold compiled at h
  split at h
  · cases h
  · obtain ⟨error, -, rfl⟩ := List.mem_map.mp h
    exact ⟨error, rfl⟩

theorem Encounter.echoed_visit (hs : s.debug = true) (e : Encounter) :
    Event.Echoed (e.visit s).trace := by
  cases e using Encounter.cases with
  | leaf path l data =>
    refine Event.Echoed.append (Event.echoed_of_neither fun ev hev => ?_)
      (Leaf.echoed_check s path hs ..)
    obtain ⟨error, rfl⟩ := Leaf.mem_events_compiled hev
    exact ⟨rfl, rfl⟩
  | inside path children entries =>
    refine Event.echoed_of_neither fun ev hev => ?_
    rw [visit_branch, trace_step_inside] at hev
    exact Event.neither_of_not_isOfValue (Node.not_isOfValue_enter s path hev).1
  | outside path children data hdata =>
    rw [visit_branch, step_outside s path children hdata]
    exact s.echoed_reportValue path hs ..

/-- A walk for debugging writes a line of each error, in their order. -/
theorem Node.echoed_visit (hs : s.debug = true) (n : Node) (data : Value) :
    Event.Echoed (n.visit s path data).2.trace := by
  unfold Event.Echoed
  rw [trace_visit, List.filterMap_flatMap, List.filterMap_flatMap]
  exact List.flatMap_congr fun e _ => e.echoed_visit s hs

/-- The line that ends a check is not written by the walk. -/
theorem Node.not_finished_visit (n : Node) (data : Value) (count : Nat) :
    .notice (.finished count) ∉ (n.visit s path data).2.trace := by
  rw [trace_visit, List.mem_flatMap]
  rintro ⟨e, -, hev⟩
  cases e using Encounter.cases with
  | leaf path l data =>
    simp only [Encounter.visit, Leaf.visit, Effect.emit_bind] at hev
    rcases List.mem_append.mp hev with hev | hev
    · obtain ⟨error, herror⟩ := Leaf.mem_events_compiled hev
      cases herror
    · exact Bool.false_ne_true (Leaf.onlyOfValues_check s path _ _ _ _ hev)
  | inside path children entries =>
    rw [Encounter.visit_branch, Encounter.trace_step_inside] at hev
    exact (Node.not_isOfValue_enter s path hev).2 count rfl
  | outside path children data hdata =>
    rw [Encounter.visit_branch, Encounter.step_outside s path children hdata] at hev
    exact Bool.false_ne_true (s.onlyOfValues_reportValue path _ _ _ _ _ hev)

/-- A walk without memory writes the lines of trials of the nodes before the first one that cannot
be read. -/
theorem Node.trials_inspect (hs : s.debug = true) (n : Node) (data : Value) :
    (n.inspect s path data).trace.filterMap Event.trial? =
      ((n.encounters path data).takeWhile Encounter.isReadable).flatMap
      (Encounter.lines s.registry) := by
  have hunread (e : Encounter) (h : e.isReadable = false) :
      (e.step s).trace.filterMap Event.trial? = [] :=
    List.filterMap_eq_nil_iff.mpr fun ev hev =>
      Event.trial?_of_not_isOfValue (e.not_isOfValue_step s h ev hev)
  rw [inspect_eq_followAll, Encounter.filterMap_trace_followAll_of_unread s hunread]
  exact List.flatMap_congr fun e he => Encounter.trials_step s hs (List.mem_takeWhile_imp he)

end Echoes

end TreeSpec
