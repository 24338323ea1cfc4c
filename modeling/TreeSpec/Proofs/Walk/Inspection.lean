import Mathlib.Data.List.Basic
import TreeSpec.Proofs.Spec.Evaluation
import TreeSpec.Schema.Walk

/-!
# Walks without memory

`Node.inspect` walks like `Node.visit` but compiles the spec of every leaf that it reaches and keeps
none, so it has no state. A walk over a tree whose kept specs are faithful gives the same result and
the same events, the notices of broken specs apart, which are given at a compilation only. Kept
specs stay faithful.
-/

namespace TreeSpec

set_option autoImplicit false

/-- Where events are replaced by others, nothing changes in what is read off each alone. -/
theorem Event.filterMap_flatMap {α : Type} {f : Event → Option α} {g : Event → List Event}
    (h : ∀ e, (g e).filterMap f = (f e).toList) (events : List Event) :
    (events.flatMap g).filterMap f = events.filterMap f := by
  rw [List.filterMap_flatMap, List.filterMap_eq_flatMap_toList]
  exact List.flatMap_congr fun e _ => h e

/-- All events but the notices of broken specs. -/
def Event.lasting : Event → List Event
  | .notice (.brokenSpec _) => []
  | e => [e]

namespace Node

mutual

/-- Walks over data from a node on, compiling the spec of each leaf that is reached. -/
def inspect (s : Setting) (path : Path) : Node → Value → Effect Event Unit
  | leaf l, data => Leaf.check s path l.spec (l.compile s.registry) data.orMissing
  | branch children, data =>
    match data.orMissing with
    | .mapping entries => do
      let found ← enter s path entries
      inspectAll s path found children
    | other => s.reportValue .shape path Value.mappingText other ""

/-- Walks over the children of a branch, with the data found by their names. -/
def inspectAll (s : Setting) (path : Path) (found : Dictionary Value) :
    List (Text × Node) → Effect Event Unit
  | [] => pure ()
  | (key, child) :: rest => do
    inspect s (path ++ [key]) child ((found.get? key).getD .missing)
    inspectAll s path found rest

end

mutual

/-- The tree with all kept specs dropped. -/
def forget : Node → Node
  | leaf l => leaf { l with memo := none }
  | branch children => branch (forgetAll children)

def forgetAll : List (Text × Node) → List (Text × Node)
  | [] => []
  | (key, child) :: rest => (key, child.forget) :: forgetAll rest

end

mutual

def leaves : Node → List Leaf
  | leaf l => [l]
  | branch children => leavesAll children

def leavesAll : List (Text × Node) → List Leaf
  | [] => []
  | (_, child) :: rest => child.leaves ++ leavesAll rest

end

end Node

namespace Node

theorem inspectAll_forgetAll (s : Setting) (path : Path) {children : List (Text × Node)}
    (h : ∀ e ∈ children, ∀ path data, e.2.forget.inspect s path data = e.2.inspect s path data)
    (found : Dictionary Value) :
    inspectAll s path found (forgetAll children) = inspectAll s path found children := by
  induction children with
  | nil => rfl
  | cons e rest ih =>
    obtain ⟨hchild, hrest⟩ := List.forall_mem_cons.mp h
    simp only [forgetAll, inspectAll, hchild, ih hrest]

/-- A walk without memory does not depend on what is kept. -/
theorem inspect_forget (s : Setting) (path : Path) (n : Node) (data : Value) :
    n.forget.inspect s path data = n.inspect s path data := by
  induction n using Node.induction generalizing path data with
  | leaf l => rfl
  | branch children ih =>
    have hall := inspectAll_forgetAll s path fun e he path data => ih e he path data
    simp only [forget, inspect, hall]

end Node

section Events

variable {s : Setting} {path : Path} {ev : Event}

theorem Setting.mem_trace {n : Notice} (h : ev ∈ s.trace n) : ev = .notice n := by
  unfold Setting.trace at h
  split at h
  · exact List.mem_singleton.mp h
  · cases h

theorem Setting.mem_trace_reportValue {kind : ErrorKind} {spec detail : Text} {data : Value}
    (h : ev ∈ (s.reportValue kind path spec data detail).trace) :
    ∃ error, ev = .error error ∨ ev = .notice (.recorded error) := by
  refine Effect.forall_mem_trace_bind (P := fun ev => ∃ error, ev = .error error ∨
    ev = .notice (.recorded error))
    nofun (fun value ev hev => ?_) ev h
  rcases List.mem_cons.mp hev with rfl | hev
  · exact ⟨_, .inl rfl⟩
  · exact ⟨_, .inr (mem_trace hev)⟩

/-- A trial says which calls it makes, that its matcher failed, and what the result is. -/
theorem Attempt.mem_events {a : Attempt} (h : ev ∈ a.events s path) :
    (∃ c ∈ a.calls, ev = .call c) ∨ (∃ e, ev = .notice (.failedType a.clause.name a.value e)) ∨
      ev = .notice (.tried path a.value a.clause.label a.clause.matcher.kind a.passed) := by
  unfold Attempt.events at h
  rcases List.mem_append.mp h with h | h
  · rcases List.mem_append.mp h with h | h
    · obtain ⟨c, hc, rfl⟩ := List.mem_map.mp h
      exact .inl ⟨c, hc, rfl⟩
    · split at h
      · exact .inr (.inl ⟨_, List.mem_singleton.mp h⟩)
      · cases h
  · exact .inr (.inr (Setting.mem_trace h))

end Events

theorem Effect.trace_bind_of_append {α β : Type} {P : List Event → Prop} {x : Effect Event α}
    {f : α → Effect Event β}
    (append : ∀ xs ys, P xs → P ys → P (xs ++ ys)) (hx : P x.trace) (hf : ∀ a, P (f a).trace) :
    P (x >>= f).trace := by
  cases hresult : x.result with
  | error e =>
    rw [bind_of_error hresult]
    exact hx
  | ok a =>
    rw [bind_of_ok hresult]
    exact append _ _ hx (hf a)

section Check

variable (s : Setting) (path : Path) (spec : Text)

namespace Leaf

theorem check_of_error {e : Expression} {error : SchemaError} (h : e.error = some error)
    (data : Value) :
    check s path spec e data = s.reportValue .schema path spec data error.message := by
  simp only [check, h]

theorem check_of_not_scalar {e : Expression} {data : Value} (h : e.error = none)
    (hd : data.isScalar = false) :
    check s path spec e data = s.reportValue .shape path spec data "" := by
  simp [check, h, hd]

theorem check_missing {e : Expression} (h : e.error = none) :
    check s path spec e .missing =
      if e.allowsMissing then pure () else s.reportValue .leaf path spec .missing "" := by
  have hattempts : e.attempts none = [] := by simp only [Expression.attempts, h]
  have hverdict : e.verdict none [] = e.allowsMissing := rfl
  simp [check, h, Value.isScalar, hattempts, hverdict]

theorem check_scalar {e : Expression} (h : e.error = none) (v : Scalar) :
    check s path spec e (.scalar v) = Effect.ofExcept v.toText >>= fun text =>
      Effect.emit ((e.attempts (some text)).flatMap (Attempt.events s path)) >>= fun _ =>
        if e.accepts (some text) then pure ()
        else s.reportValue .leaf path spec (.scalar v) "" := by
  simp only [check, h, Value.isScalar, ← Expression.verdict_attempts h]
  cases v.toText <;> rfl

/-- The events of a check are those of trials and reports, one after the other. -/
theorem trace_check_induction {P : List Event → Prop} {e : Expression} (nil : P [])
    (append : ∀ xs ys, P xs → P ys → P (xs ++ ys))
    (attempt : ∀ value, ∀ a ∈ e.attempts value, P (a.events s path))
    (report : ∀ kind spec data detail, P (s.reportValue kind path spec data detail).trace)
    (data : Value) :
    P (check s path spec e data).trace := by
  have hattempts (attempts : List Attempt) (h : ∀ a ∈ attempts, P (a.events s path)) :
      P (attempts.flatMap (Attempt.events s path)) := by
    induction attempts with
    | nil => exact nil
    | cons a rest ih =>
      obtain ⟨ha, hrest⟩ := List.forall_mem_cons.mp h
      exact append _ _ ha (ih hrest)
  cases he : e.error with
  | some error =>
    rw [check_of_error s path spec he]
    exact report ..
  | none =>
    cases data with
    | missing =>
      rw [check_missing s path spec he]
      split
      · exact nil
      · exact report ..
    | scalar v =>
      rw [check_scalar s path spec he]
      refine Effect.trace_bind_of_append append nil fun text => ?_
      refine Effect.trace_bind_of_append append (hattempts _ (attempt _)) fun _ => ?_
      split
      · exact nil
      · exact report ..
    | sequence | mapping =>
      rw [check_of_not_scalar s path spec he rfl]
      exact report ..

theorem forall_mem_trace_check {P : Event → Prop} {e : Expression}
    (attempt : ∀ value, ∀ a ∈ e.attempts value, ∀ ev ∈ a.events s path, P ev)
    (report : ∀ kind spec data detail, ∀ ev ∈ (s.reportValue kind path spec data detail).trace,
      P ev) (data : Value) :
    ∀ ev ∈ (check s path spec e data).trace, P ev :=
  trace_check_induction (P := fun events => ∀ ev ∈ events, P ev) s path spec nofun
    (fun _ _ hxs hys => List.forall_mem_append.mpr ⟨hxs, hys⟩) attempt report data

end Leaf

end Check

section Visit

variable (s : Setting) (path : Path)

namespace Node

theorem visit_leaf (l : Leaf) (data : Value) :
    (leaf l).visit s path data =
      (leaf (l.visit s path data.orMissing).1, (l.visit s path data.orMissing).2) := by
  simp only [visit]

theorem visit_branch_snd (children : List (Text × Node)) {data : Value}
    {entries : List (Scalar × Value)} (h : data.orMissing = .mapping entries) :
    ((branch children).visit s path data).2 =
      enter s path entries >>= fun found => (visitAll s path found children).2 := by
  simp only [visit, h]
  cases he : (enter s path entries).result with
  | error e => rw [Effect.bind_of_error he]
  | ok found => rw [Effect.bind_of_ok he]

theorem visitAll_cons_snd (found : Dictionary Value) (key : Text) (child : Node)
    (rest : List (Text × Node)) :
    (visitAll s path found ((key, child) :: rest)).2 =
      (child.visit s (path ++ [key]) ((found.get? key).getD .missing)).2 >>=
        fun _ => (visitAll s path found rest).2 := by
  simp only [visitAll]
  cases he : (child.visit s (path ++ [key]) ((found.get? key).getD .missing)).2.result with
  | error e => rw [Effect.bind_of_error he]
  | ok u => rw [Effect.bind_of_ok he]

/-- A walk leaves a branch as it is, or with the children that it walked over. -/
theorem visit_branch_fst (children : List (Text × Node)) (data : Value) :
    ((branch children).visit s path data).1 = branch children ∨
      ∃ found, ((branch children).visit s path data).1 =
        branch (visitAll s path found children).1 := by
  simp only [visit]
  split
  · split
    · exact .inl rfl
    · exact .inr ⟨_, rfl⟩
  · exact .inl rfl

theorem visitAll_cons_fst (found : Dictionary Value) (key : Text) (child : Node)
    (rest : List (Text × Node)) :
    ∃ data more, (more = rest ∨ more = (visitAll s path found rest).1) ∧
      (visitAll s path found ((key, child) :: rest)).1 =
        (key, (child.visit s (path ++ [key]) data).1) :: more := by
  simp only [visitAll]
  split
  · exact ⟨_, rest, .inl rfl, rfl⟩
  · exact ⟨_, _, .inr rfl, rfl⟩

theorem forall_leavesAll_visitAll {P : Leaf → Prop} {children : List (Text × Node)}
    (hvisit : ∀ e ∈ children, ∀ path data, (∀ l ∈ e.2.leaves, P l) →
      ∀ l ∈ (e.2.visit s path data).1.leaves, P l)
    (h : ∀ l ∈ leavesAll children, P l) (found : Dictionary Value) :
    ∀ l ∈ leavesAll (visitAll s path found children).1, P l := by
  induction children with
  | nil => simpa only [visitAll] using h
  | cons e rest ih =>
    obtain ⟨key, child⟩ := e
    obtain ⟨hchild, hvisit⟩ := List.forall_mem_cons.mp hvisit
    obtain ⟨hleaves, hmore⟩ := List.forall_mem_append.mp h
    -- A walk that gives up leaves the children behind as they are.
    obtain ⟨value, more, heither, heq⟩ := visitAll_cons_fst s path found key child rest
    rw [heq]
    intro l hl
    rcases List.mem_append.mp hl with hl | hl
    · exact hchild _ value hleaves l hl
    · rcases heither with rfl | rfl
      · exact hmore l hl
      · exact ih hvisit hmore l hl

/-- What holds of all leaves, and of a leaf once it is compiled, holds of all leaves after a
walk. -/
theorem forall_leaves_visit {P : Leaf → Prop} (hP : ∀ l, P l → P (l.compiled s.registry).1)
    (n : Node) (data : Value) (h : ∀ l ∈ n.leaves, P l) :
    ∀ l ∈ (n.visit s path data).1.leaves, P l := by
  induction n using Node.induction generalizing path data with
  | leaf l =>
    rw [visit_leaf]
    simp only [leaves, List.mem_singleton, forall_eq] at h ⊢
    exact hP l h
  | branch children ih =>
    rcases visit_branch_fst s path children data with heq | ⟨found, heq⟩
    · rw [heq]
      exact h
    · rw [heq]
      exact forall_leavesAll_visitAll s path (fun e he path data => ih e he path data) h found

theorem forgetAll_visitAll {children : List (Text × Node)}
    (h : ∀ e ∈ children, ∀ path data, (e.2.visit s path data).1.forget = e.2.forget)
    (found : Dictionary Value) :
    forgetAll (visitAll s path found children).1 = forgetAll children := by
  induction children with
  | nil => simp only [visitAll]
  | cons e rest ih =>
    obtain ⟨key, child⟩ := e
    obtain ⟨hchild, hrest⟩ := List.forall_mem_cons.mp h
    obtain ⟨value, more, heither, heq⟩ := visitAll_cons_fst s path found key child rest
    rw [heq]
    simp only [forgetAll, hchild]
    rcases heither with rfl | rfl
    · rfl
    · rw [ih hrest]

/-- A walk changes nothing in a tree but the kept specs. -/
theorem forget_visit (n : Node) (data : Value) : (n.visit s path data).1.forget = n.forget := by
  induction n using Node.induction generalizing path data with
  | leaf l =>
    rw [visit_leaf]
    simp only [forget, Leaf.visit, Leaf.compiled]
    split <;> rfl
  | branch children ih =>
    rcases visit_branch_fst s path children data with heq | ⟨found, heq⟩
    · rw [heq]
    · have hall := forgetAll_visitAll s path (fun e he path data => ih e he path data) found
      rw [heq]
      simp only [forget, hall]

end Node

end Visit

/-- No notice of a broken spec is among the events. -/
def Effect.Lasts {α : Type} (x : Effect Event α) : Prop := x.retrace Event.lasting = x

namespace Effect

variable {α β : Type}

theorem lasts_pure (a : α) : (pure a : Effect Event α).Lasts := rfl

theorem lasts_ofExcept (x : Except Failure α) : (ofExcept x : Effect Event α).Lasts := rfl

theorem lasts_of_forall {x : Effect Event α} (h : ∀ e ∈ x.trace, e.lasting = [e]) : x.Lasts := by
  have hflat : x.trace.flatMap Event.lasting = x.trace := by
    rw [List.flatMap_congr h, ← List.map_eq_flatMap, List.map_id']
  simp only [Lasts, retrace, hflat]

theorem Lasts.bind {x : Effect Event α} {f : α → Effect Event β} (hx : x.Lasts)
    (hf : ∀ a, (f a).Lasts) : (x >>= f).Lasts := by
  unfold Lasts at hx hf ⊢
  simp only [retrace_bind, hx, hf]

end Effect

section Lasting

variable (s : Setting) (path : Path)

theorem Setting.lasting_of_mem_trace {n : Notice} (hn : (Event.notice n).lasting = [.notice n]) :
    ∀ e ∈ s.trace n, e.lasting = [e] := by
  intro e he
  rw [mem_trace he, hn]

theorem Setting.lasting_of_mem_reportValue (kind : ErrorKind) (spec : Text) (data : Value)
    (detail : Text) :
    ∀ e ∈ (s.reportValue kind path spec data detail).trace, e.lasting = [e] := by
  intro e he
  obtain ⟨error, rfl | rfl⟩ := mem_trace_reportValue he <;> rfl

theorem Setting.lasts_reportValue (kind : ErrorKind) (spec : Text) (data : Value) (detail : Text) :
    (s.reportValue kind path spec data detail).Lasts :=
  Effect.lasts_of_forall (s.lasting_of_mem_reportValue path kind spec data detail)

theorem Attempt.lasting_of_mem_events (a : Attempt) : ∀ e ∈ a.events s path, e.lasting = [e] := by
  intro e he
  rcases mem_events he with ⟨c, -, rfl⟩ | ⟨error, rfl⟩ | rfl <;> rfl

theorem Leaf.lasts_check (spec : Text) (e : Expression) (data : Value) :
    (check s path spec e data).Lasts := by
  refine Effect.lasts_of_forall (forall_mem_trace_check s path spec ?_ ?_ data)
  · exact fun value a ha => a.lasting_of_mem_events s path
  · exact s.lasting_of_mem_reportValue path

theorem Value.lasts_entriesByText (seen : Dictionary Scalar) (entries : List (Scalar × Value)) :
    (entriesByText path seen entries).Lasts := by
  induction entries generalizing seen with
  | nil => exact Effect.lasts_pure _
  | cons entry rest ih =>
    obtain ⟨key, v⟩ := entry
    refine (Effect.lasts_ofExcept _).bind fun text => Effect.Lasts.bind ?_ fun _ =>
      (ih _).bind fun _ => Effect.lasts_pure _
    refine Effect.lasts_of_forall ?_
    intro e he
    obtain ⟨earlier, _, rfl⟩ := List.mem_map.mp he
    rfl

theorem Value.lasts_textKeyed (entries : List (Scalar × Value)) :
    (textKeyed path entries).Lasts := by
  unfold textKeyed
  split
  · exact Effect.lasts_pure _
  · exact lasts_entriesByText path [] entries

theorem Node.lasts_enter (entries : List (Scalar × Value)) : (enter s path entries).Lasts :=
  (Effect.lasts_of_forall (s.lasting_of_mem_trace rfl)).bind fun _ =>
    (Value.lasts_textKeyed path entries).bind fun _ => Effect.lasts_pure _

end Lasting

/-- A kept spec that stands for the registry as it is now is what compiling gives. -/
def Leaf.Current (r : Registry) (l : Leaf) : Prop := ∀ e, l.kept? r = some e → e = l.compile r

section Agreement

variable (s : Setting) (path : Path)

theorem Leaf.compiled_expression {r : Registry} {l : Leaf} (h : l.Current r) :
    (l.compiled r).2.1 = l.compile r := by
  unfold compiled
  split
  · next e he => exact h e he
  · rfl

theorem Leaf.retrace_emit_compiled (r : Registry) (l : Leaf) :
    (Effect.emit (l.compiled r).2.2).retrace Event.lasting = pure () := by
  unfold compiled
  split
  · rfl
  · simp only
    cases (l.compile r).error <;> rfl

theorem Leaf.retrace_visit {l : Leaf} (h : l.Current s.registry) (data : Value) :
    (l.visit s path data).2.retrace Event.lasting =
      check s path l.spec (l.compile s.registry) data := by
  simp only [visit, Effect.retrace_bind, retrace_emit_compiled, compiled_expression h, pure_bind]
  exact lasts_check s path ..

namespace Node

theorem retrace_visitAll {children : List (Text × Node)}
    (hvisit : ∀ e ∈ children, ∀ path data, (∀ l ∈ e.2.leaves, l.Current s.registry) →
      (e.2.visit s path data).2.retrace Event.lasting = e.2.inspect s path data)
    (h : ∀ l ∈ leavesAll children, l.Current s.registry) (found : Dictionary Value) :
    (visitAll s path found children).2.retrace Event.lasting =
      inspectAll s path found children := by
  induction children with
  | nil => simp only [visitAll, inspectAll, Effect.retrace_pure]
  | cons e rest ih =>
    obtain ⟨key, child⟩ := e
    obtain ⟨hchild, hvisit⟩ := List.forall_mem_cons.mp hvisit
    obtain ⟨hleaves, hmore⟩ := List.forall_mem_append.mp h
    have hfirst := hchild (path ++ [key]) ((found.get? key).getD .missing) hleaves
    simp only [visitAll_cons_snd, Effect.retrace_bind, hfirst, ih hvisit hmore, inspectAll]

/-- A walk that keeps specs and one that does not give the same result and the same lasting
events. -/
theorem retrace_visit {n : Node} (h : ∀ l ∈ n.leaves, l.Current s.registry) (data : Value) :
    (n.visit s path data).2.retrace Event.lasting = n.inspect s path data := by
  induction n using Node.induction generalizing path data with
  | leaf l =>
    rw [visit_leaf, inspect]
    exact Leaf.retrace_visit s path (h l (List.mem_singleton.mpr rfl)) _
  | branch children ih =>
    have hall := retrace_visitAll s path (fun e he path data hl => ih e he path hl data) h
    cases hd : data.orMissing with
    | mapping entries =>
      rw [visit_branch_snd s path children hd, Effect.retrace_bind, lasts_enter s path entries]
      simp only [hall, inspect, hd]
    | missing | scalar | sequence =>
      simp only [visit, inspect, hd]
      exact s.lasts_reportValue path ..

end Node

end Agreement

end TreeSpec
