import TreeSpec.Proofs.Walk.Encounters

/-!
# What a walk comes to

A walk that keeps specs does something at each encounter in turn, and is over at the first one that
cannot be read. Its events are those of the encounters that it comes to.
-/

namespace TreeSpec

set_option autoImplicit false

namespace Encounter

/-- What is done at the node itself by a walk that keeps specs. -/
def visit (s : Setting) (e : Encounter) : Effect Event Unit :=
  match e.node with
  | .leaf l => (l.visit s e.path e.data.orMissing).2
  | .branch _ => e.step s

/-- The encounters that a walk comes to: all up to the first one that cannot be read. -/
def met : List Encounter → List Encounter
  | [] => []
  | e :: rest => if e.isReadable then e :: met rest else [e]

section Met

variable {e : Encounter} {es : List Encounter}

theorem met_append (es more : List Encounter) :
    met (es ++ more) = if es.all isReadable then es ++ met more else met es := by
  induction es with
  | nil => rfl
  | cons e rest ih =>
    rw [List.cons_append, met, met, ih, List.all_cons]
    cases e.isReadable with
    | true =>
      simp only [if_true, Bool.true_and]
      split <;> rfl
    | false => rfl

theorem met_of_all (h : es.all isReadable = true) : met es = es := by
  have happend := met_append es []
  rw [if_pos h, List.append_nil] at happend
  exact happend.trans (List.append_nil es)

theorem isPrefix_met (es : List Encounter) : met es <+: es := by
  induction es with
  | nil => exact List.prefix_rfl
  | cons e rest ih =>
    rw [met]
    split
    · exact List.cons_prefix_cons.mpr ⟨rfl, ih⟩
    · exact ⟨rest, rfl⟩

theorem filter_met (es : List Encounter) :
    (met es).filter isReadable = es.takeWhile isReadable := by
  induction es with
  | nil => rfl
  | cons e rest ih =>
    rw [met, List.takeWhile_cons]
    cases h : e.isReadable with
    | true => rw [if_pos rfl, List.filter_cons, h, if_pos rfl, ih, if_pos rfl]
    | false => rw [if_neg Bool.false_ne_true, List.filter_cons, h]; rfl

end Met

variable (s : Setting)

theorem visit_branch (path : Path) (children : List (Text × Node)) (data : Value) :
    visit s ⟨path, .branch children, data⟩ = step s ⟨path, .branch children, data⟩ := rfl

theorem result_visit (e : Encounter) :
    (e.visit s).result = if e.isReadable then .ok () else .error .integerTooLong := by
  obtain ⟨path, node, data⟩ := e
  cases node with
  | leaf l =>
    have hdata : data.orMissing.isReadable = isReadable ⟨path, .leaf l, data⟩ :=
      Value.isReadable_orMissing data
    simp only [visit, Leaf.visit, Effect.emit_bind]
    cases h : isReadable ⟨path, .leaf l, data⟩ with
    | true => exact Leaf.result_check s path (hdata.trans h) ..
    | false => rw [Leaf.check_of_not_isReadable s path (hdata.trans h)]; rfl
  | branch children =>
    rw [visit_branch]
    cases h : isReadable ⟨path, .branch children, data⟩ with
    | true => exact result_step s h
    | false => exact (step_of_not_isReadable s h).1

theorem trace_forM (es : List Encounter) :
    (forM es (visit s)).trace = (met es).flatMap fun e => (e.visit s).trace := by
  induction es with
  | nil => rfl
  | cons e rest ih =>
    have hresult := result_visit s e
    rw [List.forM_cons, met]
    cases h : e.isReadable with
    | true =>
      rw [h, if_pos rfl] at hresult
      rw [Effect.bind_of_ok hresult, ih, if_pos rfl, List.flatMap_cons]
    | false =>
      rw [h, if_neg Bool.false_ne_true] at hresult
      rw [Effect.bind_of_error hresult, if_neg Bool.false_ne_true, List.flatMap_singleton]

theorem result_forM (es : List Encounter) :
    (forM es (visit s)).result = if es.all isReadable then .ok () else .error .integerTooLong := by
  induction es with
  | nil => rfl
  | cons e rest ih =>
    have hresult := result_visit s e
    rw [List.forM_cons, List.all_cons]
    cases h : e.isReadable with
    | true =>
      rw [h, if_pos rfl] at hresult
      rw [Effect.bind_of_ok hresult, Bool.true_and]
      exact ih
    | false =>
      rw [h, if_neg Bool.false_ne_true] at hresult
      rw [Effect.bind_of_error hresult, Bool.false_and, if_neg Bool.false_ne_true]

end Encounter

/-! ## What is said of values -/

/-- The event comes from trying a value or from reporting one. -/
def Event.isOfValue : Event → Bool
  | call _ | error _ | notice (.failedType _ _ _) | notice (.tried _ _ _ _ _)
  | notice (.recorded _) => true
  | notice (.brokenSpec _) | notice (.sameText _ _ _ _) | notice (.descending _)
  | notice (.finished _) => false

def Effect.OnlyOfValues {α : Type} (x : Effect Event α) : Prop := ∀ e ∈ x.trace, e.isOfValue = true

section Values

variable (s : Setting) (path : Path)

theorem Setting.onlyOfValues_reportValue (kind : ErrorKind) (spec : Text) (data : Value)
    (detail : Text) :
    (s.reportValue kind path spec data detail).OnlyOfValues := by
  intro e he
  obtain ⟨error, rfl | rfl⟩ := mem_trace_reportValue he <;> rfl

theorem Attempt.isOfValue_events (a : Attempt) : ∀ e ∈ a.events s path, e.isOfValue = true := by
  intro e he
  rcases mem_events he with ⟨c, -, rfl⟩ | ⟨error, rfl⟩ | rfl <;> rfl

theorem Leaf.onlyOfValues_check (spec : Text) (ex : Expression) (data : Value) :
    (check s path spec ex data).OnlyOfValues := by
  refine forall_mem_trace_check s path spec ?_ ?_ data
  · exact fun value a ha => a.isOfValue_events s path
  · exact s.onlyOfValues_reportValue path

theorem Effect.OnlyOfValues.filterMap_trace {α β : Type} {x : Effect Event α} {f : Event → Option β}
    (h : x.OnlyOfValues) (hf : ∀ e, e.isOfValue = true → f e = none) : x.trace.filterMap f = [] :=
  List.filterMap_eq_nil_iff.mpr fun e he => hf e (h e he)

end Values

/-! ## Walks -/

namespace Node

variable (s : Setting) (path : Path)

theorem visitAll_eq_forM {children : List (Text × Node)} {entries : List (Scalar × Value)}
    {found : Dictionary Value}
    (hfound : ∀ key, (found.get? key).getD .missing = Value.lastOf key entries) :
    (visitAll s path found children).2 =
      forM children fun c => (c.2.visit s (path ++ [c.1]) (Value.lastOf c.1 entries)).2 := by
  induction children with
  | nil => simp only [visitAll]; rfl
  | cons e rest ih =>
    obtain ⟨key, child⟩ := e
    rw [visitAll_cons_snd, hfound, ih, List.forM_cons]

/-- At a branch that is entered the children are visited in turn, each with the value of the last
entry whose key has the text of its name. -/
theorem visit_inside (children : List (Text × Node)) (entries : List (Scalar × Value)) :
    ((branch children).visit s path (.mapping entries)).2 =
      enter s path entries >>= fun _ =>
        forM children fun c => (c.2.visit s (path ++ [c.1]) (Value.lastOf c.1 entries)).2 := by
  rw [visit_branch_snd s path children rfl]
  cases henter : (enter s path entries).result with
  | error e => rw [Effect.bind_of_error henter, Effect.bind_of_error henter]
  | ok found =>
    rw [Effect.bind_of_ok henter, Effect.bind_of_ok henter,
      visitAll_eq_forM s path (enter_ok s path henter)]

theorem visit_outside (children : List (Text × Node)) {data : Value}
    (h : ∀ entries, data ≠ .mapping entries) :
    (branch children).visit s path data =
      (branch children, s.reportValue .shape path Value.mappingText data.orMissing "") := by
  cases data with
  | mapping entries => exact absurd rfl (h entries)
  | scalar v => cases v <;> simp only [visit, Value.orMissing]
  | missing | sequence => simp only [visit, Value.orMissing]

theorem forM_visit_eq_forM {children : List (Text × Node)}
    (h : ∀ c ∈ children, ∀ path data,
      (c.2.visit s path data).2 = forM (c.2.encounters path data) (Encounter.visit s))
    (entries : List (Scalar × Value)) :
    (forM children fun c => (c.2.visit s (path ++ [c.1]) (Value.lastOf c.1 entries)).2) =
      forM (children.flatMap fun c => c.2.encounters (path ++ [c.1]) (Value.lastOf c.1 entries))
        (Encounter.visit s) := by
  induction children with
  | nil => rfl
  | cons c rest ih =>
    obtain ⟨hchild, hrest⟩ := List.forall_mem_cons.mp h
    rw [List.forM_cons, hchild, ih hrest, List.flatMap_cons, List.forM_append]

/-- A walk does what is to be done at the encounters, one after the other. -/
theorem visit_eq_forM (n : Node) (data : Value) :
    (n.visit s path data).2 = forM (n.encounters path data) (Encounter.visit s) := by
  induction n using Node.induction generalizing path data with
  | leaf l => rw [encounters_leaf, visit_leaf, List.forM_cons, List.forM_nil, bind_pure_unit]; rfl
  | branch children ih =>
    by_cases hmapping : ∃ entries, data = .mapping entries
    · obtain ⟨entries, rfl⟩ := hmapping
      have hall := forM_visit_eq_forM s path (fun c hc path data => ih c hc path data) entries
      rw [visit_inside, hall, encounters_branch, List.forM_cons, Encounter.visit_branch,
        Encounter.step_inside]
      simp only [bind_assoc, pure_bind]
      rfl
    · have hdata := not_exists.mp hmapping
      rw [encounters_outside path children hdata, List.forM_cons, List.forM_nil, bind_pure_unit,
        visit_outside s path children hdata, Encounter.visit_branch,
        Encounter.step_outside s path children hdata]

theorem result_visit (n : Node) (data : Value) : (n.visit s path data).2.result =
    if (n.encounters path data).all Encounter.isReadable then .ok ()
    else .error .integerTooLong := by
  rw [visit_eq_forM, Encounter.result_forM]

/-- The events of a walk are those of the encounters that it comes to. -/
theorem trace_visit (n : Node) (data : Value) : (n.visit s path data).2.trace =
    (Encounter.met (n.encounters path data)).flatMap fun e => (e.visit s).trace := by
  rw [visit_eq_forM, Encounter.trace_forM]

end Node

end TreeSpec
