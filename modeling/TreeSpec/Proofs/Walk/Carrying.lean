import TreeSpec.Proofs.Walk.Inspection

/-!
# Walks that say the same in other words

Two walks over the same tree and the same data differ in their settings or in the paths that they
start from. If each event of the one stands for events of the other, at the leaves and at the
branches themselves, then this holds of the walks as a whole, which keep the same specs.
-/

namespace TreeSpec

set_option autoImplicit false

/-- With events replaced and paths moved, what is said under the first setting is what is said under
the second one. -/
structure Setting.Carries (s s' : Setting) (move : Path → Path) (replace : Event → List Event) :
    Prop where
  registry : s'.registry = s.registry
  child : ∀ path key, move (path ++ [key]) = move path ++ [key]
  broken : ∀ error, replace (.notice (.brokenSpec error)) = [.notice (.brokenSpec error)]
  sameText : ∀ earlier later text path, replace (.notice (.sameText earlier later text path)) =
    [.notice (.sameText earlier later text (move path))]
  descending :
    ∀ path, (s.trace (.descending path)).flatMap replace = s'.trace (.descending (move path))
  trial : ∀ path (a : Attempt), (a.events s path).flatMap replace = a.events s' (move path)
  report :
    ∀ kind path spec value detail, (s.report ⟨kind, path, spec, value, detail⟩).flatMap replace =
    s'.report ⟨kind, move path, spec, value, detail⟩

namespace Setting.Carries

variable {s s' : Setting} {move : Path → Path} {replace : Event → List Event}
  (h : s.Carries s' move replace) (path : Path)

include h

theorem reportValue (kind : ErrorKind) (spec : Text) (data : Value) (detail : Text) :
    (s.reportValue kind path spec data detail).retrace replace =
      s'.reportValue kind (move path) spec data detail := by
  unfold Setting.reportValue
  rw [Effect.retrace_bind]
  congr 1
  funext value
  exact congrArg Effect.emit (h.report ..)

theorem check (spec : Text) (e : Expression) (data : Value) :
    (Leaf.check s path spec e data).retrace replace = Leaf.check s' (move path) spec e data := by
  cases he : e.error with
  | some error =>
    rw [Leaf.check_of_error s path spec he, Leaf.check_of_error s' (move path) spec he,
      h.reportValue]
  | none =>
    cases data with
    | missing =>
      rw [Leaf.check_missing s path spec he, Leaf.check_missing s' (move path) spec he]
      split
      · rfl
      · exact h.reportValue path ..
    | scalar v =>
      have htrials : ∀ attempts : List Attempt,
          (Effect.emit (attempts.flatMap (Attempt.events s path))).retrace replace =
            Effect.emit (attempts.flatMap (Attempt.events s' (move path))) := by
        intro attempts
        refine congrArg Effect.emit (List.flatMap_assoc.trans ?_)
        exact List.flatMap_congr fun a _ => h.trial path a
      rw [Leaf.check_scalar s path spec he, Leaf.check_scalar s' (move path) spec he,
        Effect.retrace_bind]
      congr 1
      funext text
      rw [Effect.retrace_bind, htrials]
      congr 1
      funext _
      split
      · rfl
      · exact h.reportValue path ..
    | sequence | mapping =>
      rw [Leaf.check_of_not_scalar s path spec he rfl,
        Leaf.check_of_not_scalar s' (move path) spec he rfl, h.reportValue]

theorem visitLeaf (l : Leaf) (data : Value) :
    l.visit s' (move path) data = ((l.visit s path data).1,
      (l.visit s path data).2.retrace replace) := by
  have hcompiled : (Effect.emit (l.compiled s.registry).2.2).retrace replace =
      Effect.emit (l.compiled s.registry).2.2 := by
    unfold Leaf.compiled
    split
    · rfl
    · simp only
      cases (l.compile s.registry).error with
      | none => rfl
      | some error =>
        exact congrArg Effect.emit ((List.flatMap_singleton ..).trans (h.broken error))
  simp only [Leaf.visit, Effect.retrace_bind, hcompiled, h.check, h.registry]

theorem entriesByText (seen : Dictionary Scalar) (entries : List (Scalar × Value)) :
    (Value.entriesByText path seen entries).retrace replace =
    Value.entriesByText (move path) seen entries := by
  induction entries generalizing seen with
  | nil => rfl
  | cons entry rest ih =>
    obtain ⟨key, v⟩ := entry
    unfold Value.entriesByText
    rw [Effect.retrace_bind]
    congr 1
    funext text
    rw [Effect.retrace_bind]
    congr 1
    · cases seen.get? text with
      | none => rfl
      | some earlier =>
        exact congrArg Effect.emit ((List.flatMap_singleton ..).trans (h.sameText ..))
    · funext _
      rw [Effect.retrace_bind, ih]
      rfl

theorem textKeyed (entries : List (Scalar × Value)) :
    (Value.textKeyed path entries).retrace replace = Value.textKeyed (move path) entries := by
  unfold Value.textKeyed
  split
  · rfl
  · exact h.entriesByText path [] entries

theorem enter (entries : List (Scalar × Value)) :
    (Node.enter s path entries).retrace replace = Node.enter s' (move path) entries := by
  unfold Node.enter
  rw [Effect.retrace_bind]
  congr 1
  · exact congrArg Effect.emit (h.descending path)
  · funext _
    rw [Effect.retrace_bind, h.textKeyed]
    rfl

theorem visitAll {children : List (Text × Node)}
    (hchildren : ∀ e ∈ children, ∀ path data, e.2.visit s' (move path) data =
      ((e.2.visit s path data).1, (e.2.visit s path data).2.retrace replace))
    (found : Dictionary Value) :
    Node.visitAll s' (move path) found children =
      ((Node.visitAll s path found children).1,
        (Node.visitAll s path found children).2.retrace replace) := by
  induction children with
  | nil => rfl
  | cons e rest ih =>
    obtain ⟨key, child⟩ := e
    obtain ⟨hchild, hrest⟩ := List.forall_mem_cons.mp hchildren
    simp only [Node.visitAll, ← h.child, hchild, ih hrest]
    cases he : (child.visit s (path ++ [key]) ((found.get? key).getD .missing)).2.result with
    | error e => simp only [Effect.retrace, he]
    | ok u => simp only [Effect.retrace, he, List.flatMap_append]

/-- The walks keep the same specs and have the same result, and the events of the one stand for
those of the other. -/
theorem visit (n : Node) (data : Value) :
    n.visit s' (move path) data = ((n.visit s path data).1,
      (n.visit s path data).2.retrace replace) := by
  induction n using Node.induction generalizing path data with
  | leaf l => rw [Node.visit_leaf, Node.visit_leaf, h.visitLeaf]
  | branch children ih =>
    have hall := h.visitAll path fun e he path data => ih e he path data
    cases hd : data.orMissing with
    | mapping entries =>
      simp only [Node.visit, hd, ← h.enter, hall]
      cases he : (Node.enter s path entries).result with
      | error e => simp only [Effect.retrace, he]
      | ok found => simp only [Effect.retrace, he, List.flatMap_append]
    | missing | scalar | sequence => simp only [Node.visit, hd, h.reportValue]

end Setting.Carries

end TreeSpec
