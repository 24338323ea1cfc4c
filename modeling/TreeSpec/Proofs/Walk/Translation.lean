import TreeSpec.Proofs.Service.Calls
import TreeSpec.Proofs.Walk.Debug

/-!
# Where a walk starts from, and what was there before it

A walk that starts from a longer path says the same with that path in front. What it finds is put
behind what its caller had already, and does not depend on the walks over the same tree before it.
So with one context for several data trees, what is found is put together from what each of them
gives alone.
-/

namespace TreeSpec

set_option autoImplicit false

/-! ## Paths in front of others -/

def ValidationError.under (p : Path) (e : ValidationError) : ValidationError :=
  { e with path := p ++ e.path }

def Notice.under (p : Path) : Notice → Notice
  | brokenSpec error => brokenSpec error
  | failedType name value failure => failedType name value failure
  | sameText earlier later text path => sameText earlier later text (p ++ path)
  | descending path => descending (p ++ path)
  | tried path value label kind passed => tried (p ++ path) value label kind passed
  | recorded error => recorded (error.under p)
  | finished count => finished count

def Event.under (p : Path) : Event → Event
  | call c => call c
  | notice n => notice (n.under p)
  | error e => error (e.under p)

section Under

variable (s : Setting) (p path : Path)

theorem Setting.trace_under (n : Notice) :
    (s.trace n).flatMap (fun e => [e.under p]) = s.trace (n.under p) := by
  unfold Setting.trace
  split <;> rfl

theorem Attempt.events_under (a : Attempt) :
    (a.events s path).flatMap (fun e => [e.under p]) = a.events s (p ++ path) := by
  have hcalls :
      (a.calls.map Event.call).flatMap (fun e => [e.under p]) = a.calls.map Event.call := by
    rw [List.flatMap_map]
    exact List.map_eq_flatMap.symm
  unfold Attempt.events
  rw [List.flatMap_append, List.flatMap_append, hcalls, s.trace_under]
  split <;> rfl

theorem Setting.carries_under : s.Carries s (p ++ ·) (fun e => [e.under p]) where
  registry := rfl
  child path key := (List.append_assoc p path [key]).symm
  broken _ := rfl
  sameText _ _ _ _ := rfl
  descending path := s.trace_under p (.descending path)
  trial path a := a.events_under s p path
  report _ _ _ _ _ := congrArg (_ :: ·) (s.trace_under p (.recorded _))

/-- A walk that starts from a longer path keeps the same specs and says the same, with that path in
front. -/
theorem Node.visit_under (n : Node) (data : Value) : n.visit s (p ++ path) data =
    ((n.visit s path data).1, (n.visit s path data).2.retrace fun e => [e.under p]) :=
  (s.carries_under p).visit path n data

theorem Event.errors_under (events : List Event) :
    (events.flatMap fun e => [e.under p]).filterMap error? =
    (events.filterMap error?).map (·.under p) := by
  rw [← List.map_eq_flatMap, List.filterMap_map, List.map_filterMap]
  congr 1
  funext e
  cases e <;> rfl

theorem Event.calls_under (events : List Event) :
    (events.flatMap fun e => [e.under p]).filterMap call? = events.filterMap call? := by
  rw [← List.map_eq_flatMap, List.filterMap_map]
  congr 1
  funext e
  cases e <;> rfl

end Under

theorem Event.calls_essential (events : List Event) :
    (events.flatMap Event.essential).filterMap Event.call? = events.filterMap Event.call? := by
  refine Event.filterMap_flatMap (fun e => ?_) events
  rcases e with c | n | e
  · rfl
  · simp only [essential]
    split <;> rfl
  · rfl

/-- Compiling against another registry, or another version, does not bear on this one. -/
theorem Leaf.Current.compiled {l : Leaf} {r r' : Registry} (h : l.Current r)
    (hknown : r'.ident = r.ident → r'.version = r.version → r' = r) :
    (l.compiled r').1.Current r := by
  unfold Leaf.compiled
  split
  · exact h
  · intro e he
    simp only [kept?, keep, Option.ite_none_right_eq_some, Option.some.injEq, Bool.and_eq_true,
      decide_eq_true_eq] at he
    obtain ⟨⟨hident, hversion⟩, rfl⟩ := he
    rw [hknown hident hversion]
    rfl

/-! ## Contexts -/

/-- What is collected along walks: the errors, and the calls of predicates on the way. -/
structure Context where
  errors : List ValidationError
  calls : List Call
  deriving DecidableEq, Repr

namespace Context

def fresh : Context := ⟨[], []⟩

def add (c : Context) : Event → Context
  | .call k => { c with calls := c.calls ++ [k] }
  | .notice _ => c
  | .error e => { c with errors := c.errors ++ [e] }

/-- The context after its part in a walk, whether or not that came to its end. -/
def after (c : Context) (walk : Effect Event Unit) : Context := walk.trace.foldl add c

theorem foldl_add (c : Context) (events : List Event) : events.foldl add c =
    ⟨c.errors ++ events.filterMap Event.error?, c.calls ++ events.filterMap Event.call?⟩ := by
  induction events generalizing c with
  | nil => simp only [List.foldl_nil, List.filterMap_nil, List.append_nil]
  | cons e events ih =>
    rw [List.foldl_cons, ih]
    cases e <;> simp [add, Event.error?, Event.call?, List.filterMap_cons]

theorem after_eq (c : Context) (walk : Effect Event Unit) : c.after walk =
    ⟨c.errors ++ (fresh.after walk).errors, c.calls ++ (fresh.after walk).calls⟩ := by
  simp only [after, foldl_add, fresh, List.nil_append]

def outcome (walk : Effect Event Unit) : Except Failure Unit × Context :=
  (walk.result, fresh.after walk)

theorem outcome_retrace {replace : Event → List Event}
    (herrors : ∀ events : List Event, (events.flatMap replace).filterMap Event.error? =
      events.filterMap Event.error?)
    (hcalls : ∀ events : List Event, (events.flatMap replace).filterMap Event.call? =
      events.filterMap Event.call?)
    (walk : Effect Event Unit) : outcome (walk.retrace replace) = outcome walk := by
  simp only [outcome, after, foldl_add, Effect.retrace, herrors, hcalls]

end Context

namespace Node

/-- The tree as it was made, or as walks have left it since then. Among the registries of these
walks there may be the given one, which is known by its number and its version. -/
inductive Visited (r : Registry) (n : Node) : Node → Prop
  | fresh : Visited r n n.forget
  | visit {m : Node} (h : Visited r n m) (s : Setting) (path : Path) (data : Value)
      (hknown : s.registry.ident = r.ident → s.registry.version = r.version → s.registry = r) :
      Visited r n (m.visit s path data).1

/-- Walks over data trees in turn with one context, whether or not the walks come to their ends. -/
def visits (s : Setting) (path : Path) (state : Node × Context) (trees : List Value) :
    Node × Context :=
  trees.foldl (fun state data =>
    let (n, walk) := state.1.visit s path data
    (n, state.2.after walk)) state

section Visited

variable {r : Registry} {n m m' : Node} {s : Setting}

theorem Visited.inspect (h : Visited r n m) (s : Setting) (path : Path) (data : Value) :
    m.inspect s path data = n.inspect s path data := by
  induction h with
  | fresh => exact inspect_forget s path n data
  | @visit m _ s' path' data' _ ih =>
    rw [← inspect_forget, forget_visit s' path' m data', inspect_forget, ih]

theorem Visited.current (h : Visited r n m) : ∀ l ∈ m.leaves, l.Current r := by
  induction h with
  | fresh =>
    intro l hl e he
    simp only [Leaf.kept?, memo_of_mem_leaves_forget hl] at he
    cases he
  | @visit m _ s path data hknown ih =>
    exact forall_leaves_visit s path (fun l hl => hl.compiled hknown) m data ih

theorem Visited.outcome_visit (hm : Visited s.registry n m) (hm' : Visited s.registry n m')
    (debug : Bool)
    (data : Value) : Context.outcome (m.visit s [] data).2 =
      Context.outcome (m'.visit ⟨s.registry, debug⟩ [] data).2 := by
  -- Both walks collect what a walk collects that keeps nothing, and debugging adds nothing to it.
  have hlasting := Context.outcome_retrace Event.errors_lasting Event.calls_lasting
  have hessential := Context.outcome_retrace Event.errors_essential Event.calls_essential
  have hquiet (debug : Bool) : (m'.visit s.quiet [] data).2 =
      (m'.visit ⟨s.registry, debug⟩ [] data).2.retrace Event.essential :=
    congrArg Prod.snd (visit_quiet ⟨s.registry, debug⟩ [] m' data)
  calc Context.outcome (m.visit s [] data).2
      = Context.outcome (n.inspect s [] data) := by
        rw [← hlasting, retrace_visit s [] hm.current, hm.inspect]
    _ = Context.outcome (m'.visit s [] data).2 := by
        rw [← hlasting (m'.visit s [] data).2, retrace_visit s [] hm'.current, hm'.inspect]
    _ = Context.outcome (m'.visit s.quiet [] data).2 := by
        rw [hquiet s.debug, hessential]
    _ = Context.outcome (m'.visit ⟨s.registry, debug⟩ [] data).2 := by
        rw [hquiet debug, hessential]

theorem Visited.result_visit (hm : Visited s.registry n m) (hm' : Visited s.registry n m')
    (debug : Bool) (p : Path)
    (data : Value) :
    (m.visit s p data).2.result = (m'.visit ⟨s.registry, debug⟩ [] data).2.result := by
  have hunder := visit_under s p [] m data
  rw [List.append_nil] at hunder
  rw [hunder]
  exact congrArg Prod.fst (hm.outcome_visit hm' debug data)

theorem Visited.after_visit (hm : Visited s.registry n m) (hm' : Visited s.registry n m')
    (debug : Bool) (p : Path)
    (data : Value) (before : Context) :
    let single := Context.fresh.after (m'.visit ⟨s.registry, debug⟩ [] data).2
    before.after (m.visit s p data).2 =
      ⟨before.errors ++ single.errors.map (·.under p), before.calls ++ single.calls⟩ := by
  intro single
  have hunder := visit_under s p [] m data
  rw [List.append_nil] at hunder
  -- First the path is taken away, then the earlier walks and debugging.
  have hsingle : Context.fresh.after (m.visit s [] data).2 = single :=
    congrArg Prod.snd (hm.outcome_visit hm' debug data)
  rw [hunder, Context.after_eq, ← hsingle]
  simp only [Context.after, Context.foldl_add, Context.fresh, Effect.retrace, Event.errors_under,
    Event.calls_under, List.nil_append]

section Trees

variable {now : Node} {alone : Value → Node}

theorem Visited.visits_eq (hnow : Visited s.registry n now)
    (halone : ∀ data, Visited s.registry n (alone data))
    (debug : Bool) (p : Path) (before : Context) (trees : List Value) :
    let single (data : Value) : Context :=
      Context.fresh.after ((alone data).visit ⟨s.registry, debug⟩ [] data).2
    (visits s p (now, before) trees).2 =
      ⟨before.errors ++ trees.flatMap fun data => (single data).errors.map (·.under p),
        before.calls ++ trees.flatMap fun data => (single data).calls⟩ := by
  intro single
  induction trees generalizing now before with
  | nil => simp only [visits, List.foldl_nil, List.flatMap_nil, List.append_nil]
  | cons data trees ih =>
    have hrest := ih (hnow.visit s p data fun _ _ => rfl) (before.after (now.visit s p data).2)
    have hfirst := hnow.after_visit (halone data) debug p data before
    simp only [visits, List.foldl_cons] at hrest ⊢
    rw [hrest, hfirst]
    simp only [List.flatMap_cons, List.append_assoc, single]

/-- The trees that are visited one after the other, up to a first one whose walk is not
completed. -/
theorem Visited.exists_visited (hnow : Visited s.registry n now)
    (halone : ∀ data, Visited s.registry n (alone data)) (debug : Bool) (p : Path)
    (before : Context)
    (trees : List Value) :
    let each := (now.visitEach s p trees).2
    ∃ visited, visited <+: trees ∧ before.after each = (visits s p (now, before) visited).2 ∧
      (each.result = .ok () → visited = trees) ∧
      ∀ e, each.result = .error e → ∃ data ∈ visited.getLast?,
        ((alone data).visit ⟨s.registry, debug⟩ [] data).2.result = .error e := by
  induction trees generalizing now before with
  | nil => exact ⟨[], List.prefix_rfl, rfl, fun _ => rfl, nofun⟩
  | cons data trees ih =>
    simp only [visitEach]
    cases hresult : (now.visit s p data).2.result with
    -- The walk over the first tree is not completed: it is the last one that is visited.
    | error e =>
      refine ⟨[data], ⟨trees, rfl⟩, rfl, nofun, fun e' he' => ⟨data, rfl, ?_⟩⟩
      rw [← hnow.result_visit (halone data) debug p data, hresult]
      exact he'
    | ok u =>
      obtain ⟨visited, hprefix, hafter, hall, hlast⟩ :=
        ih (hnow.visit s p data fun _ _ => rfl) (before.after (now.visit s p data).2)
      refine ⟨data :: visited, List.cons_prefix_cons.mpr ⟨rfl, hprefix⟩, ?_,
        fun h => congrArg _ (hall h), ?_⟩
      · simp only [Context.after, List.foldl_append] at hafter ⊢
        exact hafter
      · intro e he
        obtain ⟨d, hd, hfails⟩ := hlast e he
        refine ⟨d, ?_, hfails⟩
        rw [List.getLast?_cons, Option.mem_def.mp hd]
        rfl

end Trees

/-- With one context for data trees that are visited in turn, its errors at the end are those that
it had, and then those that each tree gives alone, with the path of the walks in front of theirs; so
it is with the calls. Visiting the trees one after the other ends early only at a tree whose walk is
not completed alone either. -/
theorem visits_append_and_translate (s : Setting) (debug : Bool) (p : Path) (before : Context)
    (trees : List Value)
    {n now : Node} (hnow : Visited s.registry n now) {alone : Value → Node}
    (halone : ∀ data, Visited s.registry n (alone data)) :
    let walk (data : Value) : Effect Event Unit :=
      ((alone data).visit ⟨s.registry, debug⟩ [] data).2
    let single (data : Value) : Context := Context.fresh.after (walk data)
    let each := (now.visitEach s p trees).2
    (visits s p (now, before) trees).2 =
      ⟨before.errors ++ trees.flatMap fun data => (single data).errors.map (·.under p),
        before.calls ++ trees.flatMap fun data => (single data).calls⟩ ∧
    ∃ visited, visited <+: trees ∧ before.after each = (visits s p (now, before) visited).2 ∧
      (each.result = .ok () → visited = trees) ∧
      ∀ e, each.result = .error e → ∃ data ∈ visited.getLast?, (walk data).result = .error e :=
  ⟨hnow.visits_eq halone debug p before trees, hnow.exists_visited halone debug p before trees⟩

/-- A type that was not there in an earlier walk is asked about one of two data trees; the other one
is of the wrong shape. An error was there before. -/
theorem visits_of_two_trees_after_another_version :
    let never : Predicate := ⟨"never", "", fun _ => pure false⟩
    let old := Registry.new 0 [] []
    let s : Setting := ⟨old.insert "x" (.predicate never ""), true⟩
    let n : Node := .branch [("a", .leaf (.new "x"))]
    let now := (n.forget.visit ⟨old, false⟩ [] (.mapping [])).1
    let earlier : ValidationError := ⟨.leaf, ["b"], "y", "0", ""⟩
    (visits s ["q"] (now, ⟨[earlier], []⟩) [.mapping [(.text "a", .scalar (.text "1"))],
      .missing]).2 =
      ⟨[earlier, ⟨.leaf, ["q", "a"], "x", "1", ""⟩,
        ⟨.shape, ["q"], Value.mappingText, Value.missingText, ""⟩],
        [.predicate "never" ⟨"1", none, []⟩]⟩ := by
  intro never old s n now earlier
  have hnow : Visited s.registry n now :=
    Visited.fresh.visit ⟨old, false⟩ [] (.mapping []) fun _ h => absurd h (by decide)
  rw [(visits_append_and_translate s false ["q"] ⟨[earlier], []⟩ _ hnow fun _ => .fresh).1]
  decide +kernel

end Visited

end Node

end TreeSpec
