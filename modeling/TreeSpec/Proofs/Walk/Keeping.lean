import TreeSpec.Proofs.Walk.Edits
import TreeSpec.Proofs.Walk.Steps

/-!
# What a walk keeps

A leaf keeps its spec as it was compiled with a registry in some state. A walk brings the leaves
that it comes to up to the state of its registry, and it leaves all others as they are. A broken
spec is warned of at a leaf that is brought up to another state.
-/

namespace TreeSpec

set_option autoImplicit false

/-- Which registry it is, and of which version. -/
def Registry.state (r : Registry) : Nat × Nat := (r.ident, r.version)

namespace Leaf

/-- The state of the registry that the kept spec was compiled with. -/
def keptFor? (l : Leaf) : Option (Nat × Nat) := l.memo.map fun m => (m.registry, m.version)

/-- The leaf after a walk that comes to the nodes at some paths. -/
def afterWalk (r : Registry) (reached : List Path) (path : Path) (l : Leaf) : Leaf :=
  if path ∈ reached then (l.compiled r).1 else l

variable (l : Leaf) (r : Registry)

theorem kept?_eq_none_iff : l.kept? r = none ↔ l.keptFor? ≠ some r.state := by
  unfold kept? keptFor? Registry.state
  cases l.memo with
  | none => simp
  | some m => simp [Prod.ext_iff]

theorem keptFor?_compiled : (l.compiled r).1.keptFor? = some r.state := by
  cases hkept : l.kept? r with
  | none =>
    simp only [compiled, hkept]
    rfl
  | some e =>
    have hstate := mt (l.kept?_eq_none_iff r).mpr (hkept ▸ Option.some_ne_none e)
    simp only [compiled, hkept]
    exact not_not.mp hstate

theorem afterWalk_congr {reached reached' : List Path} {path path' : Path}
    (h : path ∈ reached ↔ path' ∈ reached') :
    l.afterWalk r reached path = l.afterWalk r reached' path' := by
  simp only [afterWalk, h]

theorem keptFor?_afterWalk (reached : List Path) (path : Path) :
    (l.afterWalk r reached path).keptFor? = if path ∈ reached then some r.state
      else l.keptFor? := by
  unfold afterWalk
  split
  · exact l.keptFor?_compiled r
  · rfl

theorem notices_compiled : (l.compiled r).2.2 = if l.keptFor? = some r.state then [] else
    (l.compile r).error.toList.map fun error => .notice (.brokenSpec error) := by
  cases hkept : l.kept? r with
  | none => simp only [compiled, hkept, if_neg ((l.kept?_eq_none_iff r).mp hkept)]
  | some e =>
    have hstate := mt (l.kept?_eq_none_iff r).mpr (hkept ▸ Option.some_ne_none e)
    simp only [compiled, hkept, if_pos (not_not.mp hstate)]

end Leaf

/-! ## Warnings at an encounter -/

def Event.brokenSpec? : Event → Option SchemaError
  | notice (.brokenSpec e) => some e
  | _ => none

theorem Effect.Lasts.brokenSpec {α : Type} {x : Effect Event α} (h : x.Lasts) :
    x.trace.filterMap Event.brokenSpec? = [] := by
  have htrace : x.trace.flatMap Event.lasting = x.trace := congrArg Effect.trace h
  rw [← htrace, List.filterMap_flatMap]
  refine List.flatMap_eq_nil_iff.mpr fun e _ => ?_
  cases e with
  | call c => rfl
  | notice n => cases n <;> rfl
  | error e => rfl

namespace Encounter

def schemaError? (r : Registry) (e : Encounter) : Option SchemaError :=
  match e.node with
  | .leaf l => (l.compile r).error
  | .branch _ => none

def keptFor? (e : Encounter) : Option (Nat × Nat) :=
  match e.node with
  | .leaf l => l.keptFor?
  | .branch _ => none

variable (s : Setting)

theorem lasts_step (e : Encounter) : (e.step s).Lasts := by
  cases e using Encounter.cases with
  | leaf path l data => exact Leaf.lasts_check s path ..
  | inside path children entries =>
    exact (Node.lasts_enter s path entries).bind fun _ => Effect.lasts_pure _
  | outside path children data hdata =>
    rw [step_outside s path children hdata]
    exact s.lasts_reportValue path ..

theorem brokenSpec_visit (e : Encounter) : (e.visit s).trace.filterMap Event.brokenSpec? =
    if e.keptFor? = some s.registry.state then [] else (e.schemaError? s.registry).toList := by
  obtain ⟨path, node, data⟩ := e
  cases node with
  | leaf l =>
    have hcheck :=
      (Leaf.lasts_check s path l.spec (l.compiled s.registry).2.1 data.orMissing).brokenSpec
    simp only [visit, Leaf.visit, Effect.emit_bind, List.filterMap_append, hcheck, List.append_nil,
      l.notices_compiled]
    change _ = if l.keptFor? = some s.registry.state then []
      else (l.compile s.registry).error.toList
    by_cases hkept : l.keptFor? = some s.registry.state
    · rw [if_pos hkept, if_pos hkept, List.filterMap_nil]
    · rw [if_neg hkept, if_neg hkept]
      cases (l.compile s.registry).error <;> rfl
  | branch children =>
    rw [visit_branch, (lasts_step s _).brokenSpec]
    exact (if_neg (Option.some_ne_none _).symm).symm

end Encounter

/-! ## Leaves that are reached -/

namespace Encounter

variable {es more : List Encounter} {p : Path}

/-- Where no later encounter has the path, they make no difference to whether it is come to. -/
theorem mem_met_append_left (h : ∀ e ∈ more, e.path ≠ p) :
    p ∈ (met (es ++ more)).map (·.path) ↔ p ∈ (met es).map (·.path) := by
  have hmore : p ∉ (met more).map (·.path) := by
    intro hp
    obtain ⟨e, he, heq⟩ := List.mem_map.mp hp
    exact h e ((isPrefix_met more).subset he) heq
  rw [met_append]
  split
  · next hall =>
    rw [met_of_all hall, List.map_append, List.mem_append]
    exact or_iff_left hmore
  · rfl

/-- Where no earlier encounter has the path, it is come to if they can all be read. -/
theorem mem_met_append_right (h : ∀ e ∈ es, e.path ≠ p) :
    p ∈ (met (es ++ more)).map (·.path) ↔ es.all isReadable = true ∧
    p ∈ (met more).map (·.path) := by
  have hnot : ∀ l, l <+: es → p ∉ l.map (·.path) := by
    intro l hl hp
    obtain ⟨e, he, heq⟩ := List.mem_map.mp hp
    exact h e (hl.subset he) heq
  rw [met_append]
  split
  · next hall =>
    rw [List.map_append, List.mem_append, or_iff_right (hnot es List.prefix_rfl)]
    exact (and_iff_right hall).symm
  · next hall => exact iff_of_false (hnot _ (isPrefix_met es)) fun hp => hall hp.1

end Encounter

namespace Node

/-- The paths of the nodes that a walk comes to. -/
def reached (path : Path) (n : Node) (data : Value) : List Path :=
  (Encounter.met (n.encounters path data)).map (·.path)

/-- The state of the registry, if a walk comes to the node at a path. -/
def reachedWith? (r : Registry) (p : Path) (n : Node) (data : Value) : Option (Nat × Nat) :=
  if p ∈ n.reached [] data then some r.state else none

theorem mem_preorderAll {children : List (Text × Node)} {p : Path} {n : Node} :
    (p, n) ∈ preorderAll children ↔ ∃ c ∈ children, ∃ q, p = c.1 :: q ∧ (q, n) ∈ c.2.preorder := by
  induction children with
  | nil => exact iff_of_false List.not_mem_nil (by simp)
  | cons c rest ih =>
    obtain ⟨key, child⟩ := c
    rw [preorderAll, List.mem_append, ih, List.exists_mem_cons_iff, List.mem_map]
    refine or_congr_left ⟨?_, ?_⟩
    · rintro ⟨⟨q, m⟩, hmem, heq⟩
      cases heq
      exact ⟨q, rfl, hmem⟩
    · rintro ⟨q, rfl, hmem⟩
      exact ⟨(q, n), hmem, rfl⟩

theorem mem_preorder_branch {children : List (Text × Node)} {p : Path} {l : Leaf}
    (h : (p, leaf l) ∈ (branch children).preorder) :
    (p, leaf l) ∈ preorderAll children ∧ ∃ key q, p = key :: q := by
  have hall : (p, leaf l) ∈ preorderAll children := by
    rw [preorder, List.mem_cons] at h
    rcases h with h | h
    · cases h
    · exact h
  obtain ⟨c, -, q, hp, -⟩ := mem_preorderAll.mp hall
  exact ⟨hall, c.1, q, hp⟩

theorem mem_preorder_of_mem_encounters {path : Path} {n : Node} {data : Value} {e : Encounter}
    (h : e ∈ n.encounters path data) :
    ∃ p, e.path = path ++ p ∧ (p, e.node) ∈ n.preorder ∧ data.reach p = some e.data := by
  obtain ⟨⟨p, m⟩, hmem, hmap⟩ := List.mem_filterMap.mp h
  obtain ⟨found, hreach, rfl⟩ := Option.map_eq_some_iff.mp hmap
  exact ⟨p, rfl, hmem, hreach⟩

theorem prefix_of_mem_encounters {path : Path} {n : Node} {data : Value} {e : Encounter}
    (h : e ∈ n.encounters path data) : path <+: e.path := by
  obtain ⟨p, hp, -, -⟩ := mem_preorder_of_mem_encounters h
  exact ⟨p, hp.symm⟩

theorem path_ne_of_key_ne {path q : Path} {key other : Text} {n : Node} {data : Value}
    {e : Encounter}
    (h : e ∈ n.encounters (path ++ [key]) data) (hne : key ≠ other) :
    e.path ≠ path ++ other :: q := by
  intro heq
  obtain ⟨more, hmore⟩ := prefix_of_mem_encounters h
  rw [heq, List.append_assoc, List.singleton_append] at hmore
  exact hne (List.cons.inj (List.append_cancel_left hmore)).1

/-- The paths below a branch that a walk comes to which enters it. -/
def reachedBelow (path : Path) (children : List (Text × Node)) (entries : List (Scalar × Value)) :
    List Path :=
  (Encounter.met (children.flatMap fun c =>
    c.2.encounters (path ++ [c.1]) (Value.lastOf c.1 entries))).map (·.path)

section Children

variable (s : Setting) (path : Path) {children rest : List (Text × Node)} {key : Text}
  {child : Node} {q : Path}
  {entries : List (Scalar × Value)}

theorem mem_reachedBelow_cons_self (hkey : key ∉ Dictionary.keys rest) :
    path ++ key :: q ∈ reachedBelow path ((key, child) :: rest) entries ↔
      path ++ key :: q ∈ child.reached (path ++ [key]) (Value.lastOf key entries) := by
  rw [reachedBelow, List.flatMap_cons]
  refine Encounter.mem_met_append_left fun e he => ?_
  obtain ⟨c, hc, he⟩ := List.mem_flatMap.mp he
  refine path_ne_of_key_ne he ?_
  rintro rfl
  exact hkey (List.mem_map_of_mem hc)

theorem mem_reachedBelow_cons_of_ne {other : Text} (hne : key ≠ other) :
    path ++ other :: q ∈ reachedBelow path ((key, child) :: rest) entries ↔
      (child.encounters (path ++ [key]) (Value.lastOf key entries)).all Encounter.isReadable =
      true ∧
        path ++ other :: q ∈ reachedBelow path rest entries := by
  rw [reachedBelow, List.flatMap_cons]
  exact Encounter.mem_met_append_right fun e he => path_ne_of_key_ne he hne

variable {found : Dictionary Value} (hfound : ∀ key,
  (found.get? key).getD .missing = Value.lastOf key entries)

include hfound

/-- The children after the first one are walked over if all that the walk comes to there can be
read. -/
theorem visitAll_cons_of_lastOf (key : Text) (child : Node) (rest : List (Text × Node)) :
    (visitAll s path found ((key, child) :: rest)).1 =
      (key, (child.visit s (path ++ [key]) (Value.lastOf key entries)).1) ::
        if (child.encounters (path ++ [key]) (Value.lastOf key entries)).all Encounter.isReadable =
        true
          then (visitAll s path found rest).1 else rest := by
  have hresult := child.result_visit s (path ++ [key]) (Value.lastOf key entries)
  rw [visitAll, hfound]
  split at hresult
  · next hall => simp only [hresult, if_pos hall]
  · next hall => simp only [hresult, if_neg hall]

theorem leaf_of_mem_visitAll (names : (Dictionary.keys children).Nodup)
    (hvisit : ∀ c ∈ children, ∀ path data q l', (q, leaf l') ∈ (c.2.visit s path data).1.preorder →
      ∃ l, (q, leaf l) ∈ c.2.preorder ∧ l' = l.afterWalk s.registry (c.2.reached path data)
      (path ++ q))
    {p : Path} {l' : Leaf} (h : (p, leaf l') ∈ preorderAll (visitAll s path found children).1) :
    ∃ l, (p, leaf l) ∈ preorderAll children ∧
      l' = l.afterWalk s.registry (reachedBelow path children entries) (path ++ p) := by
  induction children with
  | nil => cases h
  | cons c rest ih =>
    obtain ⟨key, child⟩ := c
    obtain ⟨hchild, hvisit⟩ := List.forall_mem_cons.mp hvisit
    obtain ⟨hkey, names⟩ : key ∉ Dictionary.keys rest ∧ (Dictionary.keys rest).Nodup :=
      List.nodup_cons.mp names
    have hne {p : Path} {l : Leaf} (hl : (p, leaf l) ∈ preorderAll rest) :
        ∃ other q, p = other :: q ∧ key ≠ other := by
      obtain ⟨c, hc, q, hp, -⟩ := mem_preorderAll.mp hl
      refine ⟨c.1, q, hp, ?_⟩
      rintro rfl
      exact hkey (List.mem_map_of_mem hc)
    rw [visitAll_cons_of_lastOf s path hfound, preorderAll, List.mem_append, List.mem_map] at h
    rcases h with ⟨⟨q, node⟩, hmem, heq⟩ | h
    -- A leaf of the first child: what the walk comes to at the others has other paths.
    · cases heq
      obtain ⟨l, hl, rfl⟩ := hchild _ _ q l' hmem
      refine ⟨l, mem_preorderAll.mpr ⟨_, List.mem_cons_self, q, rfl, hl⟩, ?_⟩
      apply Leaf.afterWalk_congr
      rw [mem_reachedBelow_cons_self path hkey, List.append_assoc, List.singleton_append]
    -- A leaf of another child: the walk goes on to it if it does not end at the first one.
    · split at h
      · next hall =>
        obtain ⟨l, hl, rfl⟩ := ih names hvisit h
        obtain ⟨other, q, rfl, hother⟩ := hne hl
        refine ⟨l, List.mem_append_right _ hl, ?_⟩
        apply Leaf.afterWalk_congr
        rw [mem_reachedBelow_cons_of_ne path hother, and_iff_right hall]
      · next hall =>
        obtain ⟨other, q, rfl, hother⟩ := hne h
        refine ⟨l', List.mem_append_right _ h, (if_neg fun hmem => hall ?_).symm⟩
        exact ((mem_reachedBelow_cons_of_ne path hother).mp hmem).1

end Children

section Walks

variable (s : Setting) (path : Path)

theorem self_mem_reached (n : Node) (data : Value) : path ∈ n.reached path data := by
  obtain ⟨rest, hrest⟩ : ∃ rest, n.encounters path data = ⟨path, n, data⟩ :: rest := by
    cases n with
    | leaf l => exact ⟨[], encounters_leaf path l data⟩
    | branch children => exact ⟨_, encounters_branch path children data⟩
  rw [reached, hrest, Encounter.met]
  split <;> exact List.mem_cons_self

theorem mem_reached_inside {children : List (Text × Node)} {entries : List (Scalar × Value)}
    {key : Text} {q : Path} :
    path ++ key :: q ∈ (branch children).reached path (.mapping entries) ↔
      (entries.all fun e => !e.1.isTooLong) = true ∧
      path ++ key :: q ∈ reachedBelow path children entries := by
  have hself : path ++ key :: q ≠ path :=
    fun h => List.cons_ne_nil key q (List.append_right_eq_self.mp h)
  rw [reached, encounters_branch, Encounter.met]
  split
  · next hkeys =>
    rw [List.map_cons, List.mem_cons, or_iff_right hself]
    exact (and_iff_right hkeys).symm
  · next hkeys =>
    rw [List.map_cons, List.map_nil, List.mem_singleton]
    exact iff_of_false hself fun h => hkeys h.1

theorem not_mem_reached_below (n : Node) {data found : Value} {p : Path}
    (h : data.reach p = some found)
    (hfound : ∀ entries, found ≠ .mapping entries) (key : Text) (q : Path) :
    path ++ (p ++ key :: q) ∉ n.reached path data := by
  intro hmem
  obtain ⟨e, he, heq⟩ := List.mem_map.mp hmem
  obtain ⟨p', hp', -, hreach⟩ :=
    mem_preorder_of_mem_encounters ((Encounter.isPrefix_met _).subset he)
  obtain rfl : p' = p ++ key :: q := List.append_cancel_left (hp'.symm.trans heq)
  have hnone : data.reach (p ++ key :: q) = none := by
    have happend : data.reach (p ++ key :: q) = data.reach p >>= fun d => d.reach (key :: q) :=
      List.foldlM_append
    rw [happend, h]
    exact congrArg (· >>= fun d => d.reach q) (Value.child?_of_not_mapping hfound key)
  rw [hnone] at hreach
  cases hreach

/-- A walk brings the leaves that it comes to up to the state of its registry, and leaves the others
as they are. -/
theorem leaf_of_mem_visit {n : Node} (hn : n.Distinct) (data : Value) {p : Path} {l' : Leaf}
    (h : (p, leaf l') ∈ (n.visit s path data).1.preorder) :
    ∃ l, (p, leaf l) ∈ n.preorder ∧ l' = l.afterWalk s.registry (n.reached path data)
    (path ++ p) := by
  induction n using Node.induction generalizing path data p l' with
  | leaf l =>
    rw [visit_leaf, preorder, List.mem_singleton] at h
    cases h
    refine ⟨l, List.mem_singleton.mpr rfl, (if_pos ?_).symm⟩
    rw [List.append_nil]
    exact self_mem_reached path _ data
  | branch children ih =>
    cases hn with
    | branch names below =>
    by_cases hmapping : ∃ entries, data = .mapping entries
    · obtain ⟨entries, rfl⟩ := hmapping
      cases hkeys : entries.all fun e => !e.1.isTooLong with
      | true =>
        obtain ⟨found, hfound⟩ := enter_isOk s path (by simpa using hkeys)
        simp only [visit, Value.orMissing, hfound] at h
        obtain ⟨hall, key, q, rfl⟩ := mem_preorder_branch h
        obtain ⟨l, hl, rfl⟩ := leaf_of_mem_visitAll s path (enter_ok s path hfound) names
          (fun c hc path data q l' h => ih c hc path (below c hc) data h) hall
        refine ⟨l, List.mem_cons_of_mem _ hl, ?_⟩
        apply Leaf.afterWalk_congr
        rw [mem_reached_inside, and_iff_right hkeys]
      | false =>
        -- The walk ends at a key that cannot be read, so no leaf is come to and none is changed.
        obtain ⟨e, he, hlong⟩ := List.all_eq_false.mp hkeys
        simp only [visit, Value.orMissing, enter_fails s path he (by simpa using hlong)] at h
        obtain ⟨-, key, q, rfl⟩ := mem_preorder_branch h
        refine ⟨l', h, (if_neg fun hmem => ?_).symm⟩
        rw [((mem_reached_inside path).mp hmem).1] at hkeys
        cases hkeys
    · have hdata := not_exists.mp hmapping
      rw [visit_outside s path children hdata] at h
      obtain ⟨-, key, q, rfl⟩ := mem_preorder_branch h
      have hnot := not_mem_reached_below path (branch children) (p := []) rfl hdata key q
      exact ⟨l', h, (if_neg hnot).symm⟩

/-- A walk warns of the leaves that it comes to and that are broken, where the kept spec is not for
the registry. -/
theorem brokenSpec_visit {n : Node} {keptFor? : Path → Option (Nat × Nat)}
    (h : ∀ p l, (p, leaf l) ∈ n.preorder → l.keptFor? = keptFor? p) (data : Value) :
    (n.visit s [] data).2.trace.filterMap Event.brokenSpec? =
      ((Encounter.met (n.encounters [] data)).filter fun e =>
        keptFor? e.path ≠ some s.registry.state).filterMap (Encounter.schemaError? s.registry) := by
  rw [trace_visit, List.filterMap_flatMap, List.filterMap_filter, List.filterMap_eq_flatMap_toList]
  refine List.flatMap_congr fun e he => ?_
  obtain ⟨p, hp, hmem, -⟩ := mem_preorder_of_mem_encounters ((Encounter.isPrefix_met _).subset he)
  rw [Encounter.brokenSpec_visit]
  obtain ⟨path, node, found⟩ := e
  obtain rfl : path = p := hp
  cases node with
  | leaf l =>
    -- At the root the path of an encounter is that of its node in the tree.
    have hkept : Encounter.keptFor? ⟨path, leaf l, found⟩ = keptFor? path := h path l hmem
    rw [hkept]
    by_cases hstate : keptFor? path = some s.registry.state <;> simp [hstate]
  | branch children =>
    have hnone : Encounter.schemaError? s.registry ⟨path, branch children, found⟩ = none := rfl
    simp [hnone]

end Walks

end Node

/-! ## Without what is kept -/

/-- The node is met without what is kept at it and below it. -/
def Encounter.forget (e : Encounter) : Encounter := { e with node := e.node.forget }

namespace Node

theorem forgetAll_eq_map (children : List (Text × Node)) :
    forgetAll children = children.map fun c => (c.1, c.2.forget) := by
  induction children with
  | nil => rfl
  | cons c rest ih => rw [forgetAll, ih, List.map_cons]

theorem preorder_forget (n : Node) :
    n.forget.preorder = n.preorder.map fun e => (e.1, e.2.forget) := by
  induction n using Node.induction with
  | leaf l => rfl
  | branch children ih =>
    have hall : preorderAll (forgetAll children) = (preorderAll children).map fun e =>
        (e.1, e.2.forget) := by
      induction children with
      | nil => rfl
      | cons c rest ihrest =>
        obtain ⟨key, child⟩ := c
        obtain ⟨hchild, hrest⟩ := List.forall_mem_cons.mp ih
        rw [forgetAll, preorderAll, preorderAll, List.map_append, ihrest hrest, hchild,
          List.map_map, List.map_map]
        rfl
    rw [forget, preorder, preorder, hall, List.map_cons]
    rfl

theorem encounters_forget (path : Path) (n : Node) (data : Value) :
    n.forget.encounters path data = (n.encounters path data).map Encounter.forget := by
  rw [encounters, encounters, preorder_forget, List.filterMap_map, List.map_filterMap]
  refine congrArg (n.preorder.filterMap ·) (funext fun e => ?_)
  rw [Function.comp_apply, Option.map_map]
  rfl

end Node

theorem Encounter.isReadable_forget (e : Encounter) : e.forget.isReadable = e.isReadable := by
  cases e using Encounter.cases with
  | leaf path l data => rfl
  | inside path children entries => rfl
  | outside path children data hdata =>
    rw [isReadable_outside path children hdata]
    exact isReadable_outside path _ hdata

theorem Encounter.schemaError?_forget (r : Registry) (e : Encounter) :
    e.forget.schemaError? r = e.schemaError? r := by
  obtain ⟨path, node, data⟩ := e
  cases node <;> rfl

theorem Encounter.met_map_forget (es : List Encounter) :
    met (es.map forget) = (met es).map forget := by
  induction es with
  | nil => rfl
  | cons e rest ih =>
    rw [List.map_cons, met, met, isReadable_forget, ih]
    split <;> rfl

namespace Node

theorem reached_forget (path : Path) (n : Node) (data : Value) :
    n.forget.reached path data = n.reached path data := by
  rw [reached, encounters_forget, Encounter.met_map_forget, List.map_map]
  rfl

theorem distinct_forget {n : Node} : n.forget.Distinct ↔ n.Distinct := by
  induction n using Node.induction with
  | leaf l => exact iff_of_true (.leaf _) (.leaf _)
  | branch children ih =>
    have hkeys : Dictionary.keys (forgetAll children) = Dictionary.keys children := by
      rw [forgetAll_eq_map, Dictionary.keys, List.map_map]
      rfl
    constructor
    · intro h
      cases h with
      | branch names below =>
        refine .branch (hkeys ▸ names) fun c hc => (ih c hc).mp (below (c.1, c.2.forget) ?_)
        rw [forgetAll_eq_map]
        exact List.mem_map_of_mem hc
    · intro h
      cases h with
      | branch names below =>
        refine .branch (hkeys.symm ▸ names) fun e he => ?_
        rw [forgetAll_eq_map] at he
        obtain ⟨c, hc, rfl⟩ := List.mem_map.mp he
        exact (ih c hc).mpr (below c hc)

end Node

end TreeSpec
