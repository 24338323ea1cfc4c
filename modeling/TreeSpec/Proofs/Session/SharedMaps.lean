import TreeSpec.Proofs.Session.Atomicity

/-!
# Maps of shared types

The shared types of a session and of its registries stand in maps that have addresses. To share a
type, the map at the current address is copied, the copy is changed in place, and its address
becomes the current one. A registry takes the current address when it is made, and looks names up in
whatever map is there by then. No map is changed once an address leads to it from outside, so it
comes to the same as if each registry held the shared types by value.
-/

namespace TreeSpec

set_option autoImplicit false

namespace Request

variable {q : Request}

/-- A request that shares a type does nothing else. -/
theorem of_shares?_eq_some {t : Text × Matcher} (h : q.shares? = some t) :
    q.clears = false ∧ q.usesIdent = false := by
  unfold shares? at h
  split at h
  · exact ⟨rfl, rfl⟩
  · cases h

theorem usesIdent_of_clears (h : q.clears = true) : q.usesIdent = false := by
  unfold clears at h
  split at h
  · rfl
  · cases h

end Request

structure SharedMaps where
  /-- The map at each address. -/
  maps : List (Dictionary Matcher)
  /-- The address of the types for registries that will be made. -/
  current : Nat
  /-- The addresses that the registries took, by their numbers. -/
  taken : List Nat

namespace SharedMaps

def start : SharedMaps := ⟨[[]], 0, []⟩

/-! ## Single maps -/

/-- Puts a map at a new address. -/
def allocate (m : SharedMaps) (d : Dictionary Matcher) : Nat × SharedMaps :=
  (m.maps.length, { m with maps := m.maps ++ [d] })

/-- Puts an entry into the map at an address, in place. -/
def write (m : SharedMaps) (address : Nat) (name : Text) (x : Matcher) : SharedMaps :=
  { m with maps := m.maps.modify address (·.put name x) }

/-- Puts an entry into a copy of the current map, which becomes the current one. -/
def share (m : SharedMaps) (name : Text) (x : Matcher) : SharedMaps :=
  let (copy, m) := m.allocate (m.maps[m.current]?.getD [])
  { m.write copy name x with current := copy }

def clear (m : SharedMaps) : SharedMaps :=
  let (fresh, m) := m.allocate []
  { m with current := fresh }

/-- The next registry takes the current address. -/
def take (m : SharedMaps) : SharedMaps := { m with taken := m.taken ++ [m.current] }

/-- The map at the address that the registry of the number took, as it is by now. -/
def mapOf? (m : SharedMaps) (ident : Nat) : Option (Dictionary Matcher) :=
  m.taken[ident]?.bind (m.maps[·]?)

/-- Looks a name up in the tiers of a registry, the shared ones by their address. -/
def lookup (m : SharedMaps) (r : Registry) (name : Text) : Option Matcher :=
  (r.own.get? name).or (((m.mapOf? r.ident).bind (·.get? name)).or (r.builtin.get? name))

/-! ## Requests -/

/-- What a request does to the maps. -/
def answer (m : SharedMaps) (q : Request) : SharedMaps :=
  match q.shares? with
  | some (name, x) => m.share name x
  | none => if q.clears then m.clear else if q.usesIdent then m.take else m

def after (m : SharedMaps) (qs : List Request) : SharedMaps := qs.foldl answer m

section Answers

variable {m : SharedMaps} {q : Request} {a : Nat} {d : Dictionary Matcher}

theorem after_append (m : SharedMaps) (before later : List Request) :
    m.after (before ++ later) = (m.after before).after later :=
  List.foldl_append

theorem lt_of_getElem?_maps (h : m.maps[a]? = some d) : a < m.maps.length :=
  (List.getElem?_eq_some_iff.mp h).1

theorem maps_share (m : SharedMaps) (name : Text) (x : Matcher) :
    (m.share name x).maps = m.maps ++ [(m.maps[m.current]?.getD []).put name x] :=
  List.modifyTailIdx_add _ 0 m.maps [_]

/-- Only a map that was not there before is changed in place. -/
theorem getElem?_maps_answer (h : m.maps[a]? = some d) (q : Request) :
    (m.answer q).maps[a]? = some d := by
  have hkept : ∀ new : Dictionary Matcher, (m.maps ++ [new])[a]? = some d := by
    intro new
    rw [List.getElem?_append_left (lt_of_getElem?_maps h)]
    exact h
  unfold answer
  split
  · rw [maps_share]
    exact hkept _
  · split
    · exact hkept []
    · split
      · exact h
      · exact h

theorem getElem?_maps_after (h : m.maps[a]? = some d) (qs : List Request) :
    (m.after qs).maps[a]? = some d := by
  induction qs generalizing m with
  | nil => exact h
  | cons q qs ih => exact ih (getElem?_maps_answer h q)

theorem taken_answer (m : SharedMaps) (q : Request) :
    (m.answer q).taken = m.taken ++ if q.usesIdent then [m.current] else [] := by
  unfold answer
  split
  · next name x hshares =>
    rw [(Request.of_shares?_eq_some hshares).2, if_neg Bool.false_ne_true, List.append_nil]
    rfl
  · split
    · next hclears =>
      rw [Request.usesIdent_of_clears hclears, if_neg Bool.false_ne_true, List.append_nil]
      rfl
    · split
      · rfl
      · exact (List.append_nil _).symm

theorem exists_taken_after (m : SharedMaps) (qs : List Request) :
    ∃ more, (m.after qs).taken = m.taken ++ more := by
  induction qs generalizing m with
  | nil => exact ⟨[], (List.append_nil _).symm⟩
  | cons q qs ih =>
    obtain ⟨more, hmore⟩ := ih (m.answer q)
    rw [taken_answer, List.append_assoc] at hmore
    exact ⟨_, hmore⟩

/-- The current map changes by a request as the shared types do. -/
theorem current_answer (h : m.maps[m.current]? = some d) (q : Request) :
    (m.answer q).maps[(m.answer q).current]? =
      some (if q.clears then [] else q.shares?.elim d fun t => d.put t.1 t.2) := by
  unfold answer
  split
  · next name x hshares =>
    rw [maps_share, h, hshares, (Request.of_shares?_eq_some hshares).1]
    exact List.getElem?_concat_length
  · next hshares =>
    rw [hshares]
    split
    · exact List.getElem?_concat_length
    · split
      · exact h
      · exact h

end Answers

/-! ## Sessions -/

/-- The session holds by value what stands in the maps. -/
structure Represents (m : SharedMaps) (s : Session) : Prop where
  current : m.maps[m.current]? = some s.shared
  counted : m.taken.length = s.nextIdent
  held : ∀ o r, s.registryOf o = some r → m.mapOf? r.ident = some r.shared

section Representing

variable {m : SharedMaps} {s : Session} {o : Owner} {r : Registry} {d : Dictionary Matcher}
  {ident : Nat}

/-- A registry reads the same map whatever is requested later. -/
theorem mapOf?_after (h : m.mapOf? ident = some d) (qs : List Request) :
    (m.after qs).mapOf? ident = some d := by
  obtain ⟨a, ha, hmap⟩ := Option.bind_eq_some_iff.mp h
  obtain ⟨more, hmore⟩ := m.exists_taken_after qs
  obtain ⟨hlt, -⟩ := List.getElem?_eq_some_iff.mp ha
  refine Option.bind_eq_some_iff.mpr ⟨a, ?_, getElem?_maps_after hmap qs⟩
  rw [hmore, List.getElem?_append_left hlt]
  exact ha

theorem represents_start : start.Represents .empty := by
  refine ⟨rfl, rfl, ?_⟩
  intro o r hr
  cases o <;> cases hr

theorem Represents.answer (h : m.Represents s) (q : Request) :
    (m.answer q).Represents (s.answer q).1 := by
  refine ⟨?_, ?_, ?_⟩
  · rw [Session.shared_answer]
    exact current_answer h.current q
  · rw [taken_answer, Session.nextIdent_answer, List.length_append, h.counted]
    cases q.usesIdent <;> rfl
  · intro o r hr
    cases hmakes : q.makes? o with
    | none =>
      rw [Session.registryOf_answer hmakes] at hr
      obtain ⟨old, hold, rfl⟩ := Option.map_eq_some_iff.mp hr
      obtain ⟨-, hshared, -, hident⟩ := old.insertAll_own (q.adds? o).toList
      rw [hshared, hident]
      exact mapOf?_after (h.held o old hold) [q]
    | some builtin =>
      -- The new registry has the next number, and takes the address of what is shared by now.
      rw [Session.registryOf_answer_of_makes? hmakes] at hr
      have huses := Request.usesIdent_of_makes? hmakes
      split at hr
      · cases hr
        refine Option.bind_eq_some_iff.mpr ⟨m.current, ?_, getElem?_maps_answer h.current q⟩
        change (m.answer q).taken[s.nextIdent]? = some m.current
        rw [taken_answer, huses, if_pos rfl, ← h.counted]
        exact List.getElem?_concat_length
      · cases hr

theorem Represents.after (h : m.Represents s) (qs : List Request) :
    (m.after qs).Represents (s.after qs) := by
  induction qs generalizing m s with
  | nil => exact h
  | cons q qs ih => exact ih (h.answer q)

/-- To look a name up through the addresses comes to the same as by value, at any time after the
registry was there: what is requested in between, of whomever, changes no map that it reads. -/
theorem lookup_after {before : List Request}
    (h : (Session.empty.after before).registryOf o = some r)
    (later : List Request) (name : Text) :
    (start.after (before ++ later)).lookup r name = r.lookup name := by
  have hheld := (represents_start.after before).held o r h
  rw [lookup, after_append, mapOf?_after hheld later, Registry.lookup_eq]
  rfl

end Representing

/-- If the current map were changed in place, a registry that took its address would find the new
type. -/
example :
    let m := start.after [.act (.newRegistry "_" [])]
    (m.write m.current "x" (.undefined "")).lookup (.new 0 [] []) "x" = some (.undefined "") ∧
      (m.share "x" (.undefined "")).lookup (.new 0 [] []) "x" = none := by
  constructor <;> rfl

end SharedMaps

end TreeSpec
