import Mathlib.Data.List.Induction
import TreeSpec.Proofs.Registry.Lookup
import TreeSpec.Proofs.Session.Requests

/-!
# Registries do not interfere

A registry is what it was made of with the types that were added to it, whatever else was requested
of the session. The types that are shared are those that were shared since they were last cleared.
-/

namespace TreeSpec

set_option autoImplicit false

/-- The type that was given to the name last. -/
def latest (types : List (Text × Matcher)) (name : Text) : Option Matcher :=
  (types.reverse.find? (·.1 = name)).map (·.2)

/-- The types that the requests shared since they last cleared the shared types. -/
def sharedSinceClear (qs : List Request) : List (Text × Matcher) :=
  (qs.reverse.takeWhile (!·.clears)).reverse.filterMap Request.shares?

namespace Registry

theorem insertAll_own (r : Registry) (types : List (Text × Matcher)) :
    (r.insertAll types).own = types.foldl (fun d t => d.put t.1 t.2) r.own ∧
      (r.insertAll types).shared = r.shared ∧ (r.insertAll types).builtin = r.builtin ∧
      (r.insertAll types).ident = r.ident := by
  induction types generalizing r with
  | nil => exact ⟨rfl, rfl, rfl, rfl⟩
  | cons t types ih => exact ih (r.insert t.1 t.2)

theorem latest_cons (t : Text × Matcher) (types : List (Text × Matcher)) (name : Text) :
    latest (t :: types) name = (latest types name).or (if name = t.1 then some t.2 else none) := by
  unfold latest
  rw [List.reverse_cons, List.find?_append]
  by_cases h : t.1 = name
  · cases types.reverse.find? (·.1 = name) <;> simp [h]
  · cases types.reverse.find? (·.1 = name) <;> simp [h, Ne.symm h]

/-- The types that were added go first, the last of a name before the others. -/
theorem lookup_insertAll (r : Registry) (types : List (Text × Matcher)) (name : Text) :
    (r.insertAll types).lookup name = (latest types name).or (r.lookup name) := by
  induction types generalizing r with
  | nil => rfl
  | cons t types ih =>
    refine (ih (r.insert t.1 t.2)).trans ?_
    rw [latest_cons, Option.or_assoc, lookup_insert]
    split <;> rfl

theorem lookup_insertAll_new (ident : Nat) (builtin shared : Dictionary Matcher)
    (types : List (Text × Matcher)) (name : Text) :
    ((new ident builtin shared).insertAll types).lookup name =
      (latest types name).or ((shared.get? name).or (builtin.get? name)) := by
  rw [lookup_insertAll, lookup_eq]
  rfl

end Registry

namespace Request

variable {q : Request} {o : Owner}

theorem creates_eq_false (h : q.makes? o = none) : q.creates o = false := by
  unfold creates
  split
  · rfl
  · rw [h]
    rfl

/-- Either no request makes a registry for the owner, or one of them is the last to do so. -/
theorem last_makes (qs : List Request) (o : Owner) :
    (∀ q ∈ qs, q.makes? o = none) ∨ ∃ before q later builtin, qs = before ++ q :: later ∧
      q.makes? o = some builtin ∧ ∀ p ∈ later, p.makes? o = none := by
  induction qs with
  | nil => exact .inl fun q hq => absurd hq List.not_mem_nil
  | cons q qs ih =>
    rcases ih with hnone | ⟨before, p, later, builtin, rfl, hp, hlater⟩
    · cases hq : q.makes? o with
      | none =>
        refine .inl fun p hp => ?_
        rcases List.mem_cons.mp hp with rfl | hp
        · exact hq
        · exact hnone p hp
      | some builtin => exact .inr ⟨[], q, qs, builtin, rfl, hq, hnone⟩
    · exact .inr ⟨q :: before, p, later, builtin, rfl, hp, hlater⟩

end Request

namespace Session

variable {s t : Session} {o : Owner}

theorem sharedSinceClear_append (qs : List Request) (q : Request) :
    sharedSinceClear (qs ++ [q]) =
      if q.clears then [] else sharedSinceClear qs ++ q.shares?.toList := by
  unfold sharedSinceClear
  rw [List.reverse_append, List.reverse_singleton, List.singleton_append, List.takeWhile_cons]
  cases q.clears with
  | true => rfl
  | false =>
    rw [Bool.not_false, if_pos rfl, List.reverse_cons, List.filterMap_append]
    cases hq : q.shares? <;> simp [hq]

/-- The shared types are the dictionary of those that were shared since the last clearing. -/
theorem shared_after (qs : List Request) :
    (empty.after qs).shared = Dictionary.ofEntries (sharedSinceClear qs) := by
  induction qs using List.reverseRecOn with
  | nil => rfl
  | append_singleton qs q ih =>
    rw [after_append, sharedSinceClear_append]
    refine (shared_answer _ q).trans ?_
    rw [ih]
    cases q.clears with
    | true => rfl
    | false =>
      cases q.shares? with
      | none => exact congrArg Dictionary.ofEntries (List.append_nil _).symm
      | some e => simp [Dictionary.ofEntries]

/-- While no registry is made for an owner, types are added to the one that is there. -/
theorem registryOf_after {qs : List Request} (h : ∀ q ∈ qs, q.makes? o = none) :
    (s.after qs).registryOf o =
      (s.registryOf o).map (·.insertAll (qs.filterMap (·.adds? o))) := by
  induction qs generalizing s with
  | nil => exact (Option.map_id' ..).symm
  | cons q qs ih =>
    have hq := h q List.mem_cons_self
    have hqs : ∀ p ∈ qs, p.makes? o = none := fun p hp => h p (List.mem_cons_of_mem q hp)
    refine (ih hqs).trans ?_
    rw [registryOf_answer hq, Option.map_map]
    simp only [List.filterMap_cons]
    cases q.adds? o <;> rfl

theorem isSome_registryOf_answer (s : Session) (q : Request) (o : Owner) :
    ((s.answer q).1.registryOf o).isSome = (q.creates o || (s.registryOf o).isSome) := by
  cases hmakes : q.makes? o with
  | none =>
    rw [registryOf_answer hmakes, Option.isSome_map, Request.creates_eq_false hmakes, Bool.false_or]
  | some builtin =>
    rw [registryOf_answer_of_makes? hmakes]
    cases q.creates o || (s.registryOf o).isSome <;> rfl

theorem isSome_registryOf_after (s : Session) (qs : List Request) (o : Owner) :
    ((s.after qs).registryOf o).isSome ↔
      (∃ q ∈ qs, q.creates o = true) ∨ (s.registryOf o).isSome := by
  induction qs generalizing s with
  | nil => simp [after]
  | cons q qs ih =>
    refine (ih (s.answer q).1).trans ?_
    rw [isSome_registryOf_answer, Bool.or_eq_true, ← or_assoc]
    simp only [List.mem_cons, exists_eq_or_imp, or_comm]

/-- A registry was made at some time, of the types that were shared then, and added to since. -/
theorem registryOf_eq_some {qs : List Request} {r : Registry}
    (h : (empty.after qs).registryOf o = some r) :
    ∃ before q later builtin, qs = before ++ q :: later ∧ q.makes? o = some builtin ∧
      (∀ p ∈ later, p.makes? o = none) ∧
      r = (Registry.new r.ident builtin (empty.after before).shared).insertAll
        (later.filterMap (·.adds? o)) := by
  rcases Request.last_makes qs o with hnone | ⟨before, q, later, builtin, rfl, hq, hlater⟩
  -- Without a request that makes it, there is no registry, as there is none in the empty session.
  · rw [registryOf_after hnone] at h
    cases o <;> cases h
  · refine ⟨before, q, later, builtin, rfl, hq, hlater, ?_⟩
    rw [after_append] at h
    have hadded := (registryOf_after (s := ((empty.after before).answer q).1) hlater).symm.trans h
    rw [registryOf_answer_of_makes? hq] at hadded
    split at hadded
    · have hr : ((empty.after before).makeRegistry builtin).insertAll
          (later.filterMap (·.adds? o)) = r := Option.some.inj hadded
      have hident := (Registry.insertAll_own ((empty.after before).makeRegistry builtin)
        (later.filterMap (·.adds? o))).2.2.2
      rw [hr] at hident
      rw [hident]
      exact hr.symm
    · cases hadded

/-- While no registry is made for an owner, requests that are not for it can be left out. -/
theorem course_filter (h : s.find? o = t.find? o) {qs : List Request}
    (hqs : ∀ q ∈ qs, q.makes? o = none) :
    (s.after qs).find? o = (t.after (qs.filter (·.isFor o))).find? o ∧
      (s.course qs).filter (·.1.isFor o) = t.course (qs.filter (·.isFor o)) := by
  induction qs generalizing s t with
  | nil => exact ⟨h, rfl⟩
  | cons q qs ih =>
    have hq := hqs q List.mem_cons_self
    have hrest : ∀ p ∈ qs, p.makes? o = none := fun p hp => hqs p (List.mem_cons_of_mem q hp)
    by_cases hfor : q.owner? = some o
    · have hkeep : q.isFor o = true := decide_eq_true hfor
      obtain ⟨hanswer, hafter⟩ := answer_congr hfor hq h
      obtain ⟨hfind, hcourse⟩ := ih hafter hrest
      simp only [course, List.filter_cons, hkeep, if_true, hcourse, hanswer, and_true]
      exact hfind
    · have hdrop : q.isFor o = false := decide_eq_false hfor
      obtain ⟨hfind, hcourse⟩ := ih ((find?_answer_of_owner?_ne hfor).trans h) hrest
      simp only [course, List.filter_cons, hdrop, Bool.false_eq_true, if_false, hcourse, and_true]
      exact hfind

/-- After any requests the shared types are the last ones since the latest clearing. A name stands
for a registry once it was created; the registry is what it was made of, the shared types as they
were then among it, with its own types added in order, and finds the types in that precedence.
Requests for other owners, or for none, do not show in what an owner becomes and answers. -/
theorem registries_isolated (qs : List Request) :
    (∀ name, (empty.after qs).shared.get? name = latest (sharedSinceClear qs) name) ∧
    (∀ o, ((empty.after qs).registryOf o).isSome ↔ ∃ q ∈ qs, q.creates o = true) ∧
    (∀ o r, (empty.after qs).registryOf o = some r →
      ∃ before q later builtin, qs = before ++ q :: later ∧ q.makes? o = some builtin ∧
        (∀ p ∈ later, p.makes? o = none) ∧
        r = (Registry.new r.ident builtin (empty.after before).shared).insertAll
          (later.filterMap (·.adds? o)) ∧
        ∀ name, r.lookup name = (latest (later.filterMap (·.adds? o)) name).or
          (((empty.after before).shared.get? name).or (builtin.get? name))) ∧
    ∀ o before later, qs = before ++ later → (∀ q ∈ later, q.makes? o = none) →
      (empty.after qs).find? o = (empty.after (before ++ later.filter (·.isFor o))).find? o ∧
      ((empty.after before).course later).filter (·.1.isFor o) =
        (empty.after before).course (later.filter (·.isFor o)) := by
  refine ⟨?_, ?_, ?_, ?_⟩
  · intro name
    rw [shared_after]
    exact Dictionary.get?_ofEntries _ name
  · intro o
    refine (isSome_registryOf_after empty qs o).trans (or_iff_left ?_)
    cases o <;> exact Bool.false_ne_true
  · intro o r hr
    obtain ⟨before, q, later, builtin, hqs, hq, hlater, hregistry⟩ := registryOf_eq_some hr
    refine ⟨before, q, later, builtin, hqs, hq, hlater, hregistry, fun name => ?_⟩
    rw [hregistry]
    exact Registry.lookup_insertAll_new _ _ _ _ name
  · intro o before later hqs hlater
    subst hqs
    rw [after_append, after_append]
    exact course_filter rfl hlater

/-- A type that is shared anew does not change what it stands for in a registry that was there. -/
theorem lookup_of_type_shared_anew :
    let before : List Request :=
      [.act (.registerShared "_" (.ready (.undefined "1")) ""), .act (.newRegistry "_" [])]
    let later : List Request :=
      [.act (.registerShared "_" (.ready (.undefined "2")) ""), .lookup (.registry "_") "_"]
    ((empty.after before).course later).filter (·.1.isFor (.registry "_")) =
        [(.lookup (.registry "_") "_", .matcher (some (.undefined "1")))] ∧
      ∃ pre q post builtin, before ++ later = pre ++ q :: post ∧
        q.makes? (.registry "_") = some builtin := by
  intro before later
  have hlater : ∀ q ∈ later, q.makes? (.registry "_") = none := by
    intro q hq
    rcases List.mem_cons.mp hq with rfl | hq
    · rfl
    · rw [List.mem_singleton.mp hq]
      rfl
  have hregistry : (empty.after (before ++ later)).registryOf (.registry "_") =
      some (.new 0 [] [("_", .undefined "1")]) := by
    rfl
  obtain ⟨-, -, hmade, hcourse⟩ := registries_isolated (before ++ later)
  refine ⟨(hcourse (.registry "_") before later rfl hlater).2.trans ?_, ?_⟩
  · rfl
  · obtain ⟨pre, q, post, builtin, hqs, hq, -⟩ := hmade (.registry "_") _ hregistry
    exact ⟨pre, q, post, builtin, hqs, hq⟩

end Session

end TreeSpec
