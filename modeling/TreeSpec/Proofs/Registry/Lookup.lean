import TreeSpec.Registry

/-!
# What a name stands for

A name is looked up in the three tiers in turn. Where none of them has it, it may still be read as
`no` in front of a name that one of them has. Registering a type changes what these two readings
give for that name, and nothing else. A registration that fails changes nothing, since it does so
before it writes.
-/

namespace TreeSpec

set_option autoImplicit false

/-- A name is read as `no` in front of another one just if it is so written and the other is not
empty. -/
theorem negationBase?_eq_some {name base : Text} :
    negationBase? name = some base ↔ name = "no" ++ base ∧ base ≠ [] := by
  constructor
  · intro h
    unfold negationBase? at h
    split at h
    · cases h
      exact ⟨rfl, List.cons_ne_nil _ _⟩
    · cases h
  · rintro ⟨rfl, hne⟩
    obtain ⟨c, cs, rfl⟩ := List.exists_cons_of_ne_nil hne
    rfl

namespace Registry

/-- A type of the registry's own, in place of an earlier one of that name, and one more version. -/
def insert (r : Registry) (name : Text) (m : Matcher) : Registry :=
  { r with own := r.own.put name m, version := r.version + 1 }

section Add

variable {ε : Type} (name : Text) (source : MatcherSource) (description : Text)

theorem outcome_add (r : Registry) :
    ((add name source description).outcome r : Registry × Effect ε Unit) =
      match Matcher.ofSource source description with
      | .ok m => (r.insert name m, pure ())
      | .error e => (r, .fail e) := by
  rw [add, Change.outcome_ofExcept_bind]
  cases Matcher.ofSource source description <;> rfl

theorem register_eq (r : Registry) : r.register name source description =
    (Matcher.ofSource source description).map (r.insert name) := by
  unfold register add
  cases Matcher.ofSource source description <;> rfl

end Add

variable (r : Registry) (name : Text)

theorem lookup_eq :
    r.lookup name = (r.own.get? name).or ((r.shared.get? name).or (r.builtin.get? name)) := by
  unfold lookup find? tiers
  cases ho : r.own.get? name with
  | some m => simp [ho]
  | none =>
    cases hs : r.shared.get? name with
    | some m => simp [ho, hs]
    | none => cases hb : r.builtin.get? name <;> simp [ho, hs, hb]

theorem lookup_insert (m : Matcher) (other : Text) :
    (r.insert name m).lookup other = if other = name then some m else r.lookup other := by
  rw [lookup_eq, lookup_eq]
  have hown : (r.insert name m).own.get? other =
      if other = name then some m else r.own.get? other := Dictionary.get?_put r.own name other m
  rw [hown]
  by_cases h : other = name
  · rw [if_pos h, if_pos h]
    rfl
  · rw [if_neg h, if_neg h]
    rfl

variable {r name}

theorem lookupNegated_eq_some {base : Text} {inverted : Matcher} :
    r.lookupNegated name = some (base, inverted) ↔
      name = "no" ++ base ∧ base ≠ [] ∧ ∃ m, r.lookup base = some m ∧ inverted = .negated m := by
  unfold lookupNegated
  constructor
  · intro h
    obtain ⟨b, hb, h⟩ := Option.bind_eq_some_iff.mp h
    obtain ⟨m, hm, h⟩ := Option.bind_eq_some_iff.mp h
    cases h
    obtain ⟨hname, hne⟩ := negationBase?_eq_some.mp hb
    exact ⟨hname, hne, m, hm, rfl⟩
  · rintro ⟨hname, hne, m, hm, rfl⟩
    have hb := negationBase?_eq_some.mpr ⟨hname, hne⟩
    rw [hb, Option.bind_eq_bind, Option.bind_some, hm]
    rfl

theorem resolve_of_lookup {m : Matcher} (h : r.lookup name = some m) :
    r.resolve name = some ⟨name, m, false⟩ := by
  unfold resolve
  rw [h]

theorem resolve_of_lookup_eq_none (h : r.lookup name = none) :
    r.resolve name = (r.lookupNegated name).map fun b => ⟨b.1, b.2, true⟩ := by
  unfold resolve
  rw [h]

theorem resolve_negation {m : Matcher} (hne : name ≠ []) (h : r.lookup name = some m)
    (hnot : r.lookup ("no" ++ name) = none) :
    r.resolve ("no" ++ name) = some ⟨name, .negated m, true⟩ := by
  have hnegated : r.lookupNegated ("no" ++ name) = some (name, .negated m) :=
    lookupNegated_eq_some.mpr ⟨rfl, hne, m, h, rfl⟩
  rw [resolve_of_lookup_eq_none hnot, hnegated]
  rfl

/-- What a name stands for bears the name, or is the inversion of a type whose name is the rest of
it. -/
theorem name_of_resolve {found : Resolution} (h : r.resolve name = some found) :
    name = if found.negated then "no" ++ found.name else found.name := by
  cases hl : r.lookup name with
  | some m =>
    rw [resolve_of_lookup hl] at h
    cases h
    rfl
  | none =>
    rw [resolve_of_lookup_eq_none hl] at h
    obtain ⟨⟨base, inverted⟩, hb, rfl⟩ := Option.map_eq_some_iff.mp h
    exact (lookupNegated_eq_some.mp hb).1

/-- A name stands for something if one of its two readings does. -/
theorem isRegistered_iff : r.isRegistered name = true ↔
    (r.lookup name).isSome ∨ ∃ base, name = "no" ++ base ∧ base ≠ [] ∧ (r.lookup base).isSome := by
  unfold isRegistered
  cases hl : r.lookup name with
  | some m => simp [resolve_of_lookup hl]
  | none =>
    rw [resolve_of_lookup_eq_none hl, Option.isSome_map]
    constructor
    · intro h
      obtain ⟨⟨base, inverted⟩, hb⟩ := Option.isSome_iff_exists.mp h
      obtain ⟨hname, hne, m, hm, -⟩ := lookupNegated_eq_some.mp hb
      exact .inr ⟨base, hname, hne, Option.isSome_iff_exists.mpr ⟨m, hm⟩⟩
    · rintro (h | ⟨base, hname, hne, hbase⟩)
      · cases h
      · obtain ⟨m, hm⟩ := Option.isSome_iff_exists.mp hbase
        have hb : r.lookupNegated name = some (base, .negated m) :=
          lookupNegated_eq_some.mpr ⟨hname, hne, m, hm, rfl⟩
        exact Option.isSome_iff_exists.mpr ⟨_, hb⟩

end Registry

end TreeSpec
