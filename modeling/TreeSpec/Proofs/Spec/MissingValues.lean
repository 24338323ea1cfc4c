import TreeSpec.Proofs.Spec.Clauses

/-!
# The reserved word in a compiled spec

A compiled spec allows a missing value if the reserved word stands before the first alternative
whose name stands for nothing. So the flag tells of a valid spec whether the word occurs in it, and
of one that is not valid only what was read up to the name that is unknown.
-/

namespace TreeSpec

set_option autoImplicit false

namespace Alternative

variable {r : Registry} {x : Alternative} {xs before rest : List Alternative}

theorem isKnown_reserved (r : Registry) : reserved.isKnown r = true :=
  isKnown_iff.mpr (absurd rfl)

theorem isKnown_eq_false_iff : x.isKnown r = false ↔ x ≠ reserved ∧ r.resolve x.name = none := by
  rw [← Bool.not_eq_true, isKnown_iff, Classical.not_imp, Option.not_isSome_iff_eq_none]

/-- The reserved word is reached if all before it are known. -/
theorem reserved_mem_takeWhile_iff : reserved ∈ xs.takeWhile (isKnown r) ↔
    ∃ before after, xs = before ++ reserved :: after ∧ ∀ x ∈ before, x.isKnown r = true := by
  constructor
  · intro h
    obtain ⟨before, rest, hsplit⟩ := List.append_of_mem h
    have hall : ∀ x ∈ xs.takeWhile (isKnown r), x.isKnown r = true :=
      List.all_eq_true.mp List.all_takeWhile
    rw [hsplit] at hall
    refine ⟨before, rest ++ xs.dropWhile (isKnown r), ?_, ?_⟩
    · rw [← List.cons_append, ← List.append_assoc, ← hsplit, List.takeWhile_append_dropWhile]
    · intro x hx
      exact hall x (List.mem_append_left _ hx)
  · rintro ⟨before, after, rfl, hknown⟩
    rw [List.takeWhile_append_of_pos hknown, List.takeWhile_cons_of_pos (isKnown_reserved r)]
    exact List.mem_append_right before List.mem_cons_self

/-- Nothing is reached beyond an alternative that is not known. -/
theorem mem_of_mem_takeWhile_unknown {y : Alternative} (hx : x.isKnown r = false)
    (hy : y ∈ (before ++ x :: rest).takeWhile (isKnown r)) : y ∈ before := by
  have hstop : (x :: rest).takeWhile (isKnown r) = [] :=
    List.takeWhile_cons_of_neg (ne_true_of_eq_false hx)
  rw [List.takeWhile_append, hstop, List.append_nil] at hy
  split at hy
  · exact hy
  · exact List.takeWhile_subset _ hy

end Alternative

namespace Expression

variable {r : Registry} {spec : Text} {xs : List Alternative}

theorem allowsMissing_compile (hparse : Alternative.parse spec = .ok xs) :
    (compile r spec).allowsMissing = true ↔
    Alternative.reserved ∈ xs.takeWhile (Alternative.isKnown r) := by
  have hflag :
      (compile r spec).allowsMissing =
      (xs.takeWhile (Alternative.isKnown r)).any (·.isOptional) := by
    simp only [compile_eq, hparse, ofAlternatives]
    split <;> rfl
  rw [hflag, List.any_eq_true]
  simp only [Alternative.isOptional_iff, exists_eq_right]

/-- The flag of a spec that is parsed is set just if the reserved word occurs and every alternative
before it stands for something. So it is set for a valid spec just if the word occurs at all, and it
misses the word just where an alternative that stands for nothing comes before it. -/
theorem allowsMissing_iff_reserved_reached (r : Registry)
    (hparse : Alternative.parse spec = .ok xs) :
    ((compile r spec).allowsMissing = true ↔
      ∃ before after, xs = before ++ Alternative.reserved :: after ∧
      ∀ x ∈ before, x ≠ Alternative.reserved → (r.resolve x.name).isSome = true) ∧
    ((compile r spec).isValid = true →
      ((compile r spec).allowsMissing = true ↔ Alternative.reserved ∈ xs)) ∧
    (¬ ((compile r spec).allowsMissing = true ↔ Alternative.reserved ∈ xs) ↔
      ∃ before x middle after, xs = before ++ x :: (middle ++ Alternative.reserved :: after) ∧
        Alternative.reserved ∉ before ∧ x ≠ Alternative.reserved ∧ r.resolve x.name = none) := by
  have hflag := allowsMissing_compile (r := r) hparse
  have hoccurs : (compile r spec).allowsMissing = true → Alternative.reserved ∈ xs :=
    fun h => List.takeWhile_subset _ (hflag.mp h)
  refine ⟨?_, fun hvalid => ⟨hoccurs, fun hmem => ?_⟩, ?_⟩
  · simp only [hflag, Alternative.reserved_mem_takeWhile_iff, Alternative.isKnown_iff]
  · have hall : ∀ x ∈ xs, x.isKnown r = true := by
      rw [isValid_compile_eq_all hparse] at hvalid
      exact List.all_eq_true.mp hvalid
    rw [hflag, List.takeWhile_eq_self_iff.mpr hall]
    exact hmem
  · constructor
    · intro hne
      have hmem : Alternative.reserved ∈ xs := by
        by_contra hnot
        exact hne ⟨hoccurs, fun h => absurd h hnot⟩
      have hunset : ¬ (compile r spec).allowsMissing = true := fun h => hne ⟨hoccurs, fun _ => h⟩
      obtain ⟨front, after, rfl, hfirst⟩ := List.eq_append_cons_of_mem hmem
      -- The word is not reached, so one of those before it is not known.
      rw [hflag, Alternative.reserved_mem_takeWhile_iff] at hunset
      obtain ⟨x, hx, hunknown⟩ : ∃ x ∈ front, x.isKnown r = false := by
        by_contra! hall
        refine hunset ⟨front, after, rfl, fun x hx => ?_⟩
        exact Bool.of_not_eq_false (hall x hx)
      obtain ⟨before, middle, rfl⟩ := List.append_of_mem hx
      have hbefore : Alternative.reserved ∉ before := fun h => hfirst (List.mem_append_left _ h)
      exact ⟨before, x, middle, after, by simp, hbefore,
        Alternative.isKnown_eq_false_iff.mp hunknown⟩
    · rintro ⟨before, x, middle, after, rfl, hbefore, hx⟩ hiff
      have hset := hiff.mpr (by simp)
      exact hbefore (Alternative.mem_of_mem_takeWhile_unknown
        (Alternative.isKnown_eq_false_iff.mpr hx)
        (hflag.mp hset))

/-- The word stands behind an inversion and an alternative that only looks like it, and before one
that stands for nothing. -/
theorem allowsMissing_before_unknown_name :
    let r := (Registry.new 0 [("x", .undefined "")] []).insert "optional" (.undefined "")
    let spec : Text := "nox( 1-)|optional()|optional|z|optional"
    Alternative.parse spec = .ok [⟨"nox", some " 1-"⟩, ⟨"optional", some []⟩,
        Alternative.reserved, ⟨"z", none⟩, Alternative.reserved] ∧
      (compile r spec).isValid = false ∧ (compile r spec).allowsMissing = true := by
  intro r spec
  have hparse : Alternative.parse spec = .ok [⟨"nox", some " 1-"⟩, ⟨"optional", some []⟩,
      Alternative.reserved, ⟨"z", none⟩, Alternative.reserved] :=
    ok_of_toOption (by decide +kernel)
  refine ⟨hparse, by decide +kernel, (allowsMissing_iff_reserved_reached r hparse).1.mpr ?_⟩
  refine ⟨[⟨"nox", some " 1-"⟩, ⟨"optional", some []⟩],
    [⟨"z", none⟩, Alternative.reserved], rfl, ?_⟩
  decide +kernel

/-- The word comes after a name that stands for nothing, and the flag is not set. -/
theorem allowsMissing_misses_word_after_unknown_name :
    let r := Registry.new 0 [] []
    let spec : Text := "x | optional"
    ∃ xs, Alternative.parse spec = .ok xs ∧
      ¬ ((compile r spec).allowsMissing = true ↔ Alternative.reserved ∈ xs) := by
  intro r spec
  have hparse : Alternative.parse spec = .ok [⟨"x", none⟩, Alternative.reserved] :=
    ok_of_toOption (by decide +kernel)
  refine ⟨_, hparse, fun hiff => ?_⟩
  have hunset : (compile r spec).allowsMissing = false := by decide +kernel
  have hset := hiff.mpr (by simp)
  rw [hunset] at hset
  cases hset

end Expression

end TreeSpec
