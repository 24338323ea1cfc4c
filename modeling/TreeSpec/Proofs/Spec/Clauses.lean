import Mathlib.Data.List.Forall2
import TreeSpec.Proofs.Spec.Evaluation
import TreeSpec.Proofs.Spec.Labels

/-!
# Clauses and alternatives

A valid spec has one clause for each of its alternatives, the reserved word apart. A spec that is
not valid says why and tries nothing. What a spec accepts depends on which alternatives it has, and
neither on their order nor on how often each of them is written.
-/

namespace TreeSpec

set_option autoImplicit false

namespace Alternative

/-- The clause of an alternative: what the name stands for, and the arguments as they were
written. -/
structure Compiled (r : Registry) (x : Alternative) (c : Clause) : Prop where
  resolved : r.resolve x.name = some ⟨c.name, c.matcher, c.negated⟩
  rawArgs : c.rawArgs = x.rawArgs
  parsedArgs : c.parsedArgs = splitArgs x.rawArgs

variable {r : Registry} {x : Alternative} {c : Clause} {xs : List Alternative}

theorem compiled_of_clause? (h : x.clause? r = some c) : x.Compiled r c := by
  obtain ⟨found, hfound, rfl⟩ := Option.map_eq_some_iff.mp h
  exact ⟨hfound, rfl, rfl⟩

theorem isKnown_iff : x.isKnown r = true ↔ (x ≠ reserved → (r.resolve x.name).isSome = true) := by
  unfold isKnown Registry.isRegistered
  rw [Bool.or_eq_true, isOptional_iff]
  exact Classical.or_iff_not_imp_left

theorem isOptional_eq_false_iff : x.isOptional = false ↔ x ≠ reserved := by
  rw [Ne, ← isOptional_iff, Bool.not_eq_true]

/-- Alternatives that are all known have a clause each, in their order. -/
theorem forall₂_compiled (hknown : ∀ x ∈ xs, x.isKnown r = true)
    (hnot : ∀ x ∈ xs, x.isOptional = false) :
    List.Forall₂ (Compiled r) xs (xs.filterMap (·.clause? r)) := by
  induction xs with
  | nil => exact .nil
  | cons x xs ih =>
    obtain ⟨hx, hxs⟩ := List.forall_mem_cons.mp hknown
    obtain ⟨hx', hxs'⟩ := List.forall_mem_cons.mp hnot
    obtain ⟨c, hc⟩ := exists_clause? hx hx'
    have hclauses : (x :: xs).filterMap (·.clause? r) = c :: xs.filterMap (·.clause? r) :=
      List.filterMap_cons_some hc
    rw [hclauses]
    exact .cons (compiled_of_clause? hc) (ih hxs hxs')

end Alternative

namespace Expression

variable {r : Registry} {spec : Text} {c : Clause} {xs : List Alternative}

/-- Why a spec is not valid, in words: it is not parsed, or one alternative is the first whose name
stands for nothing. -/
inductive Reason (r : Registry) (spec : Text) : Text → Prop where
  | malformed {fault : SpecError} (hparse : Alternative.parse spec = .error fault) :
      Reason r spec ("Invalid type spec '" ++ spec ++ "': " ++ fault.message)
  | unknownType {before after : List Alternative} {x : Alternative}
      (hparse : Alternative.parse spec = .ok (before ++ x :: after))
      (hbefore : ∀ y ∈ before, y ≠ Alternative.reserved → (r.resolve y.name).isSome = true)
      (hx : x ≠ Alternative.reserved) (hnone : r.resolve x.name = none) :
      Reason r spec ("Unknown type '" ++ x.name ++ "'")

theorem isValid_iff_resolved :
    (compile r spec).isValid = true ↔ ∃ xs, Alternative.parse spec = .ok xs ∧
    ∀ x ∈ xs, x ≠ Alternative.reserved → (r.resolve x.name).isSome = true := by
  simp only [isValid_compile_iff, List.all_eq_true, Alternative.isKnown_iff]

theorem forall₂_clauses (hparse : Alternative.parse spec = .ok xs)
    (hvalid : (compile r spec).isValid = true) :
    List.Forall₂ (Alternative.Compiled r) (xs.filter (· ≠ Alternative.reserved))
    (compile r spec).clauses := by
  obtain ⟨ys, hys, hall⟩ := isValid_compile_iff.mp hvalid
  obtain rfl : xs = ys := Except.ok.inj (hparse.symm.trans hys)
  have hfilter : xs.filter (· ≠ Alternative.reserved) = xs.filter (!·.isOptional) := by
    apply List.filter_congr
    intro x _
    rw [Bool.eq_iff_iff, decide_eq_true_eq, Bool.not_eq_true', Alternative.isOptional_eq_false_iff]
  rw [compile_of_parse hparse hall, hfilter]
  apply Alternative.forall₂_compiled
  · intro x hx
    exact List.all_eq_true.mp hall x (List.mem_filter.mp hx).1
  · intro x hx
    simpa using (List.mem_filter.mp hx).2

theorem spec_compile (r : Registry) (spec : Text) : (compile r spec).spec = spec := by
  rw [compile_eq]
  split
  · rfl
  · unfold ofAlternatives
    simp only
    split <;> rfl

/-- A spec that is not valid has no clauses, and its error tells the reason and the spec. -/
theorem error_of_not_isValid (h : (compile r spec).isValid = false) :
    (compile r spec).clauses = [] ∧
    ∃ error, (compile r spec).error = some error ∧ error.spec = spec ∧
    Reason r spec error.message := by
  cases hparse : Alternative.parse spec with
  | error fault =>
    simp only [compile_eq, hparse]
    exact ⟨rfl, _, rfl, rfl, .malformed hparse⟩
  | ok xs =>
    simp only [compile_eq, hparse, ofAlternatives] at h ⊢
    have hsplit :
        xs.takeWhile (Alternative.isKnown r) ++ xs.dropWhile (Alternative.isKnown r) = xs :=
      List.takeWhile_append_dropWhile
    cases hdrop : xs.dropWhile (Alternative.isKnown r) with
    | nil =>
      rw [hdrop] at h
      cases h
    | cons x after =>
      have hunknown : ¬ Alternative.isKnown r x = true := by
        have hhead := List.head?_dropWhile_not (Alternative.isKnown r) xs
        rw [hdrop] at hhead
        rw [Bool.not_eq_true]
        exact hhead
      rw [Alternative.isKnown_iff, Classical.not_imp, Option.not_isSome_iff_eq_none] at hunknown
      obtain ⟨hx, hnone⟩ := hunknown
      rw [hdrop] at hsplit
      refine ⟨rfl, _, rfl, rfl, .unknownType (hparse.trans (congrArg _ hsplit.symm)) ?_ hx hnone⟩
      intro y hy
      exact Alternative.isKnown_iff.mp (List.all_eq_true.mp List.all_takeWhile y hy)

/-- Compiling a spec, whatever it is, gives an expression that is valid just if the spec is parsed
and all names stand for something, the reserved word apart. The clauses of a valid one are those of
the alternatives in their order. One that is not valid has no clauses, gives the first reason, and
accepts nothing without a trial. -/
theorem compile_exact (r : Registry) (spec : Text) :
    (compile r spec).spec = spec ∧
    ((compile r spec).isValid = true ↔ ∃ xs, Alternative.parse spec = .ok xs ∧
      ∀ x ∈ xs, x ≠ Alternative.reserved → (r.resolve x.name).isSome = true) ∧
    (∀ xs, Alternative.parse spec = .ok xs → (compile r spec).isValid = true →
      List.Forall₂ (Alternative.Compiled r) (xs.filter (· ≠ Alternative.reserved))
        (compile r spec).clauses) ∧
    ((compile r spec).isValid = false →
      (compile r spec).clauses = [] ∧
      (∃ error, (compile r spec).error = some error ∧ error.spec = spec ∧
        Reason r spec error.message) ∧
      ∀ value, (compile r spec).accepts value = false ∧ (compile r spec).attempts value = []) := by
  refine ⟨spec_compile r spec, isValid_iff_resolved, fun xs => forall₂_clauses, ?_⟩
  · intro hinvalid
    obtain ⟨hclauses, error, herror, hspec, hreason⟩ := error_of_not_isValid hinvalid
    refine ⟨hclauses, ⟨error, herror, hspec, hreason⟩,
      fun value => ⟨accepts_of_error herror value, ?_⟩⟩
    simp only [attempts, herror]

/-- The reserved word does not help a spec with unknown names, of which the first one is told. A
known name may be inverted, and may be written twice. -/
theorem compile_of_unknown_inversion :
    let r := (Registry.new 0 [] []).insert "x" (.undefined "")
    let spec : Text := "optional|x|noz|z"
    let known : Text := "nox( 1-)|optional|x()|nox( 1-)"
    (compile r spec).error = some (.unknownType "noz" spec) ∧
      (compile r spec).accepts none = false ∧
      List.Forall₂ (Alternative.Compiled r) [⟨"nox", some " 1-"⟩, ⟨"x", some []⟩,
        ⟨"nox", some " 1-"⟩]
        (compile r known).clauses := by
  intro r spec known
  have hinvalid : (compile r spec).isValid = false := by decide +kernel
  have hvalid : (compile r known).isValid = true := by decide +kernel
  have hparse : Alternative.parse known =
      .ok [⟨"nox", some " 1-"⟩, ⟨"optional", none⟩, ⟨"x", some []⟩, ⟨"nox", some " 1-"⟩] :=
    ok_of_toOption (by decide +kernel)
  obtain ⟨-, -, hclauses, -⟩ := compile_exact r known
  obtain ⟨-, -, -, hbroken⟩ := compile_exact r spec
  exact ⟨by decide +kernel, ((hbroken hinvalid).2.2 none).1, hclauses _ hparse hvalid⟩

end Expression

section SameAlternatives

namespace Expression

variable {r : Registry} {s t : Text} {xs ys : List Alternative} {c : Clause}

theorem mem_clauses_ofKnown : c ∈ (ofKnown r s xs).clauses ↔
    ∃ x ∈ xs, x.isOptional = false ∧ x.clause? r = some c := by
  simp [ofKnown, List.mem_filterMap, and_assoc]

/-- A spec that is parsed is valid if all its alternatives are known. -/
theorem isValid_compile_eq_all (h : Alternative.parse s = .ok xs) :
    (compile r s).isValid = xs.all (Alternative.isKnown r) := by
  rw [Bool.eq_iff_iff, isValid_compile_iff]
  constructor
  · rintro ⟨ys, hys, hall⟩
    rw [Except.ok.inj (h.symm.trans hys)]
    exact hall
  · intro hall
    exact ⟨xs, h, hall⟩

theorem accepts_ofKnown_congr (h : ∀ x, x ∈ xs ↔ x ∈ ys) (value : Option Text) :
    (ofKnown r s xs).accepts value = (ofKnown r t ys).accepts value := by
  rw [Bool.eq_iff_iff]
  cases value with
  | none =>
    rw [accepts_none rfl, accepts_none rfl]
    simp only [ofKnown, List.any_eq_true, h]
  | some text =>
    rw [accepts_some rfl, accepts_some rfl]
    simp only [List.any_eq_true, mem_clauses_ofKnown, h]

/-- Two specs of the same alternatives, in any order and each written any number of times, are valid
or not together, and they accept the same values. -/
theorem accepts_of_same_alternatives (hs : Alternative.parse s = .ok xs)
    (ht : Alternative.parse t = .ok ys)
    (h : ∀ x, x ∈ xs ↔ x ∈ ys) :
    (((compile r s).isValid = false ∧ (compile r t).isValid = false) ∨
      ((compile r s).isValid = true ∧ (compile r t).isValid = true ∧
        (compile r s).allowsMissing = (compile r t).allowsMissing)) ∧
    ∀ value, (compile r s).accepts value = (compile r t).accepts value := by
  have hvalid : (compile r s).isValid = (compile r t).isValid := by
    rw [isValid_compile_eq_all hs, isValid_compile_eq_all ht, Bool.eq_iff_iff]
    simp only [List.all_eq_true, h]
  cases hside : (compile r t).isValid with
  | false =>
    rw [hside] at hvalid
    obtain ⟨-, error, herror, -⟩ := error_of_not_isValid hvalid
    obtain ⟨-, error', herror', -⟩ := error_of_not_isValid hside
    refine ⟨.inl ⟨hvalid, rfl⟩, fun value => ?_⟩
    rw [accepts_of_error herror, accepts_of_error herror']
  | true =>
    rw [hside] at hvalid
    have hknown := (isValid_compile_eq_all hs).symm.trans hvalid
    have hknown' := (isValid_compile_eq_all ht).symm.trans hside
    have hmissing : xs.any (·.isOptional) = ys.any (·.isOptional) := by
      rw [Bool.eq_iff_iff]
      simp only [List.any_eq_true, h]
    rw [compile_of_parse hs hknown, compile_of_parse ht hknown']
    exact ⟨.inr ⟨rfl, rfl, hmissing⟩, accepts_ofKnown_congr h⟩

/-- A type that fails stands first in the one spec, and last and twice in the other one. -/
theorem accepts_of_failing_type_written_twice :
    let r := (Registry.new 0 [("x", .undefined "")] []).insert "y"
      (.predicate ⟨"y", "", fun _ => pure true⟩ "")
    let s : Text := "x|optional|y( )|nox"
    let t : Text := "y( ) | nox|optional|x|x"
    (compile r s).isValid = true ∧ (compile r t).accepts (some []) = true ∧
      ∀ value, (compile r s).accepts value = (compile r t).accepts value := by
  intro r s t
  have hs : Alternative.parse s =
      .ok [⟨"x", none⟩, ⟨"optional", none⟩, ⟨"y", some " "⟩, ⟨"nox", none⟩] :=
    ok_of_toOption (by decide +kernel)
  have ht : Alternative.parse t =
      .ok [⟨"y", some " "⟩, ⟨"nox", none⟩, ⟨"optional", none⟩, ⟨"x", none⟩, ⟨"x", none⟩] :=
    ok_of_toOption (by decide +kernel)
  refine ⟨by decide +kernel, by decide +kernel, (accepts_of_same_alternatives hs ht ?_).2⟩
  intro x
  simp only [List.mem_cons, List.not_mem_nil, or_false]
  grind

end Expression

end SameAlternatives

end TreeSpec
