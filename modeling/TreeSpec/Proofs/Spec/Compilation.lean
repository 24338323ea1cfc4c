import Mathlib.Data.List.Basic
import Mathlib.Data.List.TakeWhile
import TreeSpec.Spec.Expression

/-!
# Compiling alternatives

Compiling goes through the alternatives up to the first one that is not known. So a spec is valid
just if it is parsed and all its alternatives are known. Compiling reads nothing of a registry but
what it gives for the names of the alternatives.
-/

namespace TreeSpec

set_option autoImplicit false

/-- The reserved word, or a name that stands for a type. -/
def Alternative.isKnown (r : Registry) (a : Alternative) : Bool :=
  a.isOptional || r.isRegistered a.name

section Known

variable {r : Registry} {s : Text}

theorem Alternative.isKnown_eq_isSome_clause? {a : Alternative} (h : a.isOptional = false) :
    a.isKnown r = (a.clause? r).isSome := by
  rw [isKnown, h, Bool.false_or, Registry.isRegistered, clause?, Option.isSome_map]

namespace Expression

/-- What compiling alternatives comes to. -/
def ofAlternatives (r : Registry) (spec : Text) (alternatives : List Alternative) : Expression :=
  let known := alternatives.takeWhile (Alternative.isKnown r)
  let allowsMissing := known.any (·.isOptional)
  match alternatives.dropWhile (Alternative.isKnown r) with
  | [] =>
    ⟨spec, (known.filter (!·.isOptional)).filterMap (·.clause? r), allowsMissing, none⟩
  | unknown :: _ => ⟨spec, [], allowsMissing, some (.unknownType unknown.name spec)⟩

/-- The same behind alternatives that gave these clauses. -/
def behind (clauses : List Clause) (allowsMissing : Bool) (e : Expression) : Expression :=
  { e with
    clauses := if e.isValid then clauses ++ e.clauses else []
    allowsMissing := allowsMissing || e.allowsMissing }

/-- By induction on the alternatives that are left, whatever those before gave. -/
theorem compileOnto_eq_behind (xs : List Alternative) (clauses : List Clause)
    (allowsMissing : Bool) :
    compileOnto r s clauses allowsMissing xs =
      (ofAlternatives r s xs).behind clauses allowsMissing := by
  induction xs generalizing clauses allowsMissing with
  | nil => simp [compileOnto, ofAlternatives, behind, isValid]
  | cons x xs ih =>
    unfold compileOnto
    cases hoptional : x.isOptional with
    | true =>
      have hknown : x.isKnown r = true := by rw [Alternative.isKnown, hoptional, Bool.true_or]
      rw [if_pos rfl, ih]
      cases h : xs.dropWhile (Alternative.isKnown r) <;>
        simp [ofAlternatives, behind, isValid, hknown, hoptional, h]
    | false =>
      have hknown := Alternative.isKnown_eq_isSome_clause? (r := r) hoptional
      rw [if_neg Bool.false_ne_true]
      cases hclause : x.clause? r with
      | none => simp [ofAlternatives, behind, isValid, hknown, hclause]
      | some c =>
        simp only [ih]
        cases h : xs.dropWhile (Alternative.isKnown r) <;>
          simp [ofAlternatives, behind, isValid, hknown, hclause, hoptional, h]

theorem compileOnto_eq (xs : List Alternative) :
    compileOnto r s [] false xs = ofAlternatives r s xs := by
  rw [compileOnto_eq_behind]
  cases h : xs.dropWhile (Alternative.isKnown r) <;>
    simp [ofAlternatives, behind, isValid, h]

theorem compile_eq (r : Registry) (spec : Text) : compile r spec =
    match Alternative.parse spec with
    | .error e => broken spec (.malformed spec e)
    | .ok alternatives => ofAlternatives r spec alternatives := by
  unfold compile
  cases Alternative.parse spec with
  | error e => rfl
  | ok xs => exact compileOnto_eq xs

/-- What becomes of alternatives that are all known. -/
def ofKnown (r : Registry) (spec : Text) (xs : List Alternative) : Expression :=
  ⟨spec, (xs.filter (!·.isOptional)).filterMap (·.clause? r), xs.any (·.isOptional), none⟩

theorem ofAlternatives_of_all {xs : List Alternative} (h : xs.all (Alternative.isKnown r) = true) :
    ofAlternatives r s xs = ofKnown r s xs := by
  have hall := List.all_eq_true.mp h
  have htake : xs.takeWhile (Alternative.isKnown r) = xs := List.takeWhile_eq_self_iff.mpr hall
  have hdrop : xs.dropWhile (Alternative.isKnown r) = [] := List.dropWhile_eq_nil_iff.mpr hall
  simp only [ofAlternatives, htake, hdrop, ofKnown]

theorem all_of_isValid_ofAlternatives {xs : List Alternative}
    (h : (ofAlternatives r s xs).isValid = true) : xs.all (Alternative.isKnown r) = true := by
  unfold ofAlternatives at h
  cases hdrop : xs.dropWhile (Alternative.isKnown r) with
  | nil => exact List.all_eq_true.mpr (List.dropWhile_eq_nil_iff.mp hdrop)
  | cons x rest =>
    rw [hdrop] at h
    cases h

theorem compile_of_parse {xs : List Alternative} (h : Alternative.parse s = .ok xs)
    (hall : xs.all (Alternative.isKnown r) = true) : compile r s = ofKnown r s xs := by
  simp only [compile_eq, h, ofAlternatives_of_all hall]

/-- A spec is compiled without an error just if it is parsed and all its alternatives are known. -/
theorem isValid_compile_iff : (compile r s).isValid = true ↔
    ∃ xs, Alternative.parse s = .ok xs ∧ xs.all (Alternative.isKnown r) = true := by
  constructor
  · intro h
    cases hparse : Alternative.parse s with
    | error e =>
      simp only [compile_eq, hparse] at h
      cases h
    | ok xs =>
      simp only [compile_eq, hparse] at h
      exact ⟨xs, rfl, all_of_isValid_ofAlternatives h⟩
  · rintro ⟨xs, hparse, hall⟩
    rw [compile_of_parse hparse hall]
    rfl

theorem exists_alternative_of_mem_clauses {c : Clause} (h : c ∈ (compile r s).clauses) :
    ∃ xs, Alternative.parse s = .ok xs ∧
      ∃ x ∈ xs, x.isOptional = false ∧ x.clause? r = some c := by
  rw [compile_eq] at h
  split at h
  · cases h
  · next xs hparse =>
    unfold ofAlternatives at h
    simp only at h
    split at h
    · obtain ⟨x, hx, hclause⟩ := List.mem_filterMap.mp h
      obtain ⟨hknown, hoptional⟩ := List.mem_filter.mp hx
      refine ⟨xs, hparse, x, (List.takeWhile_sublist _).mem hknown, ?_, hclause⟩
      simpa using hoptional
    · cases h

theorem parsedArgs_of_mem_clauses {c : Clause} (h : c ∈ (compile r s).clauses) :
    c.parsedArgs = splitArgs c.rawArgs := by
  obtain ⟨-, -, x, -, -, hclause⟩ := exists_alternative_of_mem_clauses h
  obtain ⟨found, -, rfl⟩ := Option.map_eq_some_iff.mp hclause
  rfl

end Expression

end Known

section Congruence

variable {r r' : Registry} {spec : Text} {xs : List Alternative}

theorem Alternative.isKnown_congr {x : Alternative}
    (h : x.isOptional = false → r'.resolve x.name = r.resolve x.name) :
    x.isKnown r' = x.isKnown r := by
  unfold isKnown Registry.isRegistered
  cases hx : x.isOptional with
  | true => rfl
  | false => rw [h hx]

namespace Expression

/-- Alternatives are compiled alike where their names stand for the same, the reserved word
apart. -/
theorem ofAlternatives_congr
    (h : ∀ x ∈ xs, x.isOptional = false → r'.resolve x.name = r.resolve x.name) :
    ofAlternatives r' spec xs = ofAlternatives r spec xs := by
  have hsplit : xs.takeWhile (Alternative.isKnown r') = xs.takeWhile (Alternative.isKnown r) ∧
      xs.dropWhile (Alternative.isKnown r') = xs.dropWhile (Alternative.isKnown r) := by
    induction xs with
    | nil => exact ⟨rfl, rfl⟩
    | cons x xs ih =>
      obtain ⟨hx, hxs⟩ := List.forall_mem_cons.mp h
      obtain ⟨htake, hdrop⟩ := ih hxs
      rw [List.takeWhile_cons, List.takeWhile_cons, List.dropWhile_cons, List.dropWhile_cons,
        Alternative.isKnown_congr hx, htake, hdrop]
      exact ⟨rfl, rfl⟩
  have hclauses : ((xs.takeWhile (Alternative.isKnown r)).filter (!·.isOptional)).filterMap
      (·.clause? r') = ((xs.takeWhile (Alternative.isKnown r)).filter (!·.isOptional)).filterMap
      (·.clause? r) := by
    apply List.filterMap_congr
    intro x hx
    obtain ⟨hx, hnot⟩ := List.mem_filter.mp hx
    have hmem : x ∈ xs := (List.takeWhile_sublist _).subset hx
    have hresolve := h x hmem (by simpa using hnot)
    unfold Alternative.clause?
    rw [hresolve]
  simp only [ofAlternatives, hsplit.1, hsplit.2, hclauses]

theorem compile_congr (h : ∀ xs, Alternative.parse spec = .ok xs →
    ∀ x ∈ xs, x.isOptional = false → r'.resolve x.name = r.resolve x.name) :
    compile r' spec = compile r spec := by
  simp only [compile_eq]
  cases hparse : Alternative.parse spec with
  | error e => rfl
  | ok xs => exact ofAlternatives_congr (h xs hparse)

/-- A registry that knows all names that another one knows compiles all specs that the other one
does. -/
theorem isValid_compile_mono
    (h : ∀ name, r.isRegistered name = true → r'.isRegistered name = true)
    (hvalid : (compile r spec).isValid = true) : (compile r' spec).isValid = true := by
  obtain ⟨xs, hparse, hall⟩ := isValid_compile_iff.mp hvalid
  apply isValid_compile_iff.mpr
  refine ⟨xs, hparse, List.all_eq_true.mpr ?_⟩
  intro x hx
  have hknown := List.all_eq_true.mp hall x hx
  unfold Alternative.isKnown at hknown ⊢
  rcases (Bool.or_eq_true ..).mp hknown with hoptional | hregistered
  · rw [hoptional, Bool.true_or]
  · rw [h x.name hregistered, Bool.or_true]

end Expression

end Congruence

end TreeSpec
