import TreeSpec.Proofs.Registry.Lookup
import TreeSpec.Proofs.Spec.Compilation
import TreeSpec.Proofs.Spec.Grammar

/-!
# Specs from labels

The label of a clause spells the alternative that the clause was compiled from, whatever types there
are, as a clause bears the name that was resolved or that name without `no`. So the labels of a
valid spec, with the reserved word if it occurred, are a spec again, and it is compiled to the same
clauses.
-/

namespace TreeSpec

set_option autoImplicit false

namespace Alternative

/-- The alternative as it is written in a spec. -/
def spelled (x : Alternative) : Text :=
  x.name ++ match x.rawArgs with
    | some args => "(" ++ args ++ ")"
    | none => []

/-- The reserved word as an alternative. -/
def reserved : Alternative := ⟨optionalWord, none⟩

theorem isOptional_iff {x : Alternative} : x.isOptional = true ↔ x = reserved := by
  obtain ⟨name, args⟩ := x
  cases args <;> simp [isOptional, reserved]

end Alternative

namespace Expression

/-- The labels of the clauses with pipes between them, and the reserved word at the end if it
occurred. -/
def spelled (e : Expression) : Text :=
  Text.joined " | " (e.clauses.map Clause.label ++
    if e.allowsMissing then [Alternative.optionalWord] else [])

end Expression

section Grammar

variable {s b : Text} {x : Alternative} {xs : List Alternative}

theorem ClauseText.blanks_append (hb : b.Blank) (h : ClauseText s x) : ClauseText (b ++ s) x := by
  cases h with
  | bare hd hn he =>
    rw [← List.append_assoc, ← List.append_assoc]
    exact .bare (hb.append hd) hn he
  | block hd hn he ha hf =>
    rw [← List.append_assoc, ← List.append_assoc, ← List.append_assoc]
    exact .block (hb.append hd) hn he ha hf

theorem SpecText.blanks_append (hb : b.Blank) (h : SpecText s xs) : SpecText (b ++ s) xs := by
  cases h with
  | one hs => exact .one (hs.blanks_append hb)
  | more hs ht =>
    rw [← List.append_assoc]
    exact .more (hs.blanks_append hb) ht

/-- An alternative that was read may be written without blanks around its parts. -/
theorem ClauseText.spelled (h : ClauseText s x) : ClauseText x.spelled x := by
  cases h with
  | bare _ hn _ =>
    have hclause := ClauseText.bare Text.blank_nil hn Text.blank_nil
    exact hclause
  | block _ hn _ ha _ =>
    have hclause := ClauseText.block Text.blank_nil hn Text.blank_nil ha Text.blank_nil
    rw [List.nil_append, List.append_nil] at hclause
    exact hclause

theorem SpecText.ne_nil (h : SpecText s xs) : xs ≠ [] := by
  cases h <;> exact List.cons_ne_nil _ _

theorem SpecText.spelled (h : SpecText s xs) : ∀ x ∈ xs, ClauseText x.spelled x := by
  induction h with
  | one hs =>
    intro y hy
    rw [List.mem_singleton.mp hy]
    exact hs.spelled
  | more hs _ ih => exact List.forall_mem_cons.mpr ⟨hs.spelled, ih⟩

/-- Alternatives with pipes between them are a spec. -/
theorem SpecText.joined (hne : xs ≠ []) (h : ∀ x ∈ xs, ClauseText x.spelled x) :
    SpecText (Text.joined " | " (xs.map Alternative.spelled)) xs := by
  have hblank : Text.Blank [.char ' '] := by
    intro c hc
    rw [List.mem_singleton.mp hc]
    decide
  induction xs with
  | nil => exact absurd rfl hne
  | cons x xs ih =>
    obtain ⟨hx, hxs⟩ := List.forall_mem_cons.mp h
    cases xs with
    | nil =>
      rw [List.map_singleton, Text.joined, List.intercalate_singleton]
      exact .one hx
    | cons y ys =>
      have hrest := ih (List.cons_ne_nil y ys) hxs
      have hmore := SpecText.more (hx.append_blanks hblank) (hrest.blanks_append hblank)
      have htext : Text.joined " | " (x.spelled :: y.spelled :: ys.map Alternative.spelled) =
          x.spelled ++ [.char ' '] ++ .char '|' ::
            ([.char ' '] ++ Text.joined " | " (y.spelled :: ys.map Alternative.spelled)) := by
        rw [Text.joined, List.intercalate_cons_cons, List.append_assoc, List.append_assoc]
        rfl
      rw [List.map_cons, List.map_cons, htext]
      exact hmore

end Grammar

section Labels

variable {r : Registry} {x : Alternative}

/-- The label of a clause spells its alternative. -/
theorem Alternative.label_of_clause? {c : Clause} (h : x.clause? r = some c) :
    c.label = x.spelled := by
  obtain ⟨found, hfound, rfl⟩ := Option.map_eq_some_iff.mp h
  exact congrArg (· ++ _) (Registry.name_of_resolve hfound).symm

theorem Alternative.exists_clause? (hknown : x.isKnown r = true) (hnot : x.isOptional = false) :
    ∃ c, x.clause? r = some c := by
  rw [isKnown, hnot, Bool.false_or] at hknown
  obtain ⟨found, hfound⟩ := Option.isSome_iff_exists.mp hknown
  exact ⟨_, congrArg (Option.map _) hfound⟩

namespace Expression

/-- The alternatives of a valid spec, the reserved word once and at the end if it is one of them. -/
def reordered (xs : List Alternative) : List Alternative :=
  xs.filter (!·.isOptional) ++ if xs.any (·.isOptional) then [Alternative.reserved] else []

variable {xs : List Alternative}

theorem mem_of_mem_reordered (h : x ∈ reordered xs) : x ∈ xs := by
  rcases List.mem_append.mp h with h | h
  · exact (List.mem_filter.mp h).1
  · split at h
    · next hany =>
      obtain ⟨y, hy, hoptional⟩ := List.any_eq_true.mp hany
      rw [List.mem_singleton.mp h, ← Alternative.isOptional_iff.mp hoptional]
      exact hy
    · cases h

theorem reordered_ne_nil (h : xs ≠ []) : reordered xs ≠ [] := by
  obtain ⟨x, rest, rfl⟩ := List.exists_cons_of_ne_nil h
  unfold reordered
  cases hx : x.isOptional with
  | true => simp [hx]
  | false => simp [hx]

theorem filter_reordered : (reordered xs).filter (!·.isOptional) = xs.filter (!·.isOptional) := by
  have hword : Alternative.reserved.isOptional = true := Alternative.isOptional_iff.mpr rfl
  unfold reordered
  rw [List.filter_append, List.filter_filter]
  split <;> simp [hword]

theorem any_reordered : (reordered xs).any (·.isOptional) = xs.any (·.isOptional) := by
  have hword : Alternative.reserved.isOptional = true := Alternative.isOptional_iff.mpr rfl
  unfold reordered
  cases hany : xs.any (·.isOptional) with
  | true => simp [hword]
  | false => simp

/-- The labels of a valid spec spell its alternatives, the reserved word at the end. -/
theorem spelled_ofKnown {spec : Text} (h : ∀ x ∈ xs, x.isKnown r = true) :
    (ofKnown r spec xs).spelled = Text.joined " | " ((reordered xs).map Alternative.spelled) := by
  have hlabels : ((xs.filter (!·.isOptional)).filterMap (·.clause? r)).map Clause.label =
      (xs.filter (!·.isOptional)).map Alternative.spelled := by
    rw [List.map_filterMap, ← List.filterMap_eq_map]
    apply List.filterMap_congr
    intro x hx
    obtain ⟨hmem, hnot⟩ := List.mem_filter.mp hx
    obtain ⟨c, hc⟩ := Alternative.exists_clause? (h x hmem) (by simpa using hnot)
    rw [hc, Option.map_some, Alternative.label_of_clause? hc]
    rfl
  unfold spelled reordered ofKnown
  rw [hlabels, List.map_append]
  split <;> rfl

/-- A valid spec is compiled anew from its labels: the spec that they make is valid, allows a
missing value if the first one does, and has the same clauses in the same order. -/
theorem compile_spelled (r : Registry) (spec : Text) (h : (compile r spec).isValid = true) :
    (compile r (compile r spec).spelled).isValid = true ∧
      (compile r (compile r spec).spelled).allowsMissing = (compile r spec).allowsMissing ∧
      (compile r (compile r spec).spelled).clauses = (compile r spec).clauses := by
  obtain ⟨xs, hparse, hall⟩ := isValid_compile_iff.mp h
  have hknown := List.all_eq_true.mp hall
  have hspec := Alternative.parse_eq_ok_iff_specText.mp hparse
  -- What the labels make is parsed as the alternatives with the reserved word moved to the end.
  have hagain : Alternative.parse (compile r spec).spelled = .ok (reordered xs) := by
    rw [compile_of_parse hparse hall, spelled_ofKnown hknown]
    apply Alternative.parse_eq_ok_iff_specText.mpr
    apply SpecText.joined (reordered_ne_nil hspec.ne_nil)
    intro x hx
    exact hspec.spelled x (mem_of_mem_reordered hx)
  have hallAgain : (reordered xs).all (Alternative.isKnown r) = true := by
    apply List.all_eq_true.mpr
    intro x hx
    exact hknown x (mem_of_mem_reordered hx)
  rw [compile_of_parse hagain hallAgain, compile_of_parse hparse hall]
  refine ⟨rfl, any_reordered, ?_⟩
  unfold ofKnown
  rw [filter_reordered]

/-- One type bears the name of an inversion and another one the reserved word, and the reserved word
comes first. -/
theorem spelled_with_type_named_optional :
    let r := ((Registry.new 0 [("x", .undefined "1"), ("c", .undefined "2")] []).insert "nox"
      (.undefined "3")).insert "optional" (.undefined "4")
    let spec : Text := "optional|nox |noc( 1-)|optional()|nooptional"
    let again : Text := "nox | noc( 1-) | optional() | nooptional | optional"
    (compile r spec).isValid = true ∧ (compile r spec).spelled = again ∧
      (compile r again).allowsMissing = true ∧
      (compile r again).clauses = (compile r spec).clauses := by
  intro r spec again
  have hvalid : (compile r spec).isValid = true := by decide +kernel
  have hspelled : (compile r spec).spelled = again := by decide +kernel
  obtain ⟨-, hmissing, hclauses⟩ := compile_spelled r spec hvalid
  rw [hspelled] at hmissing hclauses
  exact ⟨hvalid, hspelled, hmissing.trans (by decide +kernel), hclauses⟩

end Expression

end Labels

end TreeSpec
