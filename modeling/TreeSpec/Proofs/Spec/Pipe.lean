import TreeSpec.Proofs.Registry.Lookup
import TreeSpec.Proofs.Spec.Compilation
import TreeSpec.Proofs.Spec.Evaluation
import TreeSpec.Proofs.Spec.Grammar

/-!
# Specs side by side

A pipe between two texts separates them whatever they are, as no name, no argument block and no
blank holds a pipe. So the alternatives, the clauses and the answers of a spec with a pipe in it are
put together from those of its sides.
-/

namespace TreeSpec

set_option autoImplicit false

section Grammar

variable {s t u v : Text}

/-- Two ways to cut a text at a pipe, with no pipe in front of the one: they are the same, or the
other pipe comes later. -/
theorem Text.cut_at_pipe (hs : .char '|' ∉ s) (h : s ++ .char '|' :: t = u ++ .char '|' :: v) :
    (s = u ∧ t = v) ∨ ∃ w, u = s ++ .char '|' :: w ∧ t = w ++ .char '|' :: v := by
  induction s generalizing u with
  | nil =>
    cases u with
    | nil => exact .inl ⟨rfl, (List.cons.inj h).2⟩
    | cons c u =>
      obtain ⟨rfl, ht⟩ := List.cons.inj h
      exact .inr ⟨u, rfl, ht⟩
  | cons c s ih =>
    cases u with
    | nil => exact absurd ((List.cons.inj h).1 ▸ List.mem_cons_self) hs
    | cons d u =>
      obtain ⟨rfl, hrest⟩ := List.cons.inj h
      rcases ih (fun hmem => hs (List.mem_cons_of_mem _ hmem)) hrest with ⟨rfl, rfl⟩ | ⟨w, rfl, rfl⟩
      · exact .inl ⟨rfl, rfl⟩
      · exact .inr ⟨w, rfl, rfl⟩

theorem ClauseText.pipe_not_mem {x : Alternative} (h : ClauseText s x) : .char '|' ∉ s := by
  have hblank {b : Text} (hb : b.Blank) : .char '|' ∉ b := hb.not_mem Token.pipe_not_blank
  have hname {n : Text} (hn : n.Name) : .char '|' ∉ n := hn.not_mem Token.pipe_not_word
  cases h with
  | bare hb hn hd => simp [hblank hb, hname hn, hblank hd]
  | @block b n d a e hb hn hd ha he =>
    have hargs : .char '|' ∉ a := by
      intro hmem
      cases ha _ hmem
    simp [hblank hb, hname hn, hblank hd, hargs, hblank he]

theorem SpecText.append_pipe {xs ys : List Alternative} (hs : SpecText s xs) (ht : SpecText t ys) :
    SpecText (s ++ .char '|' :: t) (xs ++ ys) := by
  induction hs with
  | one hs => exact .more hs ht
  | more hs _ ih =>
    rw [List.append_assoc]
    exact .more hs ih

theorem SpecText.of_append_pipe {xs : List Alternative} (h : SpecText (s ++ .char '|' :: t) xs) :
    ∃ ys zs, SpecText s ys ∧ SpecText t zs ∧ xs = ys ++ zs := by
  generalize hu : s ++ .char '|' :: t = u at h
  induction h generalizing s with
  | one hc => exact absurd (hu ▸ by simp) hc.pipe_not_mem
  | @more c rest x xs hc hrest ih =>
    rcases Text.cut_at_pipe hc.pipe_not_mem hu.symm with ⟨rfl, rfl⟩ | ⟨w, rfl, rfl⟩
    · exact ⟨[x], xs, .one hc, hrest, rfl⟩
    · obtain ⟨ys, zs, hys, hzs, rfl⟩ := ih rfl
      exact ⟨x :: ys, zs, .more hc hys, hzs, rfl⟩

theorem Alternative.parse_append_pipe {xs : List Alternative} :
    parse (s ++ .char '|' :: t) = .ok xs ↔
      ∃ ys zs, parse s = .ok ys ∧ parse t = .ok zs ∧ xs = ys ++ zs := by
  simp only [parse_eq_ok_iff_specText]
  constructor
  · exact SpecText.of_append_pipe
  · rintro ⟨ys, zs, hys, hzs, rfl⟩
    exact hys.append_pipe hzs

end Grammar

namespace Expression

variable {r : Registry} {s t : Text}

theorem isValid_compile_pipe : (compile r (s ++ .char '|' :: t)).isValid =
    ((compile r s).isValid && (compile r t).isValid) := by
  rw [Bool.eq_iff_iff, Bool.and_eq_true]
  simp only [isValid_compile_iff, Alternative.parse_append_pipe]
  constructor
  · rintro ⟨xs, ⟨ys, zs, hys, hzs, rfl⟩, hall⟩
    rw [List.all_append, Bool.and_eq_true] at hall
    exact ⟨⟨ys, hys, hall.1⟩, ⟨zs, hzs, hall.2⟩⟩
  · rintro ⟨⟨ys, hys, hy⟩, ⟨zs, hzs, hz⟩⟩
    refine ⟨ys ++ zs, ⟨ys, zs, hys, hzs, rfl⟩, ?_⟩
    rw [List.all_append, hy, hz, Bool.and_true]

/-- With a pipe between two specs that are valid, the clauses follow each other. -/
theorem compile_pipe_of_isValid (hs : (compile r s).isValid = true)
    (ht : (compile r t).isValid = true) :
    (compile r (s ++ .char '|' :: t)).clauses = (compile r s).clauses ++ (compile r t).clauses ∧
      (compile r (s ++ .char '|' :: t)).allowsMissing =
        ((compile r s).allowsMissing || (compile r t).allowsMissing) := by
  obtain ⟨ys, hys, hy⟩ := isValid_compile_iff.mp hs
  obtain ⟨zs, hzs, hz⟩ := isValid_compile_iff.mp ht
  have hparse := Alternative.parse_append_pipe.mpr ⟨ys, zs, hys, hzs, rfl⟩
  have hall : (ys ++ zs).all (Alternative.isKnown r) = true := by
    rw [List.all_append, hy, hz, Bool.and_true]
  rw [compile_of_parse hys hy, compile_of_parse hzs hz, compile_of_parse hparse hall]
  simp only [ofKnown, List.filter_append, List.filterMap_append, List.any_append, and_self]

theorem accepts_compile_pipe (value : Option Text) :
    (compile r (s ++ .char '|' :: t)).accepts value =
      ((compile r s).isValid && (compile r t).isValid &&
        ((compile r s).accepts value || (compile r t).accepts value)) := by
  rw [← isValid_compile_pipe]
  cases herror : (compile r (s ++ .char '|' :: t)).error with
  | some error =>
    have hvalid : (compile r (s ++ .char '|' :: t)).isValid = false := by rw [isValid, herror]; rfl
    rw [accepts_of_error herror, hvalid, Bool.false_and]
  | none =>
    have hvalid := isValid_iff.mpr herror
    have hsides := isValid_compile_pipe.symm.trans hvalid
    rw [Bool.and_eq_true] at hsides
    obtain ⟨hclauses, hmissing⟩ := compile_pipe_of_isValid hsides.1 hsides.2
    have hs := isValid_iff.mp hsides.1
    have ht := isValid_iff.mp hsides.2
    rw [hvalid, Bool.true_and]
    cases value with
    | none => rw [accepts_none herror, accepts_none hs, accepts_none ht, hmissing]
    | some text =>
      rw [accepts_some herror, accepts_some hs, accepts_some ht, hclauses, List.any_append]

/-- The reserved word compiles to no clause at all. -/
theorem compile_optionalWord (r : Registry) :
    compile r " optional" = ⟨" optional", [], true, none⟩ := by
  have hblank : Text.Blank [.char ' '] := by
    intro c hc
    rw [List.mem_singleton.mp hc]
    decide
  have hname : Alternative.optionalWord.Name := ⟨by decide, by decide +kernel⟩
  have hclause := ClauseText.bare hblank hname Text.blank_nil
  rw [List.append_nil] at hclause
  have hparse : Alternative.parse " optional" = .ok [⟨Alternative.optionalWord, none⟩] :=
    Alternative.parse_eq_ok_iff_specText.mpr (.one hclause)
  rw [compile_of_parse hparse rfl]
  rfl

/-- A pipe between two texts, whatever they are, puts their alternatives one after the other. The
spec is valid just if both sides are, its clauses are theirs one after the other, and it accepts
what one of them accepts. With the reserved word after a pipe, a valid spec accepts a missing value
and otherwise what it did. -/
theorem pipe_joins_specs (r : Registry) (s t : Text) :
    (∀ xs, Alternative.parse (s ++ .char '|' :: t) = .ok xs ↔
      ∃ ys zs, Alternative.parse s = .ok ys ∧ Alternative.parse t = .ok zs ∧ xs = ys ++ zs) ∧
    (compile r (s ++ .char '|' :: t)).isValid = ((compile r s).isValid && (compile r t).isValid) ∧
    ((compile r s).isValid = true → (compile r t).isValid = true →
      (compile r (s ++ .char '|' :: t)).clauses = (compile r s).clauses ++ (compile r t).clauses ∧
      (compile r (s ++ .char '|' :: t)).allowsMissing =
        ((compile r s).allowsMissing || (compile r t).allowsMissing)) ∧
    (∀ value, (compile r (s ++ .char '|' :: t)).accepts value =
      ((compile r s).isValid && (compile r t).isValid &&
        ((compile r s).accepts value || (compile r t).accepts value))) ∧
    ((compile r s).isValid = true →
      (compile r (s ++ ("| optional" : Text))).isValid = true ∧
      (compile r (s ++ ("| optional" : Text))).clauses = (compile r s).clauses ∧
      (compile r (s ++ ("| optional" : Text))).accepts none = true ∧
      ∀ text, (compile r (s ++ ("| optional" : Text))).accepts (some text) =
        (compile r s).accepts (some text)) := by
  refine ⟨fun xs => Alternative.parse_append_pipe, isValid_compile_pipe,
    compile_pipe_of_isValid, accepts_compile_pipe, fun hs => ?_⟩
  have htext : ("| optional" : Text) = .char '|' :: (" optional" : Text) := rfl
  have hword := compile_optionalWord r
  have hvalid : (compile r " optional").isValid = true := by
    rw [hword]
    rfl
  rw [htext]
  refine ⟨?_, ?_, ?_, ?_⟩
  · rw [isValid_compile_pipe, hs, hvalid, Bool.and_true]
  · rw [(compile_pipe_of_isValid hs hvalid).1, hword, List.append_nil]
  · rw [accepts_compile_pipe, hs, hvalid, hword]
    exact Bool.or_true _
  · intro text
    rw [accepts_compile_pipe, hs, hvalid, hword]
    exact Bool.or_false _

/-- A block does not reach over a pipe, and the reserved word may follow a block. -/
theorem pipe_after_open_and_after_closed_block :
    let r := (Registry.new 0 [] []).insert "_" (.undefined "")
    (compile r "_(|)").isValid = false ∧
      (compile r "_(-)").isValid = true ∧ (compile r "_(-)").accepts none = false ∧
      (compile r "_(-)| optional").accepts none = true := by
  intro r
  have hclosed : (compile r "_(-)").isValid = true := by decide +kernel
  refine ⟨?_, hclosed, ?_, ?_⟩
  · refine (pipe_joins_specs r "_(" ")").2.1.trans ?_
    decide +kernel
  · decide +kernel
  · exact ((pipe_joins_specs r "_(-)" []).2.2.2.2 hclosed).2.2.1

end Expression

end TreeSpec
