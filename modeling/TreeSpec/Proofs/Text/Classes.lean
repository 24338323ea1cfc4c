import TreeSpec.Text.Blank
import TreeSpec.Text.Word

/-!
# Classes of characters

No character is both a blank and a part of a name. The tables of ranges are compared pairwise.
-/

namespace TreeSpec.Text

set_option autoImplicit false
set_option maxRecDepth 4000

/-- No code point lies in a range of the one list and in a range of the other. -/
def apart (as bs : List (Nat × Nat)) : Bool :=
  as.all fun a => bs.all fun b => a.2 < b.1 || b.2 < a.1

theorem inRanges_of_apart {as bs : List (Nat × Nat)} {c : CodePoint} (h : apart as bs = true)
    (ha : inRanges as c = true) : inRanges bs c = false := by
  obtain ⟨a, hmema, ha⟩ := inRanges_iff.mp ha
  apply Bool.eq_false_iff.mpr
  intro hb
  obtain ⟨b, hmemb, hb⟩ := inRanges_iff.mp hb
  have hall := List.all_eq_true.mp (List.all_eq_true.mp h a hmema) b hmemb
  simp only [Bool.or_eq_true, decide_eq_true_eq] at hall
  omega

def digitRanges : List (Nat × Nat) := digitZeros.map fun z => (z, z + 9)

theorem isDigit_eq_inRanges (c : CodePoint) : isDigit c = inRanges digitRanges c := by
  unfold isDigit inRanges digitRanges
  rw [List.any_map]
  congr 1
  funext z
  simp only [inDigitRun, Function.comp_apply]
  congr 1
  apply decide_eq_decide.mpr
  omega

theorem not_isWord_of_isBlank {c : CodePoint} (h : isBlank c = true) : isWord c = false := by
  have hunderscore : c ≠ '_' := by
    intro hc
    subst hc
    revert h
    decide
  have hdigits : apart blankRanges digitRanges = true := by decide
  have hletters : apart blankRanges letterRanges = true := by decide
  have hdigit := inRanges_of_apart hdigits h
  have hletter := inRanges_of_apart hletters h
  unfold isWord
  rw [isDigit_eq_inRanges, hdigit, hletter]
  simp [hunderscore]

theorem not_isBlank_of_isWord {c : CodePoint} (h : isWord c = true) : isBlank c = false := by
  apply Bool.eq_false_iff.mpr
  intro hblank
  rw [not_isWord_of_isBlank hblank] at h
  exact Bool.false_ne_true h

end TreeSpec.Text
