import TreeSpec.Text.Basic

/-!
# Ranges of code points

A property of code points is given as a list of ranges of code points, both ends included.
-/

namespace TreeSpec.Text

set_option autoImplicit false

def inRanges (ranges : List (Nat × Nat)) (c : CodePoint) : Bool :=
  ranges.any fun r => r.1 ≤ c.toNat && c.toNat ≤ r.2

theorem inRanges_iff {ranges : List (Nat × Nat)} {c : CodePoint} :
    inRanges ranges c = true ↔ ∃ r ∈ ranges, r.1 ≤ c.toNat ∧ c.toNat ≤ r.2 := by
  simp [inRanges]

end TreeSpec.Text
