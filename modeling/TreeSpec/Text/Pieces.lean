import TreeSpec.Text.Basic

/-!
# Pieces of a text

A text falls into pieces at its separators. There is one more piece than there are separators, and
none of the pieces holds one.
-/

namespace TreeSpec.Text

set_option autoImplicit false

/-- The pieces between the separators. Two separators side by side have an empty piece between
them. -/
def pieces (isSeparator : CodePoint → Bool) : Text → List Text
  | [] => [[]]
  | c :: cs =>
    if isSeparator c then [] :: pieces isSeparator cs
    else
      match pieces isSeparator cs with
      | [] => [[c]]
      | piece :: more => (c :: piece) :: more

variable {isSeparator : CodePoint → Bool}

theorem pieces_ne_nil (cs : Text) : pieces isSeparator cs ≠ [] := by
  cases cs with
  | nil => simp [pieces]
  | cons c cs =>
    simp only [pieces]
    split
    · simp
    · split <;> simp

theorem length_pieces (cs : Text) :
    (pieces isSeparator cs).length = cs.countP isSeparator + 1 := by
  induction cs with
  | nil => rfl
  | cons c cs ih =>
    simp only [pieces]
    split
    · next h => simp [ih, h]
    · next h =>
      split
      · next hn => exact absurd hn (pieces_ne_nil cs)
      · next hp =>
        rw [hp] at ih
        simpa [h] using ih

theorem not_isSeparator_of_mem_pieces {cs piece : Text} {c : CodePoint}
    (hp : piece ∈ pieces isSeparator cs) (hc : c ∈ piece) : isSeparator c = false := by
  induction cs generalizing piece with
  | nil => simp_all [pieces]
  | cons d cs ih =>
    simp only [pieces] at hp
    split at hp
    · rcases List.mem_cons.mp hp with rfl | hp
      · simp at hc
      · exact ih hp hc
    · next hd =>
      split at hp
      · next hn => exact absurd hn (pieces_ne_nil cs)
      · next first more he =>
        rcases List.mem_cons.mp hp with rfl | hp
        · rcases List.mem_cons.mp hc with rfl | hc
          · simpa using hd
          · exact ih (he ▸ List.mem_cons_self) hc
        · exact ih (he ▸ List.mem_cons_of_mem _ hp) hc

end TreeSpec.Text
