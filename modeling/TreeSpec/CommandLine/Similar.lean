import TreeSpec.Text.Basic

/-!
# Similar words

Two words are similar if the parts that they have in common make up enough of them. The common parts
are the longest common run of characters and, on either side of it, the common parts of what is
left.
-/

namespace TreeSpec.CommandLine

set_option autoImplicit false

def commonStart : Text → Text → Nat
  | a :: as, b :: bs => if a = b then commonStart as bs + 1 else 0
  | _, _ => 0

/-- The longest common run of two words: its start in each of them and its length. Of equally long
runs the one that starts first counts. -/
def longestRun (a b : Text) : Nat × Nat × Nat :=
  let starts := (List.range a.length).flatMap fun i => (List.range b.length).map fun j => (i, j)
  starts.foldl (fun best (i, j) =>
    let n := commonStart (a.drop i) (b.drop j)
    if best.2.2 < n then (i, j, n) else best) (0, 0, 0)

/-- How many characters the common parts of two words have, for words of at most `fuel`
characters. -/
def common : Nat → Text → Text → Nat
  | 0, _, _ => 0
  | fuel + 1, a, b =>
    let (i, j, n) := longestRun a b
    if n = 0 then 0
    else n + common fuel (a.take i) (b.take j) + common fuel (a.drop (i + n)) (b.drop (j + n))

/-- The common parts make up at least three fifths of the two words. -/
def isSimilar (shared : Nat) (a b : Text) : Bool :=
  3 * (a.length + b.length) ≤ 10 * shared

/-- The words out of a list that are most similar to a word, at most three, in order. -/
def similarTo (word : Text) (words : List Text) : List Text :=
  let scored := words.filterMap fun w =>
    let n := common w.length w word
    if isSimilar n w word then some (w, n, w.length + word.length) else none
  let better (x y : Text × Nat × Nat) : Bool :=
    let left := x.2.1 * y.2.2
    let right := y.2.1 * x.2.2
    right < left || (left = right && y.1 ≤ x.1)
  (((scored.mergeSort better).take 3).map (·.1)).mergeSort (· ≤ ·)

end TreeSpec.CommandLine
