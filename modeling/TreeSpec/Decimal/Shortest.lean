/-!
# Shortest decimals

A double stands for all real numbers that round to it. Among the decimals in that interval the
shortest ones lie on the coarsest grid of powers of ten that has a point in the interval. Of two
such points next to the double the nearer one is taken, and the even one of two that are equally
near.
-/

namespace TreeSpec

set_option autoImplicit false

/-- The number `significand * 10 ^ exponent`. -/
structure Decimal where
  significand : Nat
  exponent : Int
  deriving DecidableEq, Repr

/-- The positive number `mantissa * 2 ^ exponent`. The next smaller number of the format is half as
far away as the next larger one if `narrowBelow` holds. -/
structure Binary where
  mantissa : Nat
  exponent : Int
  narrowBelow : Bool
  deriving DecidableEq, Repr

namespace Binary

/-! All that follows is measured in quarters of the last binary place, so that the ends of the
interval are whole numbers. -/

def centre (b : Binary) : Nat := 4 * b.mantissa

def lower (b : Binary) : Nat := b.centre - if b.narrowBelow then 1 else 2

def upper (b : Binary) : Nat := b.centre + 2

/-- Quarters of the last place times this number are multiples of the grid `10 ^ k` times
`gridStep`. -/
def unit (b : Binary) (k : Int) : Nat :=
  Nat.pow 2 (b.exponent - 2).toNat * Nat.pow 10 (-k).toNat

/-- The distance of two points of the grid `10 ^ k`, on the scale of `unit`. -/
def gridStep (b : Binary) (k : Int) : Nat :=
  Nat.pow 2 (2 - b.exponent).toNat * Nat.pow 10 k.toNat

/-- The point of the grid rounds to the number. The ends of the interval round to an even
mantissa. -/
def holds (b : Binary) (k : Int) (point : Nat) : Bool :=
  let p := point * b.gridStep k
  let low := b.lower * b.unit k
  let high := b.upper * b.unit k
  if b.mantissa % 2 = 0 then low ≤ p && p ≤ high else low < p && p < high

/-- The nearest point of the grid `10 ^ k` that rounds to the number. -/
def nearest? (b : Binary) (k : Int) : Option Nat :=
  let c := b.centre * b.unit k
  let step := b.gridStep k
  let below := c / step
  let above := below + 1
  match b.holds k below, b.holds k above with
  | true, true =>
    let down := c - below * step
    let up := above * step - c
    some (if down < up || (down = up && below % 2 = 0) then below else above)
  | true, false => some below
  | false, true => some above
  | false, false => none

/-- The shortest decimal that rounds to the number: the first hit on grids that get finer. -/
def shortest (b : Binary) : Decimal :=
  let grids := (List.range 640).map fun (i : Nat) => (309 : Int) - i
  (grids.findSome? fun k => (b.nearest? k).map (⟨·, k⟩)).getD ⟨0, 0⟩

end Binary

end TreeSpec
