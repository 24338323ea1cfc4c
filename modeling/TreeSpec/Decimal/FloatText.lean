import TreeSpec.Decimal.Shortest
import TreeSpec.Text.Basic

/-!
# Floating-point numbers as text

A number is written with its shortest digits: in full while the exponent of its first digit is
small, and otherwise with an exponent. A number without a fraction keeps a point and a zero.
-/

namespace TreeSpec

set_option autoImplicit false

structure DecimalLayout where
  /-- The least exponent of the first digit that is written in full. -/
  fullFrom : Int
  /-- The first exponent that is too large to be written in full. -/
  fullBelow : Int
  /-- The least number of digits of a written exponent. -/
  exponentWidth : Nat
  deriving DecidableEq, Repr

namespace DecimalLayout

/-- Numbers from 0.0001 to below 10 ^ 16 are written in full, and exponents have two digits. -/
def plain : DecimalLayout := ⟨-4, 16, 2⟩

def zeros (n : Nat) : Text := Text.repeated n '0'

/-- The digits with a point after `places` of them; zeros are filled in on either side. -/
def positional (digits : Text) (places : Int) : Text :=
  if places ≤ 0 then "0." ++ zeros (-places).toNat ++ digits
  else if places.toNat < digits.length then
    digits.take places.toNat ++ "." ++ digits.drop places.toNat
  else digits ++ zeros (places.toNat - digits.length) ++ ".0"

/-- The digits with a point after the first one, and an exponent with its sign. -/
def scientific (layout : DecimalLayout) (digits : Text) (exponent : Int) : Text :=
  let power : Text := toString exponent.natAbs
  digits.take 1 ++ (if digits.length ≤ 1 then ([] : Text) else '.' :: digits.drop 1) ++
    (if exponent < 0 then "e-" else "e+") ++
    zeros (layout.exponentWidth - power.length) ++ power

def write (layout : DecimalLayout) (d : Decimal) : Text :=
  let digits : Text := toString d.significand
  let places := d.exponent + digits.length
  if layout.fullFrom < places && places ≤ layout.fullBelow then positional digits places
  else layout.scientific digits (places - 1)

end DecimalLayout

namespace FloatText

/-- The positive number of a double with the given biased exponent and fraction. -/
def binary (biased fraction : Nat) : Binary :=
  if biased = 0 then ⟨fraction, -1074, false⟩
  else ⟨Nat.pow 2 52 + fraction, (biased : Int) - 1075, fraction = 0 && 1 < biased⟩

/-- The largest biased exponent, that of the infinite numbers and of what is no number. -/
def infinite : Nat := Nat.pow 2 11 - 1

def biasedOf (x : Float) : Nat := x.toBits.toNat / Nat.pow 2 52 % Nat.pow 2 11

def fractionOf (x : Float) : Nat := x.toBits.toNat % Nat.pow 2 52

def isNegative (x : Float) : Bool := x.toBits.toNat / Nat.pow 2 63 = 1

def write (x : Float) : Text :=
  let sign : Text := if isNegative x then "-" else ""
  if biasedOf x = infinite then
    if fractionOf x = 0 then sign ++ "inf" else "nan"
  else if biasedOf x = 0 && fractionOf x = 0 then sign ++ "0.0"
  else sign ++ DecimalLayout.plain.write (binary (biasedOf x) (fractionOf x)).shortest

def whole? (x : Float) : Option Int :=
  let b := binary (biasedOf x) (fractionOf x)
  let unit := Nat.pow 2 (-b.exponent).toNat
  if biasedOf x = infinite || b.mantissa % unit != 0 then none
  else
    let n : Int := (b.mantissa * Nat.pow 2 b.exponent.toNat / unit : Nat)
    some (if isNegative x then -n else n)

/-- The decimal digits at the start of a text, and the rest. -/
def digits (cs : Text) : Text × Text := cs.span CodePoint.isDigit

def value (ds : Text) : Nat :=
  ds.foldl (fun n c => 10 * n + c.digit) 0

def readExponent? : Text → Option Int
  | [] => some 0
  | c :: cs =>
    if c = 'e' || c = 'E' then
      let (negative, ds) :=
        match cs with
        | .char '-' :: ds => (true, ds)
        | .char '+' :: ds => (false, ds)
        | ds => (false, ds)
      if ds.isEmpty || !ds.all CodePoint.isDigit then none
      else some (if negative then -(value ds : Int) else value ds)
    else none

/-- The double nearest to `n * 10 ^ e`. Beyond 400 places the result is zero or infinite anyway. -/
def scale (n : Nat) (e : Int) : Float :=
  let width := (toString n).length
  if n = 0 || e + width < -400 then 0.0
  else if 400 < e + width then 1.0 / 0.0
  else Float.ofScientific n (e < 0) e.natAbs

/-- Reads an unsigned number: digits with or without a point and an exponent. -/
def readUnsigned? (cs : Text) : Option Float := do
  let (whole, rest) := digits cs
  let (fraction, rest) :=
    match rest with
    | .char '.' :: rest => digits rest
    | rest => ([], rest)
  if whole.isEmpty && fraction.isEmpty then none
  let e ← readExponent? rest
  return scale (value (whole ++ fraction)) (e - fraction.length)

/-- Reads a double: a decimal, `inf` or `nan`, with an optional sign. -/
def read? (text : Text) : Option Float :=
  let unsigned (cs : Text) : Option Float :=
    if cs = "inf" then some (1.0 / 0.0)
    else if cs = "nan" then some (0.0 / 0.0)
    else readUnsigned? cs
  match text with
  | .char '-' :: cs => (unsigned cs).map (- ·)
  | .char '+' :: cs => unsigned cs
  | cs => unsigned cs

end FloatText

end TreeSpec
