import TreeSpec.Text.Basic

/-!
# Hexadecimal text

A code point written with a fixed least number of small hexadecimal digits.
-/

namespace TreeSpec.Text

set_option autoImplicit false

/-- The hexadecimal digits of `n`, filled up with zeros to `width`. -/
def hex (width n : Nat) : Text :=
  let digits := ofChars (Nat.toDigits 16 n)
  repeated (width - digits.length) '0' ++ digits

def hexValue? (c : CodePoint) : Option Nat :=
  if '0' ≤ c && c ≤ '9' then some (c.toNat - '0'.toNat)
  else if 'a' ≤ c && c ≤ 'f' then some (c.toNat - 'a'.toNat + 10)
  else if 'A' ≤ c && c ≤ 'F' then some (c.toNat - 'A'.toNat + 10)
  else none

def hexNat? (cs : Text) : Option Nat :=
  cs.foldlM (fun n c => (hexValue? c).map (16 * n + ·)) 0

end TreeSpec.Text
