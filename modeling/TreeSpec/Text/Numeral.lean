import TreeSpec.Failure
import TreeSpec.Text.Digit

/-!
# Numerals

Integers are written in decimal and read from the decimal digits of any script. Both directions
refuse more than `maxDigits` digits, the sign apart.
-/

namespace TreeSpec.Text

set_option autoImplicit false

/-- The number that a list of digits denotes; other characters count as zero. -/
def digitsValue (cs : Text) : Nat :=
  cs.foldl (fun n c => 10 * n + (digitValue? c).getD 0) 0

/-- Reads digits alone. The length is looked at first, then what follows the digits. -/
def readNatural (text : Text) (cs : Text) : Except Failure Nat :=
  let digits := cs.takeWhile isDigit
  if maxDigits < digits.length then .error (.numeralTooLong digits.length)
  else if digits.isEmpty || digits.length < cs.length then .error (.badNumeral 10 text)
  else .ok (digitsValue digits)

/-- Reads an integer: digits with an optional minus sign in front. -/
def readInteger (text : Text) : Except Failure Int :=
  match text with
  | .char '-' :: cs => (readNatural text cs).map fun n => -(n : Int)
  | cs => (readNatural text cs).map Int.ofNat

def writeInteger (i : Int) : Except Failure Text :=
  if Nat.pow 10 maxDigits ≤ i.natAbs then .error .integerTooLong
  else .ok (toString i)

end TreeSpec.Text
