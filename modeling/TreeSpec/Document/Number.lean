import TreeSpec.Decimal.FloatText
import TreeSpec.Failure
import TreeSpec.Text.Hex
import TreeSpec.Text.Pieces

/-!
# Numbers in a document

Whole numbers are written in decimal, in binary, in octal with a leading zero, in hexadecimal, or in
base sixty with colons between the digits; underscores between digits do not count. Numbers with a
point are written in decimal or in base sixty. A text of the form of a number may still be too long
or have no digits.
-/

namespace TreeSpec.Document

set_option autoImplicit false

def isDigitOrMark (c : CodePoint) : Bool := c.isDigit || c = '_'

/-- A digit, then digits and underscores. -/
def isDigitRun (cs : Text) : Bool := cs.head?.any CodePoint.isDigit && cs.all isDigitOrMark

def isSixtieth (cs : Text) : Bool :=
  match cs with
  | [c] => c.isDigit
  | [c, d] => '0' ≤ c && c ≤ '5' && d.isDigit
  | _ => false

def colonPieces (cs : Text) : List Text := Text.pieces (· = ':') cs

def withoutMarks (cs : Text) : Text := cs.filter (· != '_')

/-- A text without its sign, and whether that is a minus. -/
def unsigned (cs : Text) : Bool × Text :=
  match cs with
  | .char '-' :: rest => (true, rest)
  | .char '+' :: rest => (false, rest)
  | rest => (false, rest)

/-! ## Whole numbers -/

inductive NaturalForm where
  /-- Digits in a base that is a power of two. -/
  | inBase (base : Nat) (digits : Text)
  /-- The digits of one number or of several in base sixty. -/
  | decimal (pieces : List Text)
  deriving DecidableEq, Repr

/-- The value of digits in a base of at most sixteen. -/
def digitsIn (base : Nat) (cs : Text) : Nat :=
  cs.foldl (fun n c => base * n + (Text.hexValue? c).getD 0) 0

namespace NaturalForm

/-- The form of a text, if it is a whole number without a sign. -/
def of? (cs : Text) : Option NaturalForm :=
  let among (marks : Text) (ds : Text) : Bool := !ds.isEmpty && ds.all marks.contains
  match cs with
  | [.char '0'] => some (decimal [['0']])
  | .char '0' :: .char 'b' :: ds =>
    if among "01_" ds then some (inBase 2 (withoutMarks ds)) else none
  | .char '0' :: .char 'x' :: ds =>
    if among "0123456789abcdefABCDEF_" ds then some (inBase 16 (withoutMarks ds)) else none
  | .char '0' :: ds =>
    if among "01234567_" ds then some (inBase 8 ('0' :: withoutMarks ds)) else none
  | _ =>
    match colonPieces cs with
    | whole :: sixtieths =>
      if isDigitRun whole && sixtieths.all isSixtieth then
        some (decimal (withoutMarks whole :: sixtieths))
      else none
    | [] => none

def value : NaturalForm → Except Failure Nat
  | inBase base digits =>
    if digits.isEmpty then .error (.badNumeral base "") else .ok (digitsIn base digits)
  | decimal pieces =>
    match pieces.find? (maxDigits < ·.length) with
    | some piece => .error (.numeralTooLong piece.length)
    | none => .ok (pieces.foldl (fun n piece => 60 * n + digitsIn 10 piece) 0)

end NaturalForm

/-- The whole number that a text stands for, if it has the form of one. -/
def integer? (cs : Text) : Option (Except Failure Int) :=
  let (negative, rest) := unsigned cs
  (NaturalForm.of? rest).map fun form =>
    form.value.map fun n => if negative then -(n : Int) else n

/-! ## Numbers with a point -/

/-- An exponent, which has to have a sign, or nothing. -/
def isExponent (cs : Text) : Bool :=
  match cs with
  | [] => true
  | e :: sign :: digits =>
    (e = 'e' || e = 'E') && (sign = '-' || sign = '+') && !digits.isEmpty &&
      digits.all CodePoint.isDigit
  | _ => false

/-- A decimal with a point and perhaps an exponent. A sign needs a digit before the point. -/
def isPointed (signed : Bool) (cs : Text) : Bool :=
  let whole := cs.takeWhile isDigitOrMark
  match cs.dropWhile isDigitOrMark with
  | .char '.' :: rest =>
    isExponent (rest.dropWhile isDigitOrMark) &&
      if whole.isEmpty then !signed && isDigitRun (rest.takeWhile isDigitOrMark)
      else isDigitRun whole
  | _ => false

/-- A number in base sixty whose last piece has a point. -/
def isPointedSixty (pieces : List Text) : Bool :=
  match pieces, pieces.getLast? with
  | whole :: next :: more, some last =>
    isDigitRun whole && (next :: more).dropLast.all isSixtieth &&
      isSixtieth (last.takeWhile CodePoint.isDigit) &&
      match last.dropWhile CodePoint.isDigit with
      | .char '.' :: fraction => fraction.all isDigitOrMark
      | _ => false
  | _, _ => false

/-- The number of pieces in base sixty, each with its power of sixty. The powers have to be small
enough for floating-point numbers. -/
def sixtyFloat (pieces : List Text) : Except Failure Float :=
  let values := pieces.map fun p => (FloatText.read? p).getD 0.0
  if Float.isInf (Float.ofNat (Nat.pow 60 (min 200 (pieces.length - 1)))) then
    .error .integerTooLarge
  else
    .ok (values.reverse.zipIdx.foldl (fun sum (v, k) => sum + v * Float.ofNat (Nat.pow 60 k)) 0.0)

def infiniteWords : List Text := [".inf", ".Inf", ".INF"]

def noNumberWords : List Text := [".nan", ".NaN", ".NAN"]

/-- The number with a point that a text stands for, if it has the form of one. -/
def float? (cs : Text) : Option (Except Failure Float) :=
  let (negative, rest) := unsigned cs
  let signed := rest.length < cs.length
  let pieces := colonPieces rest
  let magnitude : Option (Except Failure Float) :=
    if infiniteWords.contains rest then some (.ok (1.0 / 0.0))
    else if !signed && noNumberWords.contains rest then some (.ok (0.0 / 0.0))
    else if isPointed signed rest then
      (FloatText.read? (withoutMarks rest)).map .ok
    else if isPointedSixty pieces then some (sixtyFloat (pieces.map withoutMarks))
    else none
  magnitude.map fun x => x.map fun x => if negative then -x else x

end TreeSpec.Document
