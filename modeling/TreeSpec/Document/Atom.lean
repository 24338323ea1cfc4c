import TreeSpec.Data.Scalar
import TreeSpec.Document.Moment
import TreeSpec.Document.Number

/-!
# Atoms

An atom is what a scalar of a document stands for. The text of a plain scalar decides: null, a truth
value, a number, a date or a moment, and otherwise a text. As keys of a mapping two atoms are one if
they are equal as numbers, as moments or as texts.
-/

namespace TreeSpec.Document

set_option autoImplicit false

inductive Atom where
  | null
  | bool (b : Bool)
  | int (i : Int)
  | float (x : Float)
  | text (s : Text)
  | date (d : Date)
  | moment (m : Moment)

def nullWords : List Text := ["", "~", "null", "Null", "NULL"]

def trueWords : List Text := ["yes", "Yes", "YES", "true", "True", "TRUE", "on", "On", "ON"]

def falseWords : List Text := ["no", "No", "NO", "false", "False", "FALSE", "off", "Off", "OFF"]

namespace Atom

/-- What a plain scalar stands for. Two marks with a meaning for keys stand for nothing
elsewhere. -/
def ofPlain (word : Text) : Except Failure Atom :=
  if nullWords.contains word then .ok null
  else if trueWords.contains word then .ok (bool true)
  else if falseWords.contains word then .ok (bool false)
  else if word = "<<" || word = "=" then .error .malformedDocument
  else
    match float? word, integer? word, date? word, moment? word with
    | some x, _, _, _ => x.map float
    | _, some i, _, _ => i.map int
    | _, _, some d, _ => d.check.map date
    | _, _, _, some m => m.check.map moment
    | _, _, _, _ => .ok (text word)

def toScalar : Atom → Scalar
  | null => .null
  | bool b => .bool b
  | int i => .int i
  | float x => .float x
  | text s => .text s
  | date d => .foreign ⟨"date", d.text, "datetime.date(" ++ Text.joined ", " d.shownParts ++ ")"⟩
  | moment m => .foreign ⟨"datetime", m.text, m.shown⟩

/-! ## Atoms as keys -/

/-- The number of an atom, where truth values are one and zero. -/
inductive Number where
  | whole (i : Int)
  | pointed (x : Float)

def number? : Atom → Option Number
  | bool b => some (.whole (if b then 1 else 0))
  | int i => some (.whole i)
  | float x => some ((FloatText.whole? x).elim (.pointed x) .whole)
  | _ => none

/-- The two are one number. What is no number is one with itself. -/
def Number.same : Number → Number → Bool
  | whole i, whole j => i = j
  | pointed x, pointed y => x == y || x.isNaN && y.isNaN
  | _, _ => false

def same : Atom → Atom → Bool
  | null, null => true
  | text s, text t => s = t
  | date d, date e => d = e
  | moment m, moment n => m.same n
  | a, b =>
    match a.number?, b.number? with
    | some x, some y => x.same y
    | _, _ => false

end Atom

end TreeSpec.Document
