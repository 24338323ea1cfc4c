/-!
# Code points and texts

A text is a list of code points. A code point is a character or half of a surrogate pair that stands
alone. What `CodePoint` says of letters and digits is about ASCII.
-/

namespace TreeSpec

set_option autoImplicit false

inductive CodePoint where
  | char (c : Char)
  /-- Half of a pair, counted from the first one. -/
  | half (i : Fin 0x800)
  deriving Repr, Inhabited

namespace CodePoint

instance : Coe Char CodePoint := ⟨char⟩

def same : CodePoint → CodePoint → Bool
  | char c, char d => c == d
  | half i, half j => i == j
  | _, _ => false

theorem same_iff {c d : CodePoint} : c.same d = true ↔ c = d := by
  cases c <;> cases d <;> simp [same]

instance : DecidableEq CodePoint := fun _ _ => decidable_of_iff _ same_iff

/-- The number of the first half of a pair. -/
def firstHalf : Nat := 0xD800

def toNat : CodePoint → Nat
  | char c => c.toNat
  | half i => firstHalf + i

def ofNat? (n : Nat) : Option CodePoint :=
  if n.isValidChar then some (char (.ofNat n))
  else if h : n - firstHalf < 0x800 then some (half ⟨n - firstHalf, h⟩)
  else none

instance : LE CodePoint := ⟨fun c d => c.toNat ≤ d.toNat⟩

instance : LT CodePoint := ⟨fun c d => c.toNat < d.toNat⟩

instance (c d : CodePoint) : Decidable (c ≤ d) := inferInstanceAs (Decidable (c.toNat ≤ d.toNat))

instance (c d : CodePoint) : Decidable (c < d) := inferInstanceAs (Decidable (c.toNat < d.toNat))

def isDigit : CodePoint → Bool
  | char c => c.isDigit
  | half _ => false

def isAlpha : CodePoint → Bool
  | char c => c.isAlpha
  | half _ => false

def digit (c : CodePoint) : Nat := c.toNat - '0'.toNat

end CodePoint

abbrev Text := List CodePoint

namespace Text

def same : Text → Text → Bool
  | [], [] => true
  | c :: cs, d :: ds => c.same d && same cs ds
  | _, _ => false

theorem same_iff {s t : Text} : same s t = true ↔ s = t := by
  induction s generalizing t with
  | nil => cases t <;> simp [same]
  | cons c cs ih => cases t <;> simp [same, CodePoint.same_iff, ih]

instance : DecidableEq Text := fun _ _ => decidable_of_iff _ same_iff

def ofChars (cs : List Char) : Text := cs.map .char

def ofString (s : String) : Text := ofChars s.toList

instance : Coe String Text := ⟨ofString⟩

/-- A text as a string, with a replacement character for each half of a pair. -/
def string (t : Text) : String :=
  .ofList <| t.map fun
    | .char c => c
    | .half _ => '\ufffd'

def repeated (n : Nat) (c : CodePoint) : Text := List.replicate n c

/-- The parts in order with a separator between them. -/
def joined (separator : Text) (parts : List Text) : Text := separator.intercalate parts

end Text

end TreeSpec
