import TreeSpec.Text.Blank
import TreeSpec.Text.Case
import TreeSpec.Text.Word

/-!
# Character sets

A set is a list of items, taken as their union or as the complement of it. A set that ignores case
accepts a character when an item accepts a case variant of it. One kind of item is narrower: beside
other items, a character beyond the first plane accepts only the characters whose small letter it
is.
-/

namespace TreeSpec

set_option autoImplicit false

inductive Category where
  | digit
  | word
  | blank
  deriving DecidableEq, Repr

def Category.contains : Category → CodePoint → Bool
  | digit => Text.isDigit
  | word => Text.isWord
  | blank => Text.isBlank

inductive SetItem where
  | char (c : CodePoint)
  /-- Both ends belong to the range. -/
  | range (first last : CodePoint)
  | category (kind : Category)
  | exceptCategory (kind : Category)
  deriving DecidableEq, Repr

namespace SetItem

def contains : SetItem → CodePoint → Bool
  | char d, c => c = d
  | range first last, c =>
    first ≤ c && c ≤ last
  | category kind, c => kind.contains c
  | exceptCategory kind, c => !kind.contains c

/-- The item accepts a case variant of the character. Categories do not depend on case. -/
def containsVariant (item : SetItem) (c : CodePoint) : Bool :=
  match item with
  | char _ | range _ _ => (Text.caseVariants c).any item.contains
  | category _ | exceptCategory _ => item.contains c

/-- The item accepts the character regardless of case, as one of several items. -/
def containsAmong (item : SetItem) (c : CodePoint) : Bool :=
  match item with
  | char d => if 0xFFFF < d.toNat then Text.lower c = d else item.containsVariant c
  | _ => item.containsVariant c

end SetItem

structure CharSet where
  items : List SetItem
  negated : Bool
  ignoreCase : Bool
  deriving DecidableEq, Repr

namespace CharSet

def listed (s : CharSet) (c : CodePoint) : Bool :=
  if s.ignoreCase then
    match s.items with
    | [item] => item.containsVariant c
    | items => items.any (·.containsAmong c)
  else s.items.any (·.contains c)

def contains (s : CharSet) (c : CodePoint) : Bool := s.listed c != s.negated

def of (items : List SetItem) : CharSet := ⟨items, false, false⟩

/-- Everything outside the items, with regard to case. -/
def except (items : List SetItem) : CharSet := ⟨items, true, false⟩

@[simp] theorem contains_of (items : List SetItem) (c : CodePoint) :
    (of items).contains c = items.any (·.contains c) := by
  simp [contains, listed, of]

@[simp] theorem contains_except (items : List SetItem) (c : CodePoint) :
    (except items).contains c = !items.any (·.contains c) := by
  simp [contains, listed, except]

end CharSet

end TreeSpec
