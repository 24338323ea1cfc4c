import TreeSpec.Text.Ranges

/-!
# Blanks

White space in the wide sense: the controls from tab to carriage return, the four information
separators, and the space characters of all scripts. Zero-width characters are not blank.
-/

namespace TreeSpec.Text

set_option autoImplicit false

def blankRanges : List (Nat × Nat) :=
  [(0x9, 0xD), (0x1C, 0x20), (0x85, 0x85), (0xA0, 0xA0), (0x1680, 0x1680), (0x2000, 0x200A),
   (0x2028, 0x2029), (0x202F, 0x202F), (0x205F, 0x205F), (0x3000, 0x3000)]

def isBlank (c : CodePoint) : Bool :=
  inRanges blankRanges c

/-- The text without the white space at its two ends. -/
def trim (cs : Text) : Text :=
  ((cs.dropWhile isBlank).reverse.dropWhile isBlank).reverse

end TreeSpec.Text
