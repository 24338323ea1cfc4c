import TreeSpec.Text.Hex
import TreeSpec.Text.Printable

/-!
# Quoted text

Text written on one line between quotes. Single quotes are used unless the text holds a single quote
and no double quote. The quote in use, the backslash and characters that do not show are escaped.
-/

namespace TreeSpec.Text

set_option autoImplicit false

def singleQuote : CodePoint := '\x27'

def doubleQuote : CodePoint := '\x22'

def quoteMark (cs : Text) : CodePoint :=
  if cs.contains singleQuote && !cs.contains doubleQuote then doubleQuote else singleQuote

def escapedPoint (n : Nat) : Text :=
  if n < 0x100 then '\\' :: 'x' :: hex 2 n
  else if n < 0x10000 then '\\' :: 'u' :: hex 4 n
  else '\\' :: 'U' :: hex 8 n

def escaped (mark c : CodePoint) : Text :=
  if c = mark || c = '\\' then ['\\', c]
  else if c = '\n' then ['\\', 'n']
  else if c = '\r' then ['\\', 'r']
  else if c = '\t' then ['\\', 't']
  else if isPrintable c then [c]
  else escapedPoint c.toNat

def quoted (s : Text) : Text :=
  let mark := quoteMark s
  mark :: s.flatMap (escaped mark) ++ [mark]

end TreeSpec.Text
