import TreeSpec.Text.Hex

/-!
# Reports as JSON

A small tree of texts, truth values, lists and objects, written over several lines with two spaces
for each level. All characters outside printable ASCII are escaped.
-/

namespace TreeSpec

set_option autoImplicit false

inductive Json where
  | text (s : Text)
  | bool (b : Bool)
  | list (items : List Json)
  /-- The members in order. -/
  | object (members : List (Text × Json))

namespace Json

def unit (n : Nat) : Text := '\\' :: 'u' :: Text.hex 4 n

/-- A character inside quotes. Characters beyond the first plane are two units. -/
def escape (c : CodePoint) : Text :=
  let n := c.toNat
  if c = '\x22' || c = '\\' then ['\\', c]
  else if c = '\n' then ['\\', 'n']
  else if c = '\r' then ['\\', 'r']
  else if c = '\t' then ['\\', 't']
  else if c = '\x0c' then ['\\', 'f']
  else if c = '\x08' then ['\\', 'b']
  else if 0x20 ≤ n && n < 0x7F then [c]
  else if n < 0x10000 then unit n
  else unit (0xD800 + (n - 0x10000) / 0x400) ++ unit (0xDC00 + (n - 0x10000) % 0x400)

def quote (s : Text) : Text :=
  "\x22" ++ s.flatMap escape ++ "\x22"

/-- The line break and the spaces in front of an item at some depth. -/
def newline (depth : Nat) : Text := '\n' :: Text.repeated (2 * depth) ' '

/-- Items between brackets, each on a line of its own. -/
def enclose (depth : Nat) (opening closing : Text) (items : List Text) : Text :=
  if items.isEmpty then opening ++ closing
  else
    opening ++ newline (depth + 1) ++ Text.joined ("," ++ newline (depth + 1)) items ++
      newline depth ++ closing

mutual

/-- The tree as text, where its lines after the first are at the given depth. -/
def render (depth : Nat) : Json → Text
  | text s => quote s
  | bool b => if b then "true" else "false"
  | list items => enclose depth "[" "]" (renderItems (depth + 1) items)
  | object members => enclose depth "\x7b" "\x7d" (renderMembers (depth + 1) members)

def renderItems (depth : Nat) : List Json → List Text
  | [] => []
  | item :: rest => item.render depth :: renderItems depth rest

def renderMembers (depth : Nat) : List (Text × Json) → List Text
  | [] => []
  | (name, value) :: rest =>
    (quote name ++ ": " ++ value.render depth) :: renderMembers depth rest

end

end Json

end TreeSpec
