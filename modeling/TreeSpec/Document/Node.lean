import TreeSpec.Document.Token

/-!
# Nodes of a document

The tokens of a document make up a tree of scalars, sequences and mappings. A scalar that is left
out is an empty plain one. The entries that a mapping takes over from others by the key `<<` are put
in front of its own when it is made.
-/

namespace TreeSpec.Document

set_option autoImplicit false

inductive Node where
  | scalar (text : Text) (style : Style)
  | sequence (items : List Node)
  | mapping (entries : List (Node × Node))
  /-- A mapping that is to take over entries from something else. -/
  | unmergeable

namespace Node

def absent : Node := scalar [] .plain

def entries? : Node → Option (List (Node × Node))
  | mapping entries => some entries
  | _ => none

/-- The entries that a mapping takes over from a mapping or a sequence of them. Of a sequence those
of the last mapping come first. -/
def taken? : Node → Option (List (Node × Node))
  | mapping entries => some entries
  | sequence items => (items.mapM entries?).map fun each => each.reverse.flatten
  | _ => none

/-- The node is the key that takes over entries. -/
def takesOver : Node → Bool
  | scalar text .plain => text = "<<"
  | _ => false

/-- A plain equals sign is a text if it is a key. -/
def asKey : Node → Node
  | scalar [.char '='] .plain => scalar ['='] .quoted
  | key => key

/-- The mapping with the given entries, some of which may take over others. -/
def ofEntries (entries : List (Node × Node)) : Node :=
  let (takers, own) := entries.partition fun e => e.1.takesOver
  match takers.mapM fun e => e.2.taken? with
  | some taken => mapping (taken.flatten ++ own.map fun e => (e.1.asKey, e.2))
  | none => unmergeable

/-! ## Nodes from tokens -/

/-- A node read from the front of the tokens, and the tokens after it. -/
abbrev Reading := Except Failure (Node × List Token)

def unexpected {α : Type} : List Token → Except Failure α
  | .broken e :: _ => .error e
  | _ => .error .malformedDocument

def comesNext (ts next : List Token) : Bool := ts.head?.any next.contains

/-- The tokens after a comma, which stands in front of all members but the first. -/
def afterComma : Bool → List Token → Except Failure (List Token)
  | true, ts => .ok ts
  | false, .comma :: ts => .ok ts
  | false, ts => unexpected ts

mutual

/-- Reads a node. Outside of brackets it may be a block, after a key also one whose items stand in
the column of the key. -/
def read : Nat → Bool → Bool → List Token → Reading
  | 0, _, _, ts => unexpected ts
  | fuel + 1, inFlow, afterKey, ts =>
    match ts with
    | .scalar text style :: ts => .ok (scalar text style, ts)
    | .flowItems :: ts => readFlowItems fuel true [] ts
    | .flowEntries :: ts => readFlowEntries fuel true [] ts
    | .blockItems :: rest => if inFlow then unexpected ts else readItems fuel true [] rest
    | .blockEntries :: rest => if inFlow then unexpected ts else readEntries fuel [] rest
    | .item :: _ => if afterKey then readItems fuel false [] ts else unexpected ts
    | ts => unexpected ts

/-- Reads a node in a block or, if one of the tokens comes next, a scalar that is left out. -/
def readUnless : Nat → List Token → Bool → List Token → Reading
  | 0, _, _, ts => unexpected ts
  | fuel + 1, stops, afterKey, ts =>
    if comesNext ts stops then .ok (absent, ts) else read fuel false afterKey ts

/-- Reads a node between brackets or, if one of the tokens comes next, a scalar that is left out. -/
def readFlowUnless : Nat → List Token → List Token → Reading
  | 0, _, ts => unexpected ts
  | fuel + 1, stops, ts => if comesNext ts stops then .ok (absent, ts) else read fuel true false ts

/-- Reads items of a block; `read` has the latest one first. A block that is not closed, in the
column of a key, ends where no item follows. -/
def readItems : Nat → Bool → List Node → List Token → Reading
  | 0, _, _, ts => unexpected ts
  | fuel + 1, isClosed, items, ts =>
    match ts with
    | .item :: ts => do
      let stops := if isClosed then [.item, .blockEnd] else [.item, .key, .value, .blockEnd]
      let (item, ts) ← readUnless fuel stops false ts
      readItems fuel isClosed (item :: items) ts
    | .blockEnd :: rest =>
      .ok (sequence items.reverse, if isClosed then rest else ts)
    | ts => if isClosed then unexpected ts else .ok (sequence items.reverse, ts)

/-- Reads keys and values of a block; `entries` has the latest ones first. -/
def readEntries : Nat → List (Node × Node) → List Token → Reading
  | 0, _, ts => unexpected ts
  | fuel + 1, entries, ts =>
    match ts with
    | .key :: ts => do
      let stops := [.key, .value, .blockEnd]
      let (key, ts) ← readUnless fuel stops true ts
      let (value, ts) ←
        match ts with
        | .value :: ts => readUnless fuel stops true ts
        | ts => .ok (absent, ts)
      readEntries fuel ((key, value) :: entries) ts
    | .blockEnd :: ts => .ok (ofEntries entries.reverse, ts)
    | ts => unexpected ts

/-- Reads a key between brackets and its value, of which either may be left out. -/
def readFlowEntry : Nat → Token → List Token → Except Failure ((Node × Node) × List Token)
  | 0, _, ts => unexpected ts
  | fuel + 1, closing, ts => do
    let (key, ts) ← readFlowUnless fuel [.value, .comma, closing] ts
    let (value, ts) ←
      match ts with
      | .value :: ts => readFlowUnless fuel [.comma, closing] ts
      | ts => .ok (absent, ts)
    return ((key, value), ts)

/-- Reads items up to a closing bracket; `items` has the latest one first. -/
def readFlowItems : Nat → Bool → List Node → List Token → Reading
  | 0, _, _, ts => unexpected ts
  | fuel + 1, isFirst, items, ts =>
    match ts with
    | .flowItemsEnd :: ts => .ok (sequence items.reverse, ts)
    | ts =>
      match afterComma isFirst ts with
      | .error e => .error e
      | .ok (.flowItemsEnd :: ts) => .ok (sequence items.reverse, ts)
      | .ok (.key :: ts) => do
        let (entry, ts) ← readFlowEntry fuel .flowItemsEnd ts
        readFlowItems fuel false (ofEntries [entry] :: items) ts
      | .ok ts => do
        let (item, ts) ← read fuel true false ts
        readFlowItems fuel false (item :: items) ts

/-- Reads keys and values up to a closing brace; `entries` has the latest ones first. -/
def readFlowEntries : Nat → Bool → List (Node × Node) → List Token → Reading
  | 0, _, _, ts => unexpected ts
  | fuel + 1, isFirst, entries, ts =>
    match ts with
    | .flowEntriesEnd :: ts => .ok (ofEntries entries.reverse, ts)
    | ts =>
      match afterComma isFirst ts with
      | .error e => .error e
      | .ok (.flowEntriesEnd :: ts) => .ok (ofEntries entries.reverse, ts)
      | .ok (.key :: ts) => do
        let (entry, ts) ← readFlowEntry fuel .flowEntriesEnd ts
        readFlowEntries fuel false (entry :: entries) ts
      | .ok ts => do
        let (key, ts) ← read fuel true false ts
        readFlowEntries fuel false ((key, absent) :: entries) ts

end

/-- Nothing but marks for the end of the document may be left. -/
def ended (node : Node) : List Token → Except Failure Node
  | .documentEnd :: ts => ended node ts
  | .finish :: _ => .ok node
  | ts => unexpected ts

/-- The node that the tokens of one document make up. -/
def ofTokens (ts : List Token) : Except Failure Node := do
  let fuel := 3 * ts.length + 3
  match ts with
  | .finish :: _ => return absent
  | .documentStart :: ts =>
    let (node, ts) ← readUnless fuel [.documentStart, .documentEnd, .finish] false ts
    ended node ts
  | ts =>
    let (node, ts) ← read fuel false false ts
    ended node ts

end Node

end TreeSpec.Document
