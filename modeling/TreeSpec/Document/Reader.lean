import TreeSpec.Data.Value
import TreeSpec.Document.Atom
import TreeSpec.Document.Layout
import TreeSpec.Document.Node

/-!
# Reading documents

A document is read in three steps: tokens, a tree of nodes, and a value. A fault in an early step
comes before all faults in later ones. In the last step the tree is gone through in rounds, from the
root down, so that of several faults the one nearest to the root counts. Aliases, anchors, tags,
block scalars and directives are not read.

The characters of a document are taken in by blocks, and a character that no document may hold is
noticed as soon as its block is taken in. A fault that shows in the blocks before it goes first.
-/

namespace TreeSpec.Document

set_option autoImplicit false

def atomOf (text : Text) : Style → Except Failure Atom
  | .plain => Atom.ofPlain text
  | .quoted => .ok (.text text)

/-- The faults of two places side by side, round by round, those of the first place in front. -/
def sideBySide : List (List Failure) → List (List Failure) → List (List Failure)
  | [], rounds => rounds
  | rounds, [] => rounds
  | first :: rounds, first' :: rounds' => (first ++ first') :: sideBySide rounds rounds'

namespace Node

def ownFault : Node → List Failure
  | scalar text style =>
    match atomOf text style with
    | .ok _ => []
    | .error e => [e]
  | _ => []

def keyFault : Node → List Failure
  | scalar text style => ownFault (scalar text style)
  | _ => [.malformedDocument]

mutual

/-- The faults of a collection, round by round: first those of its keys and scalars, then those of
the collections in it. -/
def rounds : Node → List (List Failure)
  | scalar _ _ => []
  | sequence items => items.flatMap ownFault :: itemRounds [] items
  | mapping entries =>
    (entries.flatMap fun e => keyFault e.1 ++ ownFault e.2) :: entryRounds [] entries
  | unmergeable => [[.malformedDocument]]

/-- Puts the faults of items beside those in `found`. -/
def itemRounds (found : List (List Failure)) : List Node → List (List Failure)
  | [] => found
  | item :: rest => itemRounds (sideBySide found item.rounds) rest

/-- Puts the faults of values beside those in `found`. -/
def entryRounds (found : List (List Failure)) : List (Node × Node) → List (List Failure)
  | [] => found
  | (_, value) :: rest => entryRounds (sideBySide found value.rounds) rest

end

def fault? (n : Node) : Option Failure := (n.ownFault :: n.rounds).flatten.head?

def atom : Node → Atom
  | scalar text style =>
    match atomOf text style with
    | .ok a => a
    | .error _ => .null
  | _ => .null

/-- Sets the value of a key, which keeps its place if it is there. -/
def putKey (key : Atom) (value : Value) : List (Atom × Value) → List (Atom × Value)
  | [] => [(key, value)]
  | (k, v) :: rest => if k.same key then (k, value) :: rest else (k, v) :: putKey key value rest

mutual

/-- The value of a node without faults. The last of several entries with one key gives its value. -/
def value : Node → Value
  | scalar text style => .scalar (scalar text style).atom.toScalar
  | sequence items => .sequence .list (itemValues [] items)
  | mapping entries => .mapping ((entryValues [] entries).map fun e => (e.1.toScalar, e.2))
  | unmergeable => .mapping []

/-- The values of items behind those in `read`, which has the latest one first. -/
def itemValues (read : List Value) : List Node → List Value
  | [] => read.reverse
  | item :: rest => itemValues (item.value :: read) rest

/-- Puts entries behind those in `read`. -/
def entryValues (read : List (Atom × Value)) : List (Node × Node) → List (Atom × Value)
  | [] => read
  | (key, value) :: rest => entryValues (putKey key.atom value.value read) rest

end

end Node

/-- The number of characters that are taken in at first. -/
def firstBlock : Nat := 8192

/-- The number of characters that are taken in later on, when more are needed. -/
def blockSize : Nat := 4096

def blockStart (i : Nat) : Nat := if i < firstBlock then 0 else i - (i - firstBlock) % blockSize

def readNode (cs : Text) : Except Failure Node :=
  match cs.findIdx? (!isAllowed ·) with
  | none => Node.ofTokens (tokensOf cs)
  | some i => do
    let _ ← Node.ofTokens (tokensOf (cs.take (blockStart i)))
    throw .malformedDocument

/-- The value of a document. An empty document is null. -/
def read (text : Text) : Except Failure Value := do
  let node ← readNode (unifyBreaks [] text)
  match node.fault? with
  | some e => throw e
  | none => return node.value

end TreeSpec.Document
