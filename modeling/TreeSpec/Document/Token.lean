import TreeSpec.Failure

/-!
# Tokens of a document

The marks and scalars of a document in order. Blocks, which are told by indentation in the document,
have a mark at their start and at their end, and each key has one in front of it.
-/

namespace TreeSpec.Document

set_option autoImplicit false

inductive Style where
  | plain
  | quoted
  deriving DecidableEq, Repr

inductive Token where
  | scalar (text : Text) (style : Style)
  /-- The start of a block of items. -/
  | blockItems
  /-- The start of a block of keys and values. -/
  | blockEntries
  | blockEnd
  /-- A hyphen in front of an item. -/
  | item
  | key
  | value
  /-- An opening bracket. -/
  | flowItems
  | flowItemsEnd
  /-- An opening brace. -/
  | flowEntries
  | flowEntriesEnd
  | comma
  | documentStart
  | documentEnd
  /-- Nothing is left. -/
  | finish
  /-- From here on the document cannot be cut into tokens. -/
  | broken (e : Failure)
  deriving DecidableEq, Repr

end TreeSpec.Document
