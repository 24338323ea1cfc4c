import TreeSpec.Document.Plain
import TreeSpec.Document.Quoted
import TreeSpec.Document.Token

/-!
# The layout of a document

A document is cut into tokens from left to right. The layout keeps the blocks that are open by the
columns in which they stand, the open brackets, and where a key may have started: only a colon tells
that it was a key, and then the mark of the key is put in front of it. A key has to end on its line,
within 1024 characters.
-/

namespace TreeSpec.Document

set_option autoImplicit false

/-- The most characters from the start of a key to its colon. -/
def maxKeyLength : Nat := 1024

/-- Where a key may have started. -/
structure KeyStart where
  /-- The number of tokens in front of it. -/
  tokens : Nat
  /-- Nothing else can start here. -/
  required : Bool
  /-- How many characters were left. -/
  left : Nat
  line : Nat
  column : Nat
  deriving DecidableEq, Repr

def KeyStart.isStale (k : KeyStart) (p : Place) : Bool :=
  k.line != p.line || p.left + maxKeyLength < k.left

structure Layout where
  place : Place
  /-- The latest token first. -/
  tokens : List Token
  count : Nat
  /-- The column of the innermost open block. -/
  indent : Int
  outerIndents : List Int
  /-- A key that may have started since the innermost bracket. -/
  key : Option KeyStart
  /-- The same for the brackets around it, one for each open bracket. -/
  outerKeys : List (Option KeyStart)
  /-- A key may start here. -/
  keyAllowed : Bool
  deriving DecidableEq, Repr

namespace Layout

def start (cs : Text) : Layout := ⟨.start cs, [], 0, -1, [], none, [], true⟩

def inFlow (l : Layout) : Bool := !l.outerKeys.isEmpty

def push (l : Layout) (t : Token) : Layout :=
  { l with tokens := t :: l.tokens, count := l.count + 1 }

def take (l : Layout) (n : Nat) (t : Token) : Layout := { l.push t with place := l.place.skip n }

/-- Gives up a key that cannot be one any more, unless it has to be one. -/
def dropKey (k : Option KeyStart) : Except Failure (Option KeyStart) :=
  if k.any (·.required) then .error .malformedDocument else .ok none

def dropStale (l : Layout) : Except Failure Layout := do
  let check (k : Option KeyStart) : Except Failure (Option KeyStart) :=
    if k.any (·.isStale l.place) then dropKey k else .ok k
  return { l with key := ← check l.key, outerKeys := ← l.outerKeys.mapM check }

def forgetKey (l : Layout) : Except Failure Layout := do
  return { l with key := ← dropKey l.key }

def saveKey (l : Layout) : Except Failure Layout :=
  if l.keyAllowed then do
    let l ← l.forgetKey
    let required := !l.inFlow && l.indent = l.place.column
    return { l with key := some ⟨l.count, required, l.place.left, l.place.line, l.place.column⟩ }
  else .ok l

/-- Leaves all blocks that stand further to the right than a column. -/
def closeBlocks (l : Layout) (column : Int) : Layout :=
  if l.inFlow then l
  else
    let closed := (l.indent :: l.outerIndents).takeWhile (column < ·)
    match (l.indent :: l.outerIndents).drop closed.length with
    | indent :: outer =>
      let l := closed.foldl (fun l _ => l.push .blockEnd) l
      { l with indent := indent, outerIndents := outer }
    | [] => l

/-- Goes over spaces, comments and line breaks. A key may start on a new line of a block. -/
def skipGaps : Nat → Bool → Layout → Layout
  | 0, _, l => l
  | fuel + 1, inComment, l =>
    match l.place.peek with
    | none => l
    | some c =>
      let after := { l with place := l.place.next }
      if isBreak c then
        skipGaps fuel false (if l.inFlow then after else { after with keyAllowed := true })
      else if inComment || c = '#' then skipGaps fuel true after
      else if c = ' ' then skipGaps fuel false after
      else l

/-! ## Marks -/

/-- Opens a block at a column, unless it stands in one there. -/
def openBlock (l : Layout) (column : Int) (t : Token) : Layout :=
  if l.indent < column then
    { l.push t with indent := column, outerIndents := l.indent :: l.outerIndents }
  else l

/-- Opens a block for a mark of a block at the place, where such a mark may stand. -/
def startBlock (l : Layout) (t : Token) : Except Failure Layout :=
  if l.inFlow then .ok l
  else if l.keyAllowed then .ok (l.openBlock l.place.column t)
  else .error .malformedDocument

def itemMark (l : Layout) : Except Failure Layout := do
  let l ← (← l.startBlock .blockItems).forgetKey
  return { l with keyAllowed := true }.take 1 .item

def keyMark (l : Layout) : Except Failure Layout := do
  let l ← (← l.startBlock .blockEntries).forgetKey
  return { l with keyAllowed := !l.inFlow }.take 1 .key

/-- Puts the mark of a key in front of it, and the start of a block if the key opens one. -/
def insertKey (l : Layout) (k : KeyStart) : Layout :=
  let later := l.tokens.take (l.count - k.tokens)
  let earlier : Layout :=
    { l with tokens := l.tokens.drop (l.count - k.tokens), count := k.tokens, key := none }
  let opened := if l.inFlow then earlier else earlier.openBlock k.column .blockEntries
  let marked := opened.push .key
  { marked with tokens := later ++ marked.tokens, count := marked.count + later.length }

def valueMark (l : Layout) : Except Failure Layout :=
  match l.key with
  | some k => .ok ({ l.insertKey k with keyAllowed := false }.take 1 .value)
  | none => do
    let l ← l.startBlock .blockEntries
    return { l with keyAllowed := !l.inFlow }.take 1 .value

def openBracket (l : Layout) (t : Token) : Except Failure Layout := do
  let l ← l.saveKey
  return { l with outerKeys := l.key :: l.outerKeys, key := none, keyAllowed := true }.take 1 t

def closeBracket (l : Layout) (t : Token) : Except Failure Layout := do
  let l ← l.forgetKey
  match l.outerKeys with
  | [] => .error .malformedDocument
  | k :: outer => return { l with key := k, outerKeys := outer, keyAllowed := false }.take 1 t

def comma (l : Layout) : Except Failure Layout := do
  let l ← l.forgetKey
  return { l with keyAllowed := true }.take 1 .comma

def documentMark (l : Layout) (t : Token) : Except Failure Layout := do
  let l ← (l.closeBlocks (-1)).forgetKey
  return { l with keyAllowed := false }.take 3 t

/-! ## Scalars -/

def quotedScalar (l : Layout) (quote : CodePoint) : Except Failure Layout := do
  let l ← l.saveKey
  let (text, place) ← quoted quote l.place
  return { l.push (.scalar text .quoted) with place, keyAllowed := false }

def plainScalar (l : Layout) : Except Failure Layout := do
  let l ← l.saveKey
  let (text, lineEnded, place) := plain l.inFlow l.indent l.place
  return { l.push (.scalar text .plain) with place, keyAllowed := lineEnded }

/-! ## All tokens -/

/-- Nothing is left. -/
def finish (l : Layout) : Except Failure Layout := do
  let l ← (l.closeBlocks (-1)).forgetKey
  return l.push .finish

/-- The character starts what is not read here: an alias, an anchor, a tag, a block scalar or a
directive. -/
def startsUnread (l : Layout) (c : CodePoint) : Bool :=
  c ∈ ("*&!" : Text) || (!l.inFlow && (c = '|' || c = '>')) || (l.place.column = 0 && c = '%')

/-- Adds the next token and the marks of blocks that go with it. -/
def step (l : Layout) : Except Failure Layout := do
  let l ← (skipGaps l.place.left false l).dropStale
  let l := l.closeBlocks l.place.column
  match l.place.rest with
  | [] => l.finish
  | c :: cs =>
    let markStands := l.inFlow || isGap cs.head?
    if l.place.column = 0 && l.place.atDocumentMark then
      l.documentMark (if c = '-' then .documentStart else .documentEnd)
    else if c = '[' then l.openBracket .flowItems
    else if c = '\x7b' then l.openBracket .flowEntries
    else if c = ']' then l.closeBracket .flowItemsEnd
    else if c = '\x7d' then l.closeBracket .flowEntriesEnd
    else if c = ',' then l.comma
    else if c = '-' && isGap cs.head? then l.itemMark
    else if c = '?' && markStands then l.keyMark
    else if c = ':' && markStands then l.valueMark
    else if c = '\x27' || c = '\x22' then l.quotedScalar c
    else if startsPlain l.inFlow c cs.head? then l.plainScalar
    else .error (if l.startsUnread c then .unreadSyntax else .malformedDocument)

/-- The number of tokens in front of the first place where a key may have started. -/
def settled (l : Layout) : Nat :=
  ((l.key :: l.outerKeys).filterMap id).foldl (fun n k => min n k.tokens) l.count

/-- The tokens from a layout on. In front of a fault only those count that a later colon cannot
change. -/
def tokensFrom : Nat → Layout → List Token
  | 0, l => (.broken .malformedDocument :: l.tokens).reverse
  | fuel + 1, l =>
    match l.dropStale with
    | .error e => (.broken e :: l.tokens).reverse
    | .ok l =>
      match l.step with
      | .error e => (.broken e :: l.tokens.drop (l.count - l.settled)).reverse
      | .ok next =>
        if next.tokens.head? = some .finish then next.tokens.reverse else tokensFrom fuel next

end Layout

def tokensOf (cs : Text) : List Token :=
  let l := Layout.start cs
  let l := if l.place.peek = some '\ufeff' then { l with place := l.place.next } else l
  l.tokensFrom (l.place.left + 1)

end TreeSpec.Document
