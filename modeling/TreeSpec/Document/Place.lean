import TreeSpec.Text.Basic

/-!
# Places in a document

A place is what is left of a document, with the length of that and the line and the column at which
it starts. Columns decide which block a line belongs to, lines and lengths how far a key may reach.
-/

namespace TreeSpec.Document

set_option autoImplicit false

structure Place where
  /-- How many characters are left. -/
  left : Nat
  line : Nat
  column : Nat
  rest : Text
  deriving DecidableEq, Repr

def isBreak (c : CodePoint) : Bool := c = '\n' || c = '\x85' || c = '\u2028' || c = '\u2029'

def isSpaceOrTab (c : CodePoint) : Bool := c = ' ' || c = '\t'

/-- The end of the document, a line break, a space or a tab. -/
def isGap (c : Option CodePoint) : Bool :=
  match c with
  | none => true
  | some c => isSpaceOrTab c || isBreak c

def isAllowed (c : CodePoint) : Bool :=
  c = '\t' || c = '\n' || (' ' ≤ c && c ≤ '~') || c = '\x85' ||
    ('\xa0' ≤ c && c ≤ '\ufffd') || '\uffff' < c

/-- A document with every carriage return, with or without a line feed after it, as one line feed;
`read` has the latest character first. -/
def unifyBreaks (read : Text) : Text → Text
  | .char '\r' :: .char '\n' :: cs => unifyBreaks ('\n' :: read) cs
  | .char '\r' :: cs => unifyBreaks ('\n' :: read) cs
  | c :: cs => unifyBreaks (c :: read) cs
  | [] => read.reverse

namespace Place

def start (cs : Text) : Place := ⟨cs.length, 0, 0, cs⟩

def peek (p : Place) : Option CodePoint := p.rest.head?

/-- The place after the next character. A byte order mark takes up no column. -/
def next (p : Place) : Place :=
  match p.rest with
  | [] => p
  | c :: cs =>
    if isBreak c then ⟨p.left - 1, p.line + 1, 0, cs⟩
    else ⟨p.left - 1, p.line, if c = '\ufeff' then p.column else p.column + 1, cs⟩

def skip (p : Place) : Nat → Place
  | 0 => p
  | n + 1 => p.next.skip n

def skipWhile (p : Place) (kind : CodePoint → Bool) : Place := p.skip (p.rest.takeWhile kind).length

def atMark (p : Place) (mark : Text) : Bool :=
  mark.isPrefixOf p.rest && isGap (p.rest.drop mark.length).head?

/-- A mark for the start or the end of a document stands here, as it would at the start of a
line. -/
def atDocumentMark (p : Place) : Bool := p.atMark ['-', '-', '-'] || p.atMark ['.', '.', '.']

end Place

/-- What a line break stands for in a text: those of one line after another are all line feeds. -/
def breakText (c : CodePoint) : CodePoint := if c = '\x85' then '\n' else c

/-- What a line break and the line breaks after it stand for inside a text that goes over several
lines: a single line feed stands for a space, and the first of several for nothing. -/
def folded (first : CodePoint) (more : Text) : Text :=
  if breakText first != '\n' then first :: more
  else if more.isEmpty then [' ']
  else more

end TreeSpec.Document
