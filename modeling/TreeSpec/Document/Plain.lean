import TreeSpec.Document.Place

/-!
# Plain scalars

A plain scalar is written without quotes. It ends at a comment, at the colon of a key, at the marks
of a flow collection around it, at a tab, and where a line is not indented far enough. Line breaks
inside it stand for spaces, as in quoted text.
-/

namespace TreeSpec.Document

set_option autoImplicit false

def isBracketOrComma (c : CodePoint) : Bool := (",[]\x7b\x7d" : Text).contains c

/-- Characters with a meaning of their own at the start of a token. -/
def isIndicator (c : CodePoint) : Bool :=
  isBracketOrComma c ||
    ("-?:#&*!|>\x27\x22%@\x60" : Text).contains c

/-- A plain scalar can start with the character in front of another one. -/
def startsPlain (inFlow : Bool) (c : CodePoint) (next : Option CodePoint) : Bool :=
  !(isGap (some c) || isIndicator c) ||
    (!isGap next && (c = '-' || (!inFlow && (c = '?' || c = ':'))))

/-- The character ends a run of a plain scalar in front of another one. -/
def endsRun (inFlow : Bool) (c : CodePoint) (next : Option CodePoint) : Bool :=
  isGap (some c) || (c = ':' && (isGap next || (inFlow && next.any isBracketOrComma))) ||
    (inFlow && (isBracketOrComma c || c = '?'))

/-- The run of a plain scalar at the start of a text; `read` has the latest character first. -/
def plainRun (inFlow : Bool) (read : Text) : Text → Text
  | [] => read.reverse
  | c :: cs => if endsRun inFlow c cs.head? then read.reverse else plainRun inFlow (c :: read) cs

structure PlainGap where
  /-- What it stands for in the text, if the scalar may go on after it. -/
  text : Text
  /-- A line ends in it. -/
  breaksLine : Bool
  place : Place

/-- Goes over spaces after a line break and gives the further line breaks in it, or nothing if a
mark between documents follows; `read` has the latest one first. -/
def plainBreaks : Nat → Text → Place → Option (Text) × Place
  | 0, _, p => (none, p)
  | fuel + 1, read, p =>
    if p.atDocumentMark then (none, p)
    else
      let p := p.skipWhile (· = ' ')
      match p.peek with
      | some c =>
        if isBreak c then plainBreaks fuel (breakText c :: read) p.next else (some read.reverse, p)
      | none => (some read.reverse, p)

def plainGap (p : Place) : PlainGap :=
  let q := p.skipWhile (· = ' ')
  match q.peek with
  | some c =>
    if isBreak c then
      match plainBreaks q.left [] q.next with
      | (some more, r) => ⟨folded c more, true, r⟩
      | (none, r) => ⟨[], true, r⟩
    else ⟨p.rest.takeWhile (· = ' '), false, q⟩
  | none => ⟨p.rest.takeWhile (· = ' '), false, q⟩

/-- Reads a plain scalar whose later lines have to be indented deeper than `indent`; `read` has the
latest character first. The answer says whether a line ends between the scalar and the place after
it. -/
def readPlain (inFlow : Bool) (indent : Int) : Nat → Text → Text → Bool → Place →
    Text × Bool × Place
  | 0, read, _, ended, p => (read.reverse, ended, p)
  | fuel + 1, read, gap, ended, p =>
    let run := if p.peek = some '#' then [] else plainRun inFlow [] p.rest
    if run.isEmpty then (read.reverse, ended, p)
    else
      let read := run.reverseAux (gap.reverseAux read)
      let after := plainGap (p.skip run.length)
      if after.text.isEmpty || after.place.peek = some '#' ||
          (!inFlow && after.place.column ≤ indent) then
        (read.reverse, after.breaksLine, after.place)
      else readPlain inFlow indent fuel read after.text after.breaksLine after.place

def plain (inFlow : Bool) (indent : Int) (p : Place) : Text × Bool × Place :=
  readPlain inFlow indent p.left [] [] false p

end TreeSpec.Document
