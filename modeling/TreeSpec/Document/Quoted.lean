import TreeSpec.Document.Place
import TreeSpec.Failure
import TreeSpec.Text.Hex

/-!
# Quoted scalars

Between single quotes a quote is written twice and nothing else is escaped. Between double quotes a
backslash starts an escape. A line break stands for a space, and each further one for itself; the
spaces and tabs around it do not count.
-/

namespace TreeSpec.Document

set_option autoImplicit false

/-- The characters that a backslash and one character stand for. -/
def simpleEscapes : List (CodePoint × CodePoint) :=
  [('0', '\x00'), ('a', '\x07'), ('b', '\x08'), ('t', '\t'), ('\t', '\t'), ('n', '\n'),
    ('v', '\x0b'), ('f', '\x0c'), ('r', '\r'), ('e', '\x1b'), (' ', ' '), ('\x22', '\x22'),
    ('\\', '\\'), ('/', '/'), ('N', '\x85'), ('_', '\xa0'), ('L', '\u2028'), ('P', '\u2029')]

/-- The number of hexadecimal digits after an escape of a code point. -/
def escapeWidth? (c : CodePoint) : Option Nat :=
  match c with
  | .char 'x' => some 2
  | .char 'u' => some 4
  | .char 'U' => some 8
  | _ => none

/-- The code point whose number is given by the first `width` characters, in hexadecimal. -/
def pointOfDigits (width : Nat) (cs : Text) : Except Failure CodePoint :=
  match Text.hexNat? (cs.take width) with
  | some n =>
    if (cs.take width).length < width then .error .malformedDocument
    else
      match CodePoint.ofNat? n with
      | some c => .ok c
      | none => .error (.noCodePoint n)
  | none => .error .malformedDocument

/-- Goes over white space after a line break and gives the further line breaks in it; `read` has the
latest one first. A mark between documents may not stand inside a text. -/
def moreBreaks : Nat → Text → Place → Except Failure (Text × Place)
  | 0, _, _ => .error .malformedDocument
  | fuel + 1, read, p =>
    if p.atDocumentMark then .error .malformedDocument
    else
      let p := p.skipWhile isSpaceOrTab
      match p.peek with
      | some c =>
        if isBreak c then moreBreaks fuel (breakText c :: read) p.next else .ok (read.reverse, p)
      | none => .ok (read.reverse, p)

/-- What the white space at a place stands for. -/
def quotedGap (p : Place) : Except Failure (Text × Place) :=
  let q := p.skipWhile isSpaceOrTab
  match q.peek with
  | none => .error .malformedDocument
  | some c =>
    if isBreak c then do
      let (more, r) ← moreBreaks q.left [] q.next
      return (folded c more, r)
    else .ok (p.rest.takeWhile isSpaceOrTab, q)

def readEscape (p : Place) : Except Failure (Text × Place) :=
  match p.rest with
  | [] => .error .malformedDocument
  | c :: cs =>
    match simpleEscapes.lookup c, escapeWidth? c with
    | some d, _ => .ok ([d], p.next)
    | none, some width => do return ([← pointOfDigits width cs], p.skip (width + 1))
    | none, none =>
      if isBreak c then moreBreaks p.left [] p.next else .error .malformedDocument

/-- Reads up to the closing quote; `read` has the latest character first. -/
def readQuoted (quote : CodePoint) : Nat → Text → Place → Except Failure (Text × Place)
  | 0, _, _ => .error .malformedDocument
  | fuel + 1, read, p =>
    match p.rest with
    | [] => .error .malformedDocument
    | c :: cs =>
      if c = quote then
        if quote = '\x27' && cs.head? = some quote then
          readQuoted quote fuel (quote :: read) (p.skip 2)
        else .ok (read.reverse, p.next)
      else if c = '\\' && quote = '\x22' then
        match readEscape p.next with
        | .ok (text, q) => readQuoted quote fuel (text.reverseAux read) q
        | .error e => .error e
      else if isGap (some c) then
        match quotedGap p with
        | .ok (text, q) => readQuoted quote fuel (text.reverseAux read) q
        | .error e => .error e
      else readQuoted quote fuel (c :: read) p.next

def quoted (quote : CodePoint) (p : Place) : Except Failure (Text × Place) :=
  readQuoted quote p.left [] p.next

end TreeSpec.Document
