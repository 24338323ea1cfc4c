import TreeSpec.Failure
import TreeSpec.Pattern.Regex
import TreeSpec.Text.Hex

/-!
# Reading regular expressions

The text is cut into pieces: atoms, brackets of groups, bars and quantifiers. The pieces are then
put together with a stack of open groups. Every text that is no regular expression fails in the same
way; numbers that are too large fail in a way of their own. The first fault in the text counts.

Not all syntax is read: flags and conditions in brackets, names of groups and of characters,
references to groups, and repetitions that give nothing back. A text with one of these fails in a
way of its own as well, whether it is a regular expression or not.

What all alternatives of a group start with is taken in front of them, and alternatives that are
single characters make up one set.
-/

namespace TreeSpec

set_option autoImplicit false

/-- What a pattern is read under: letter case, lines and the full stop. -/
structure Flags where
  ignoreCase : Bool
  /-- `^` and `$` stand for the ends of lines. -/
  multiline : Bool
  /-- The full stop stands for line breaks too. -/
  dotAll : Bool
  deriving DecidableEq, Repr

def Flags.none : Flags := ⟨false, false, false⟩

namespace Regex.Reader

inductive Piece where
  /-- An expression, and whether it may be repeated. -/
  | atom (r : Regex) (repeatable : Bool)
  /-- The start of a group, which may be one to be remembered. -/
  | opened (remembered : Bool)
  | closed
  | bar
  /-- A repetition, which may be one that gives nothing back. -/
  | quantifier (low : Nat) (high : Option Nat) (possessive : Bool)
  /-- What the group of the number holds. -/
  | reference (group : Nat)
  /-- From here on the text cannot be cut. -/
  | broken (e : Failure)

inductive Escape where
  | item (i : SetItem)
  | anchor (a : Anchor)
  | reference (group : Nat)

def isOctal (c : CodePoint) : Bool := '0' ≤ c && c ≤ '7'

def octalValue (cs : Text) : Nat :=
  cs.foldl (fun n c => 8 * n + c.digit) 0

/-- The failure of something in front of the rest of a text. A backslash at the end of the text is
noticed when it comes next, and goes first. -/
def faultBefore (rest : Text) (e : Failure) : Failure := if rest = "\\" then .badPattern else e

/-- The code point whose number has exactly `width` hexadecimal digits, and the rest. -/
def codePoint (width : Nat) (cs : Text) : Except Failure (Escape × Text) :=
  let digits := cs.take width
  match Text.hexNat? digits with
  | some n =>
    if digits.length < width then .error .badPattern
    else if maxWord < n then .error (faultBefore (cs.drop width) (.noCodePoint n))
    else
      match CodePoint.ofNat? n with
      | some c => .ok (.item (.char c), cs.drop width)
      | none => .error .badPattern
  | none => .error .badPattern

/-- A reference to a group, whose number has one digit or two. -/
def groupNumber (c : CodePoint) (cs : Text) : Escape × Text :=
  let more := (cs.take 1).takeWhile CodePoint.isDigit
  (.reference ((c :: more).foldl (fun n d => 10 * n + d.digit) 0), cs.drop more.length)

/-- A backslash and a digit: `\0` takes up to two more octal digits, others exactly two. Outside of
a set it may also be a reference. -/
def octal (c : CodePoint) (cs : Text) (inSet : Bool) : Except Failure (Escape × Text) :=
  let more := (cs.take 2).takeWhile isOctal
  let n := octalValue (c :: more)
  if isOctal c && (c = '0' || inSet || more.length = 2) then
    match CodePoint.ofNat? n with
    | some d => if n ≤ 0xFF then .ok (.item (.char d), cs.drop more.length) else .error .badPattern
    | none => .error .badPattern
  else if inSet then .error .badPattern
  else .ok (groupNumber c cs)

/-- Reads what follows a backslash, `c` and then `cs`. -/
def readEscape (inSet : Bool) (c : CodePoint) (cs : Text) : Except Failure (Escape × Text) :=
  let found (e : Escape) : Except Failure (Escape × Text) := .ok (e, cs)
  match c with
  | .char 'd' => found (.item (.category .digit))
  | .char 'D' => found (.item (.exceptCategory .digit))
  | .char 'w' => found (.item (.category .word))
  | .char 'W' => found (.item (.exceptCategory .word))
  | .char 's' => found (.item (.category .blank))
  | .char 'S' => found (.item (.exceptCategory .blank))
  | .char 'a' => found (.item (.char '\x07'))
  | .char 'f' => found (.item (.char '\x0c'))
  | .char 'n' => found (.item (.char '\n'))
  | .char 'r' => found (.item (.char '\r'))
  | .char 't' => found (.item (.char '\t'))
  | .char 'v' => found (.item (.char '\x0b'))
  | .char 'x' => codePoint 2 cs
  | .char 'u' => codePoint 4 cs
  | .char 'U' => codePoint 8 cs
  | .char 'b' => found (if inSet then .item (.char '\x08') else .anchor .wordEdge)
  | _ =>
    if c.isDigit then octal c cs inSet
    else if !inSet && c = 'A' then found (.anchor .textStart)
    else if !inSet && c = 'Z' then found (.anchor .textEnd)
    else if !inSet && c = 'B' then found (.anchor .notWordEdge)
    else if c = 'N' && cs.head? = some '{' then .error .unreadSyntax
    else if c.isAlpha then .error .badPattern
    else found (.item (.char c))

def readItem (c : CodePoint) (cs : Text) : Except Failure (SetItem × Text) :=
  if c = '\\' then
    match cs with
    | [] => .error .badPattern
    | d :: ds => do
      match ← readEscape true d ds with
      | (.item i, rest) => .ok (i, rest)
      | _ => .error .badPattern
  else .ok (.char c, cs)

/-- Reads the items of a set up to its closing bracket, which is an item if it comes first. -/
def readItems : Nat → List SetItem → Text → Except Failure (List SetItem × Text)
  | 0, _, _ => .error .badPattern
  | _ + 1, _, [] => .error .badPattern
  | fuel + 1, items, c :: cs =>
    if c = ']' && !items.isEmpty then .ok (items.reverse, cs)
    else do
      let (item, rest) ← readItem c cs
      match rest with
      | .char '-' :: .char ']' :: rest => .ok ((.char '-' :: item :: items).reverse, rest)
      | .char '-' :: d :: rest =>
        match item, ← readItem d rest with
        | .char first, (.char last, rest) =>
          if last < first then .error .badPattern
          else readItems fuel (.range first last :: items) rest
        | _, _ => .error .badPattern
      | _ => readItems fuel (item :: items) rest

def readSet (flags : Flags) (cs : Text) : Except Failure (CharSet × Text) := do
  let negated := cs.head? = some '^'
  let body := if negated then cs.tail else cs
  let (items, rest) ← readItems (body.length + 1) [] body
  return (⟨items.eraseDups, negated, flags.ignoreCase⟩, rest)

def boundLimit : Nat := 4294967295

/-- The number that ASCII digits denote, if there are any. -/
def readBound (ds : Text) : Except Failure (Option Nat) :=
  let n := ds.foldl (fun n c => 10 * n + c.digit) 0
  if ds.isEmpty then .ok none
  else if maxDigits < ds.length then .error (.numeralTooLong ds.length)
  else if boundLimit ≤ n then .error .repetitionTooLarge
  else .ok (some n)

/-- The digits of the bounds of a quantifier after its opening brace, if there are any. -/
def boundDigits? (cs : Text) : Option (Text × Text × Text) :=
  let low := cs.takeWhile CodePoint.isDigit
  match cs.dropWhile CodePoint.isDigit with
  | .char '}' :: rest => if low.isEmpty then none else some (low, low, rest)
  | .char ',' :: rest =>
    match rest.dropWhile CodePoint.isDigit with
    | .char '}' :: after => some (low, rest.takeWhile CodePoint.isDigit, after)
    | _ => none
  | _ => none

/-- A quantifier with the mark behind it. A question mark changes which match is preferred, not
whether there is one. -/
def quantified (low : Nat) (high : Option Nat) (cs : Text) : Piece × Text :=
  match cs with
  | .char '?' :: rest => (.quantifier low high false, rest)
  | .char '+' :: rest => (.quantifier low high true, rest)
  | _ => (.quantifier low high false, cs)

/-- What follows a bracket and a question mark. -/
def readExtension (cs : Text) : Except Failure (Piece × Text) :=
  match cs with
  | .char ':' :: rest => .ok (.opened false, rest)
  | .char 'P' :: rest =>
    .error (if rest.head? = some '<' || rest.head? = some '=' then .unreadSyntax else .badPattern)
  | .char '<' :: rest =>
    .error (if rest.head? = some '=' || rest.head? = some '!' then .unreadSyntax else .badPattern)
  | c :: _ => .error (if c ∈ ("#=!(>-aiLmstux" : Text) then .unreadSyntax else .badPattern)
  | [] => .error .badPattern

def literal (flags : Flags) (i : SetItem) : Piece :=
  .atom (.set ⟨[i], false, flags.ignoreCase⟩) true

def readPlain (flags : Flags) (c : CodePoint) : Piece :=
  match c with
  | .char '.' => .atom (.set ⟨if flags.dotAll then [] else [.char '\n'], true, false⟩) true
  | .char '^' => .atom (.anchor (if flags.multiline then .lineStart else .textStart)) false
  | .char '$' => .atom (.anchor (if flags.multiline then .lineEnd else .finalEnd)) false
  | .char ')' => .closed
  | .char '|' => .bar
  | c => literal flags (.char c)

def readPiece (flags : Flags) (c : CodePoint) (cs : Text) : Except Failure (Piece × Text) :=
  match c with
  | .char '\\' =>
    match cs with
    | [] => .error .badPattern
    | d :: ds => do
      match ← readEscape false d ds with
      | (.item i, rest) => .ok (literal flags i, rest)
      | (.anchor a, rest) => .ok (.atom (.anchor a) false, rest)
      | (.reference group, rest) => .ok (.reference group, rest)
  | .char '[' => do
    let (s, rest) ← readSet flags cs
    return (.atom (.set s) true, rest)
  | .char '(' =>
    match cs with
    | .char '?' :: rest => readExtension rest
    | _ => .ok (.opened true, cs)
  | .char '*' => .ok (quantified 0 none cs)
  | .char '+' => .ok (quantified 1 none cs)
  | .char '?' => .ok (quantified 0 (some 1) cs)
  | .char '{' =>
    match boundDigits? cs with
    | some (low, high, rest) => do
      let low ← (readBound low).mapError (faultBefore rest)
      let high ← (readBound high).mapError (faultBefore rest)
      return quantified (low.getD 0) high rest
    | none => .ok (literal flags (.char '{'), cs)
  | c => .ok (readPlain flags c, cs)

def Piece.opensGroup : Piece → Bool
  | opened remembered => remembered
  | _ => false

/-- A reference is not read, but it has to be to one of the groups that were opened. -/
def Piece.settle (read : List Piece) : Piece → Piece
  | reference group =>
    broken (if group ≤ read.countP opensGroup then .unreadSyntax else .badPattern)
  | piece => piece

/-- Cuts a text of at most `fuel` characters into pieces; `read` has the latest one first. -/
def readPieces (flags : Flags) : Nat → List Piece → Text → List Piece
  | fuel + 1, read, c :: cs =>
    match readPiece flags c cs with
    | .ok (piece, rest) => readPieces flags fuel (piece.settle read :: read) rest
    | .error e => (.broken e :: read).reverse
  | _, read, _ => read.reverse

structure Part where
  body : Regex
  /-- The part is one character or a condition, not a repetition and not a group to be
  remembered. -/
  simple : Bool
  deriving DecidableEq, Repr

def inOrder (parts : List Part) : Regex := concat (parts.map (·.body))

structure Item where
  parts : List Part
  repeatable : Bool

/-- The simple parts with which all alternatives start, the first one given apart from the others,
and what is left of the alternatives. -/
def splitCommon : List Part → List (List Part) → List Part × List (List Part)
  | [], others => ([], [] :: others)
  | p :: ps, others =>
    if p.simple && others.all (·.head? = some p) then
      let (common, rests) := splitCommon ps (others.map List.tail)
      (p :: common, rests)
    else ([], (p :: ps) :: others)

/-- The set of an alternative that is a single character. -/
def single? : List Part → Option CharSet
  | [⟨.set s, true⟩] => if s.negated then none else some s
  | _ => none

/-- The set that alternatives make up if they are single characters. -/
def joinedSet? (branches : List (List Part)) : Option CharSet := do
  let sets ← branches.mapM single?
  let first ← sets.head?
  return ⟨(sets.flatMap (·.items)).eraseDups, false, first.ignoreCase⟩

/-- The parts of a group with the given alternatives. -/
def joined : List (List Part) → List Part
  | [] => []
  | [branch] => branch
  | branch :: others =>
    let (common, rests) := splitCommon branch others
    common ++
      match joinedSet? rests with
      | some s => [⟨.set s, true⟩]
      | none => [⟨choice (rests.map inOrder), false⟩]

/-- An open group: the alternatives that are complete and the items of the current one, both with
the latest first. -/
structure Group where
  remembered : Bool
  branches : List (List Part)
  items : List Item

namespace Group

def new (remembered : Bool) : Group := ⟨remembered, [], []⟩

def push (g : Group) (item : Item) : Group := { g with items := item :: g.items }

def current (g : Group) : List Part := g.items.reverse.flatMap (·.parts)

def split (g : Group) : Group := { g with branches := g.current :: g.branches, items := [] }

def close (g : Group) : List Part := joined (g.current :: g.branches).reverse

def asItem (g : Group) : Item :=
  ⟨if g.remembered then [⟨inOrder g.close, false⟩] else g.close, true⟩

end Group

/-- Puts pieces together: the group being read and the groups around it. -/
def assemble : List Piece → Group → List Group → Except Failure Regex
  | [], g, [] => .ok (inOrder g.close)
  | [], _, _ :: _ => .error .badPattern
  | .atom r repeatable :: ps, g, outer => assemble ps (g.push ⟨[⟨r, true⟩], repeatable⟩) outer
  | .opened remembered :: ps, g, outer => assemble ps (.new remembered) (g :: outer)
  | .closed :: _, _, [] => .error .badPattern
  | .closed :: ps, g, o :: outer => assemble ps (o.push g.asItem) outer
  | .bar :: ps, g, outer => assemble ps g.split outer
  | .quantifier low high possessive :: ps, g, outer =>
    match g.items with
    | ⟨parts, true⟩ :: items =>
      if high.any (· < low) then .error .badPattern
      else if possessive then .error .unreadSyntax
      else
        let r := times (inOrder parts) low (high.map (· - low))
        assemble ps { g with items := ⟨[⟨r, false⟩], false⟩ :: items } outer
    | _ => .error .badPattern
  | .reference _ :: _, _, _ => .error .unreadSyntax
  | .broken e :: _, _, _ => .error e

end Regex.Reader

namespace Regex

def read (flags : Flags) (source : Text) : Except Failure Regex :=
  Reader.assemble (Reader.readPieces flags source.length [] source) (.new false) []

end Regex

/-- A regular expression with the text that it was read from. -/
structure Pattern where
  source : Text
  body : Regex
  deriving DecidableEq, Repr

namespace Pattern

def compile (flags : Flags) (source : Text) : Except Failure Pattern :=
  (Regex.read flags source).map fun body => ⟨source, body⟩

def search (p : Pattern) (text : Text) : Bool := p.body.foundIn text

end Pattern

/-- A compiled pattern of any library: all that is seen of it is its source and where it is
found. -/
structure Finder where
  source : Text
  found : Text → Bool

def Pattern.finder (p : Pattern) : Finder := ⟨p.source, p.search⟩

instance : Coe Pattern Finder := ⟨Pattern.finder⟩

@[simp] theorem Pattern.found_finder (p : Pattern) (text : Text) :
    p.finder.found text = p.search text := rfl

end TreeSpec
