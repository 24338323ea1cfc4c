import TreeSpec.Pattern.CharSet
import TreeSpec.Pattern.Cursor

/-!
# Regular expressions

An expression is run on all places of a set at once: the ends of its matches from any of them make
up a set again. A repetition goes on from the places that it reaches for the first time, so that it
comes to an end after at most as many rounds as the text has characters, whatever its bounds are.
-/

namespace TreeSpec

set_option autoImplicit false

/-- A condition on a place in a text that consumes nothing. -/
inductive Anchor where
  | textStart
  | textEnd
  /-- The end of the text, or in front of a line break that ends it. -/
  | finalEnd
  | lineStart
  | lineEnd
  | wordEdge
  | notWordEdge
  deriving DecidableEq, Repr

inductive Regex where
  | empty
  | set (s : CharSet)
  | anchor (a : Anchor)
  | seq (first second : Regex)
  | alt (first second : Regex)
  /-- The body `low` times and then at most `more` times, or as often as one likes. -/
  | times (body : Regex) (low : Nat) (more : Option Nat)
  deriving DecidableEq, Repr

namespace Anchor

/-- Exactly one side of the place is a word character. -/
def atWordEdge (c : Cursor) : Bool :=
  (c.before.any Text.isWord) != (c.rest.head?.any Text.isWord)

def holds (a : Anchor) (c : Cursor) : Bool :=
  match a with
  | textStart => c.before.isNone
  | textEnd => c.rest.isEmpty
  | finalEnd => c.rest.isEmpty || c.rest = "\n"
  | lineStart => c.before.isNone || c.before = some '\n'
  | lineEnd => c.rest.isEmpty || c.rest.head? = some '\n'
  | wordEdge => atWordEdge c
  | notWordEdge => !(c.before.isNone && c.rest.isEmpty) && !atWordEdge c

end Anchor

namespace Regex

/-- The place after the next character, if that is in the set. -/
def pass? (s : CharSet) (c : Cursor) : Option Cursor :=
  match c.next? with
  | some (ch, d) => if s.contains ch then some d else none
  | none => none

/-- Takes a step a number of times, until that changes nothing any more. -/
def turns (step : Places → Places) : Nat → Places → Places
  | 0, cs => cs
  | n + 1, cs =>
    let ds := step cs
    if ds == cs then cs else turns step n ds

/-- The places in `seen` and those that at most so many further steps lead to. The steps start at
the latest places, those in `frontier`. -/
def spread (step : Places → Places) : Nat → Places → Places → Places
  | 0, _, seen => seen
  | n + 1, frontier, seen =>
    let found := (step frontier).fresh seen
    if found.isEmpty then seen else spread step n found (found.union seen)

/-- The length of what is left behind the earliest of the places. -/
def mostLeft (cs : Places) : Nat := cs.foldl (fun n c => max n c.left) 0

/-- The ends of the matches that start at one of the places. -/
def ends : Regex → Places → Places
  | empty, cs => cs
  | set s, cs => cs.filterMap (pass? s)
  | anchor a, cs => cs.filter a.holds
  | seq first second, cs => second.ends (first.ends cs)
  | alt first second, cs => (first.ends cs).union (second.ends cs)
  | times body low more, cs =>
    let reached := turns body.ends low cs
    spread body.ends (more.getD (mostLeft reached)) reached reached

def foundIn (r : Regex) (text : Text) : Bool := !(r.ends (.all text)).isEmpty

def concat : List Regex → Regex
  | [] => empty
  | [r] => r
  | r :: rs => seq r (concat rs)

/-- Any one of the expressions; of none of them, the empty match. -/
def choice : List Regex → Regex
  | [] => empty
  | [r] => r
  | r :: rs => alt r (choice rs)

def optional (r : Regex) : Regex := times r 0 (some 1)

def star (r : Regex) : Regex := times r 0 none

def plus (r : Regex) : Regex := times r 1 none

def exactly (r : Regex) (n : Nat) : Regex := times r n (some 0)

def between (r : Regex) (m n : Nat) : Regex := times r m (some (n - m))

end Regex

end TreeSpec
