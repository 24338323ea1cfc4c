import TreeSpec.Effect
import TreeSpec.Pattern.Reader
import TreeSpec.Text.Blank

/-!
# Matchers

A matcher answers a question about the text of a value. It is a pattern, a predicate, the inversion
of another matcher, or a matcher that has not been given a meaning. Predicates may look things up in
the outside world and may fail; both show in the effect of asking.
-/

namespace TreeSpec

set_option autoImplicit false

/-- The text of a value with the arguments of the type it is tried against. -/
structure Question where
  value : Text
  rawArgs : Option Text
  parsedArgs : List Text
  deriving DecidableEq, Repr

inductive Probe where
  | host
  | path
  | user
  | group
  deriving DecidableEq, Repr

/-- A key that is looked up in a table of the outside world. -/
structure TableLookup where
  table : Text
  key : Text
  deriving DecidableEq, Repr

inductive Lookup where
  /-- A builtin predicate asks a probe about a text. -/
  | probe (kind : Probe) (subject : Text)
  /-- A probe looks something up. -/
  | table (l : TableLookup)
  deriving DecidableEq, Repr

inductive Call where
  | predicate (name : Text) (question : Question)
  | lookup (l : Lookup)
  deriving DecidableEq, Repr

structure Predicate where
  name : Text
  /-- What the predicate says about itself; may have several lines. -/
  doc : Text
  run : Question → Effect Lookup Bool

/-- The first line of the text, the white space around the text apart. -/
def firstLine (doc : Text) : Text :=
  (Text.trim doc).takeWhile (· != '\n')

inductive Matcher where
  | pattern (p : Finder) (description : Text)
  | predicate (p : Predicate) (description : Text)
  | negated (inner : Matcher)
  /-- A matcher whose meaning is left open: asking it fails. -/
  | undefined (description : Text)

namespace Matcher

def kind : Matcher → Text
  | pattern _ _ => "pattern"
  | predicate _ _ => "predicate"
  | negated inner => "no-" ++ inner.kind
  | undefined _ => "matcher"

def description : Matcher → Text
  | pattern _ d | predicate _ d | undefined d => d
  | negated inner => if inner.description.isEmpty then "" else "not: " ++ inner.description

/-- The matcher as it is written in a listing of values. -/
def shown : Matcher → Text
  | pattern p _ => "PatternMatcher(" ++ Text.quoted p.source ++ ")"
  | predicate p _ => "PredicateMatcher(" ++ p.name ++ ")"
  | negated inner => "NegatedMatcher(" ++ inner.shown ++ ")"
  | undefined _ => "Matcher"

/-- A predicate that describes itself by the first line of its text if no description is given. -/
def ofPredicate (p : Predicate) (description : Text) : Matcher :=
  predicate p (if description.isEmpty then firstLine p.doc else description)

/-- Asks a matcher. An inverted matcher fails where the matcher under it fails. -/
def ask : Matcher → Question → Effect Call Bool
  | pattern p _, q => pure (p.found q.value)
  | predicate p _, q => do
    Effect.emit [.predicate p.name q]
    (p.run q).retrace fun l => [.lookup l]
  | negated inner, q => do return !(← inner.ask q)
  | undefined _, _ => Effect.fail .notImplemented

end Matcher

inductive MatcherSource where
  | ready (m : Matcher)
  | compiled (p : Finder)
  /-- The text of a pattern, with what compiling it gives. -/
  | compiling (result : Except Failure Finder)
  | predicate (p : Predicate)
  /-- A value of the named type, which is no matcher. -/
  | unusable (typeName : Text)

def MatcherSource.text (source : Text) : MatcherSource :=
  .compiling ((Pattern.compile Flags.none source).map Pattern.finder)

/-- The matcher that a registration argument stands for. A ready matcher keeps its own
description. -/
def Matcher.ofSource (source : MatcherSource) (description : Text) : Except Failure Matcher :=
  match source with
  | .ready m => .ok m
  | .compiled p => .ok (.pattern p description)
  | .compiling result => result.map (.pattern · description)
  | .predicate p => .ok (.ofPredicate p description)
  | .unusable typeName => .error (.notAMatcher typeName)

end TreeSpec
