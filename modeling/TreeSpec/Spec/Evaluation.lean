import TreeSpec.Spec.Expression

/-!
# Evaluation of compiled specs

A value is tried against the clauses in order, up to the first clause that accepts it. A clause
whose matcher fails does not accept the value. What was tried is kept, with the calls that each
trial made.
-/

namespace TreeSpec

set_option autoImplicit false

structure Attempt where
  clause : Clause
  value : Text
  calls : List Call
  outcome : Except Failure Bool

namespace Attempt

def passed (a : Attempt) : Bool :=
  match a.outcome with
  | .ok b => b
  | .error _ => false

def failure? (a : Attempt) : Option Failure :=
  match a.outcome with
  | .ok _ => none
  | .error e => some e

end Attempt

def Clause.attempt (value : Text) (c : Clause) : Attempt :=
  let asked := c.matcher.ask (c.question value)
  ⟨c, value, asked.trace, asked.result⟩

/-- Tries clauses in order until one accepts the value. -/
def attemptUntil (value : Text) : List Clause → List Attempt
  | [] => []
  | c :: cs =>
    let a := c.attempt value
    if a.passed then [a] else a :: attemptUntil value cs

namespace Expression

/-- The trials on a value. Nothing is tried for a spec that was not compiled or a missing value. -/
def attempts (e : Expression) (value : Option Text) : List Attempt :=
  match e.error, value with
  | none, some text => attemptUntil text e.clauses
  | _, _ => []

/-- What trials on a value come to. A missing value is not tried. -/
def verdict (e : Expression) (value : Option Text) (tried : List Attempt) : Bool :=
  match value with
  | none => e.allowsMissing
  | some _ => tried.any (·.passed)

def accepts (e : Expression) (value : Option Text) : Bool :=
  match e.error with
  | some _ => false
  | none => e.verdict value (e.attempts value)

end Expression

end TreeSpec
