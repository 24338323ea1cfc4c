import TreeSpec.Data.Scalar
import TreeSpec.Report.ValidationError
import TreeSpec.Spec.Evaluation

/-!
# Notices

A notice is a line of the log. Warnings are always written, the rest only for debugging. Each notice
comes from one part of the library, whose name stands in front of it in a full log.
-/

namespace TreeSpec

set_option autoImplicit false

inductive Level where
  | warning
  | debug
  deriving DecidableEq, Repr

inductive Notice where
  /-- A leaf was compiled and its spec is broken. -/
  | brokenSpec (error : SchemaError)
  /-- The matcher of a type failed on a value. -/
  | failedType (name value : Text) (failure : Failure)
  /-- Two keys of a mapping have the same text. -/
  | sameText (earlier later : Scalar) (text : Text) (path : Path)
  | descending (path : Path)
  /-- A clause was tried on a value. -/
  | tried (path : Path) (value label kind : Text) (passed : Bool)
  | recorded (error : ValidationError)
  /-- A validation ended with so many errors. -/
  | finished (count : Nat)

namespace Notice

def level : Notice → Level
  | brokenSpec _ | failedType _ _ _ | sameText _ _ _ _ => .warning
  | descending _ | tried _ _ _ _ _ | recorded _ | finished _ => .debug

def source : Notice → Text
  | failedType _ _ _ => "structcheck.expressions.evaluator"
  | finished _ => "structcheck.validator"
  | _ => "structcheck.walker"

def message : Notice → Text
  | brokenSpec error => error.message ++ ", leaf will always fail"
  | failedType name value failure =>
    "Type '" ++ name ++ "' failed while checking " ++ Text.quoted value ++
      ", treating as no match: " ++ failure.message
  | sameText earlier later text path =>
    "Keys " ++ earlier.shown ++ " and " ++ later.shown ++ " both render as " ++
      Text.quoted text ++ " at " ++ path.render ++ ", keeping the last"
  | descending path => "Descending into " ++ path.render
  | tried path value label kind passed =>
    path.render ++ ": " ++ Text.quoted value ++ " against " ++ label ++ " (" ++ kind ++ ") -> " ++
      (if passed then "pass" else "fail")
  | recorded error => "FAIL " ++ error.message
  | finished count => "Validation finished with " ++ toString count ++ " error(s)"

end Notice

inductive Event where
  | call (c : Call)
  | notice (n : Notice)
  | error (e : ValidationError)

namespace Event

def call? : Event → Option Call
  | call c => some c
  | _ => none

def notice? : Event → Option Notice
  | notice n => some n
  | _ => none

def error? : Event → Option ValidationError
  | error e => some e
  | _ => none

end Event

end TreeSpec
