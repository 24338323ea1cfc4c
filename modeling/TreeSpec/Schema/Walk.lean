import TreeSpec.Report.Notice
import TreeSpec.Schema.Node

/-!
# Walking over data

A schema tree and a data tree are walked together, the schema in depth first and its children in
their order. Every failure is reported and the walk goes on. The walk gives up only where a number
is too long to be written. It returns the schema tree with the specs that were compiled on the way.
-/

namespace TreeSpec

set_option autoImplicit false

structure Setting where
  registry : Registry
  /-- Notices for debugging are given. -/
  debug : Bool

namespace Setting

def trace (s : Setting) (n : Notice) : List Event := if s.debug then [.notice n] else []

def report (s : Setting) (e : ValidationError) : List Event := .error e :: s.trace (.recorded e)

def reportValue (s : Setting) (kind : ErrorKind) (path : Path) (spec : Text) (data : Value)
    (detail : Text) : Effect Event Unit := do
  let value ← Effect.ofExcept data.describe
  Effect.emit (s.report ⟨kind, path, spec, value, detail⟩)

end Setting

namespace Attempt

/-- The calls of a trial, a warning if its matcher failed, and a notice of the result. -/
def events (s : Setting) (path : Path) (a : Attempt) : List Event :=
  a.calls.map .call ++
    (match a.failure? with
      | some e => [.notice (.failedType a.clause.name a.value e)]
      | none => []) ++
    s.trace (.tried path a.value a.clause.label a.clause.matcher.kind a.passed)

end Attempt

namespace Leaf

/-- The compiled spec of a leaf, compiled again only if the registry has changed. A spec that turns
out to be broken is reported at that time. -/
def compiled (l : Leaf) (r : Registry) : Leaf × Expression × List Event :=
  match l.kept? r with
  | some e => (l, e, [])
  | none =>
    let e := l.compile r
    (l.keep r e, e, e.error.toList.map fun error => .notice (.brokenSpec error))

def check (s : Setting) (path : Path) (spec : Text) (e : Expression) (data : Value) :
    Effect Event Unit :=
  match e.error with
  | some error => s.reportValue .schema path spec data error.message
  | none =>
    if !data.isScalar then s.reportValue .shape path spec data ""
    else do
      let value ←
        match data with
        | .scalar v => Effect.ofExcept (v.toText.map some)
        | _ => pure none
      let tried := e.attempts value
      Effect.emit (tried.flatMap (Attempt.events s path))
      if e.verdict value tried then return ()
      else s.reportValue .leaf path spec data ""

/-- Compiles the leaf if need be and checks data against it. -/
def visit (s : Setting) (path : Path) (l : Leaf) (data : Value) : Leaf × Effect Event Unit :=
  let (kept, e, events) := l.compiled s.registry
  (kept, do
    Effect.emit events
    check s path l.spec e data)

end Leaf

namespace Value

/-- The entries of a mapping by the texts of their keys. A key that has the text of an earlier one
is reported; `seen` holds the latest key of each text so far. -/
def entriesByText (path : Path) :
    Dictionary Scalar → List (Scalar × Value) → Effect Event (List (Text × Value))
  | _, [] => pure []
  | seen, (key, v) :: rest => do
    let text ← Effect.ofExcept key.toText
    Effect.emit ((seen.get? text).toList.map fun earlier =>
      .notice (.sameText earlier key text path))
    return (text, v) :: (← entriesByText path (seen.put text key) rest)

/-- The entries of a mapping whose keys are texts. -/
def keyedByText (entries : List (Scalar × Value)) : List (Text × Value) :=
  entries.filterMap fun
    | (.text key, v) => some (key, v)
    | _ => none

/-- The entries of a mapping at a branch, each with a text for its key. Keys that are all texts are
taken as they are. -/
def textKeyed (path : Path) (entries : List (Scalar × Value)) :
    Effect Event (List (Text × Value)) :=
  if entries.all (·.1.isText) then pure (keyedByText entries) else entriesByText path [] entries

end Value

namespace Node

/-- The entries of a mapping at a branch; of equal texts the last entry counts. -/
def enter (s : Setting) (path : Path) (entries : List (Scalar × Value)) :
    Effect Event (Dictionary Value) := do
  Effect.emit (s.trace (.descending path))
  return Dictionary.ofEntries (← Value.textKeyed path entries)

mutual

def visit (s : Setting) (path : Path) : Node → Value → Node × Effect Event Unit
  | leaf l, data =>
    let (l, effect) := l.visit s path data.orMissing
    (leaf l, effect)
  | branch children, data =>
    match data.orMissing with
    | .mapping entries =>
      let entered := enter s path entries
      match entered.result with
      | .error e => (branch children, ⟨.error e, entered.trace⟩)
      | .ok found =>
        let (children, effect) := visitAll s path found children
        (branch children, ⟨effect.result, entered.trace ++ effect.trace⟩)
    | other =>
      (branch children, s.reportValue .shape path Value.mappingText other "")

/-- Walks over the children of a branch, with the data found by their names. -/
def visitAll (s : Setting) (path : Path) (found : Dictionary Value) :
    List (Text × Node) → List (Text × Node) × Effect Event Unit
  | [] => ([], pure ())
  | (key, child) :: rest =>
    let (child, effect) := visit s (path ++ [key]) child ((found.get? key).getD .missing)
    match effect.result with
    | .error e => ((key, child) :: rest, ⟨.error e, effect.trace⟩)
    | .ok _ =>
      let (rest, more) := visitAll s path found rest
      ((key, child) :: rest, ⟨more.result, effect.trace ++ more.trace⟩)

end

/-- Walks over several data trees in turn, each from the same node on. -/
def visitEach (s : Setting) (path : Path) (n : Node) : List Value → Node × Effect Event Unit
  | [] => (n, pure ())
  | data :: rest =>
    let (n, effect) := n.visit s path data
    match effect.result with
    | .error e => (n, ⟨.error e, effect.trace⟩)
    | .ok _ =>
      let (n, more) := visitEach s path n rest
      (n, ⟨more.result, effect.trace ++ more.trace⟩)

end Node

end TreeSpec
