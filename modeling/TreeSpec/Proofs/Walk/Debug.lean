import TreeSpec.Proofs.Walk.Carrying
import TreeSpec.Validator

/-!
# Debugging shows in the log only

A walk for debugging differs from one without in the notices that are for debugging. If these are
dropped from its events, the walks are the same, with the same specs kept.
-/

namespace TreeSpec

set_option autoImplicit false

/-- All events but the notices for debugging. -/
def Event.essential : Event → List Event
  | .notice n => if n.level = .debug then [] else [.notice n]
  | e => [e]

theorem Event.errors_essential (events : List Event) :
    (events.flatMap Event.essential).filterMap Event.error? = events.filterMap Event.error? := by
  refine Event.filterMap_flatMap (fun e => ?_) events
  rcases e with c | n | e
  · rfl
  · simp only [essential]
    split <;> rfl
  · rfl

theorem Event.essential_essential (e : Event) :
    e.essential.flatMap Event.essential = e.essential := by
  cases e with
  | notice n => by_cases h : n.level = .debug <;> simp [essential, h]
  | call | error => rfl

def Setting.quiet (s : Setting) : Setting := { s with debug := false }

section Quiet

variable (s : Setting) (path : Path)

theorem Setting.essential_trace {n : Notice} (h : n.level = .debug) :
    (s.trace n).flatMap Event.essential = s.quiet.trace n := by
  unfold Setting.trace quiet
  split
  · simp [Event.essential, h]
  · rfl

theorem Setting.essential_report (e : ValidationError) :
    (s.report e).flatMap Event.essential = s.quiet.report e := by
  rw [report, report, List.flatMap_cons, s.essential_trace rfl]
  rfl

theorem Attempt.essential_events (a : Attempt) :
    (a.events s path).flatMap Event.essential = a.events s.quiet path := by
  have hcalls : (a.calls.map Event.call).flatMap Event.essential = a.calls.map Event.call := by
    rw [List.flatMap_map]
    exact List.map_eq_flatMap.symm
  unfold Attempt.events
  rw [List.flatMap_append, List.flatMap_append, hcalls, s.essential_trace rfl]
  split <;> rfl

theorem Setting.carries_quiet : s.Carries s.quiet id Event.essential where
  registry := rfl
  child _ _ := rfl
  broken _ := rfl
  sameText _ _ _ _ := rfl
  descending _ := s.essential_trace rfl
  trial path a := a.essential_events s path
  report _ _ _ _ _ := s.essential_report _

/-- A walk with debugging left off keeps the same specs and gives the same result and events. -/
theorem Node.visit_quiet (n : Node) (data : Value) :
    n.visit s.quiet path data =
      ((n.visit s path data).1, (n.visit s path data).2.retrace Event.essential) :=
  s.carries_quiet.visit path n data

end Quiet

namespace Validator

def quiet (v : Validator) : Validator := { v with debug := false }

theorem new_quiet (schema : Value) (debug : Bool) (r : Registry) :
    new schema false r = (new schema debug r).map quiet := by
  unfold new
  split
  · cases Node.ofValue (.mapping ‹_›) <;> rfl
  · rfl

/-- A check with debugging left off gives the same result with the same errors and kept specs. -/
theorem validate_quiet (v : Validator) (data : Value) :
    v.quiet.validate data =
      ((v.validate data).1.quiet, (v.validate data).2.retrace Event.essential) := by
  have hwalk : v.quiet.schema.visit v.quiet.setting [] data =
      ((v.schema.visit v.setting [] data).1,
        (v.schema.visit v.setting [] data).2.retrace Event.essential) :=
    Node.visit_quiet v.setting [] v.schema data
  have hfinished : ∀ (s : Setting) count, (s.trace (.finished count)).flatMap Event.essential =
      s.quiet.trace (.finished count) := fun s _ => s.essential_trace rfl
  simp only [validate, hwalk]
  cases he : (v.schema.visit v.setting [] data).2.result with
  | error e =>
    simp only [Effect.retrace, he]
    rfl
  | ok u =>
    simp only [Effect.retrace, he, Event.errors_essential, List.flatMap_append, hfinished]
    rfl

end Validator

end TreeSpec
