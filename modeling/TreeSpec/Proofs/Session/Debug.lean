import TreeSpec.Config
import TreeSpec.Proofs.Session.Requests
import TreeSpec.Proofs.Walk.Debug

/-!
# Debugging observes only

Debugging may be on for a validator from its start, by choice or by the setting of the environment,
and it may be switched on and off later. Whenever it is on, a session goes the way it goes with
debugging left off, and its log is the same but for the notices for debugging.
-/

namespace TreeSpec

set_option autoImplicit false

/-- The action with debugging left off, if it does anything else. -/
def Action.quiet? : Action → Option Action
  | .setDebug _ _ => none
  | .newValidator id schema _ builtin => some (.newValidator id schema false builtin)
  | a => some a

def Request.quiet? : Request → Option Request
  | .act a => a.quiet?.map .act
  | q => some q

theorem Request.quiet?_idem {q q' : Request} (h : q.quiet? = some q') : q'.quiet? = some q' := by
  cases q with
  | act a =>
    cases a with
    | setDebug => cases h
    | newRegistry | register | registerShared | clearShared | newValidator | registerFor
    | replaceRegistry | validate =>
      cases h
      rfl
  | lookup | lookupNegated | resolve | compile | errors =>
    cases h
    rfl

namespace Answer

/-- The answer without notices for debugging. -/
def essential : Answer → Answer
  | .effect e => .effect (e.retrace Event.essential)
  | a => a

theorem essential_essential (a : Answer) : a.essential.essential = a.essential := by
  cases a with
  | effect e =>
    refine congrArg (fun t => Answer.effect ⟨e.result, t⟩) (List.flatMap_assoc.trans ?_)
    exact List.flatMap_congr fun event _ => event.essential_essential
  | matcher | inversion | resolution | expression | errors => rfl

def notices : Answer → List Notice
  | .effect e => e.trace.filterMap Event.notice?
  | _ => []

theorem notices_essential (a : Answer) :
    a.essential.notices = a.notices.filter (·.level ≠ .debug) := by
  cases a with
  | effect e =>
    simp only [essential, notices, Effect.retrace]
    induction e.trace with
    | nil => rfl
    | cons e rest ih =>
      rw [List.flatMap_cons, List.filterMap_append, ih]
      cases e with
      | notice n => by_cases h : n.level = .debug <;> simp [Event.essential, Event.notice?, h]
      | call | error => rfl
  | matcher | inversion | resolution | expression | errors => rfl

end Answer

/-- What is seen when a request is answered, and can be asked for then, but for notices for
debugging. -/
structure Observation where
  answer : Answer
  verdict : Option (Except Failure Bool)
  errors : Text → Option (List ValidationError)
  message : Text → Option Text
  version : Owner → Option Nat

namespace Session

/-- The session in which debugging is off for all validators. -/
def quiet (s : Session) : Session :=
  { s with validators := s.validators.mapValues Validator.quiet }

/-- Debugging is on for no validator. -/
def Silent (s : Session) : Prop := ∀ e ∈ s.validators, e.2.debug = false

variable {s : Session} {q q' : Request}

theorem Silent.quiet_eq (h : s.Silent) : s.quiet = s := by
  have hmap : s.validators.mapValues Validator.quiet = s.validators := by
    refine (List.map_congr_left fun e he => ?_).trans (List.map_id _)
    have hsame : e.2.quiet = e.2 := by
      rw [Validator.quiet, ← h e he]
    rw [hsame]
    rfl
  rw [quiet, hmap]

theorem get?_validators_quiet (s : Session) (id : Text) :
    s.quiet.validators.get? id = (s.validators.get? id).map Validator.quiet :=
  Dictionary.get?_mapValues _ _ id

theorem quiet_putValidator (s : Session) (id : Text) (v : Validator) :
    (putValidator id v s).quiet = putValidator id v.quiet s.quiet := by
  rw [quiet, putValidator, Dictionary.mapValues_put]
  rfl

theorem quiet_changeValidator (s : Session) (id : Text) {f : Validator → Validator}
    (h : ∀ v, (f v).quiet = f v.quiet) :
    (s.changeValidator id f).quiet = s.quiet.changeValidator id f := by
  unfold changeValidator
  rw [get?_validators_quiet]
  cases s.validators.get? id with
  | none => rfl
  | some v => exact (s.quiet_putValidator id (f v)).trans (by rw [h]; rfl)

theorem registryOf_quiet (s : Session) (o : Owner) : s.quiet.registryOf o = s.registryOf o := by
  cases o with
  | registry id => rfl
  | validator id =>
    rw [registryOf, get?_validators_quiet, Option.map_map]
    rfl

/-- An action has the same effect with debugging left off, and leads to the same session. -/
theorem perform_quiet {a a' : Action} (h : a.quiet? = some a') :
    s.quiet.perform a' =
      ((s.perform a).1.quiet, (s.perform a).2.retrace Event.essential) := by
  cases a with
  | newRegistry | clearShared =>
    cases h
    rfl
  | register id name source description =>
    cases h
    have hregistries : s.quiet.registries = s.registries := rfl
    simp only [perform_register, hregistries]
    cases s.registries.get? id <;> cases Matcher.ofSource source description <;> rfl
  | registerShared name source description =>
    cases h
    simp only [perform_registerShared]
    cases Matcher.ofSource source description <;> rfl
  | newValidator id schema debug builtin =>
    cases h
    have hnew := Validator.new_quiet schema debug (s.makeRegistry builtin)
    have hmake : s.quiet.makeRegistry builtin = s.makeRegistry builtin := rfl
    simp only [perform_newValidator, hmake, hnew]
    cases Validator.new schema debug (s.makeRegistry builtin) with
    | error e => rfl
    | ok v => exact congrArg (·, pure ()) (quiet_putValidator s.used id v).symm
  | registerFor id name source description =>
    cases h
    simp only [perform_registerFor, get?_validators_quiet]
    cases s.validators.get? id with
    | none => rfl
    | some v =>
      cases Matcher.ofSource source description with
      | error e => rfl
      | ok m =>
        let registered : Validator := { v with registry := v.registry.insert name m }
        exact congrArg (·, pure ()) (quiet_putValidator s id registered).symm
  | replaceRegistry id builtin =>
    cases h
    let use := fun v : Validator => { v with registry := s.makeRegistry builtin }
    have huse : ∀ v, (use v).quiet = use v.quiet := fun _ => rfl
    exact congrArg (·, pure ()) (quiet_changeValidator s.used id huse).symm
  | setDebug id enabled => cases h
  | validate id data =>
    cases h
    simp only [perform, get?_validators_quiet]
    cases s.validators.get? id with
    | none => rfl
    | some v =>
      simp only [Option.map_some, v.validate_quiet, quiet_putValidator, seqRight_eq_bind,
        Effect.retrace_bind, Effect.retrace_pure]

/-- A request leads to the same session and the same answer with debugging left off. -/
theorem answer_quiet (h : q.quiet? = some q') :
    s.quiet.answer q' = ((s.answer q).1.quiet, (s.answer q).2.essential) := by
  cases q with
  | act a =>
    obtain ⟨a', ha, rfl⟩ := Option.map_eq_some_iff.mp h
    simp only [answer, perform_quiet ha]
    rfl
  | lookup | lookupNegated | resolve | compile =>
    cases h
    simp only [answer, registryOf_quiet]
    rfl
  | errors id =>
    cases h
    simp only [answer, get?_validators_quiet, Option.map_map]
    rfl

/-- Switching debugging does nothing else. -/
theorem answer_of_quiet?_eq_none (h : q.quiet? = none) :
    (s.answer q).1.quiet = s.quiet ∧ (s.answer q).2.notices = [] := by
  cases q with
  | act a =>
    cases a with
    | setDebug id enabled =>
      refine ⟨?_, rfl⟩
      simp only [answer, perform, changeValidator]
      cases hv : s.validators.get? id with
      | none => rfl
      | some v =>
        have hquiet : s.quiet.validators.get? id = some v.quiet := by
          rw [get?_validators_quiet, hv, Option.map_some]
        exact (s.quiet_putValidator id _).trans (s.quiet.putValidator_of_get? id hquiet)
    | newRegistry | register | registerShared | clearShared | newValidator | registerFor
    | replaceRegistry | validate => cases h
  | lookup | lookupNegated | resolve | compile | errors => cases h

/-- The result of the check that a request is. -/
def verdict (s : Session) : Request → Option (Except Failure Bool)
  | .act (.validate id data) => (s.validators.get? id).map fun v => (v.validate data).2.result
  | _ => none

def observe (s : Session) (q : Request) : Observation where
  answer := (s.answer q).2.essential
  verdict := s.verdict q
  errors id := ((s.answer q).1.validators.get? id).map Validator.errors
  message id := ((s.answer q).1.validators.get? id).map Validator.lastMessage
  version o := ((s.answer q).1.registryOf o).map Registry.version

/-- What is observed at the requests that do not merely switch debugging. -/
def observations (s : Session) : List Request → List Observation
  | [] => []
  | q :: qs => (q.quiet?.map fun _ => s.observe q).toList ++ observations (s.answer q).1 qs

/-- The notices of all requests. -/
def log (s : Session) : List Request → List Notice
  | [] => []
  | q :: qs => (s.answer q).2.notices ++ log (s.answer q).1 qs

/-- Debugging is on for no validator at any time. -/
def NeverDebugs (s : Session) : List Request → Prop
  | [] => s.Silent
  | q :: qs => s.Silent ∧ NeverDebugs (s.answer q).1 qs

instance (s : Session) : Decidable s.Silent :=
  inferInstanceAs (Decidable (∀ e ∈ s.validators, e.2.debug = false))

instance decidableNeverDebugs : ∀ (s : Session) (qs : List Request), Decidable (s.NeverDebugs qs)
  | s, [] => inferInstanceAs (Decidable s.Silent)
  | s, q :: qs =>
    have := decidableNeverDebugs (s.answer q).1 qs
    inferInstanceAs (Decidable (s.Silent ∧ (s.answer q).1.NeverDebugs qs))

theorem verdict_quiet (h : q.quiet? = some q') : s.quiet.verdict q' = s.verdict q := by
  cases q with
  | act a =>
    cases a with
    | validate id data =>
      cases h
      simp only [verdict, get?_validators_quiet, Option.map_map, Function.comp_def,
        Validator.validate_quiet]
      rfl
    | setDebug => cases h
    | newRegistry | register | registerShared | clearShared | newValidator | registerFor
    | replaceRegistry =>
      cases h
      rfl
  | lookup | lookupNegated | resolve | compile | errors =>
    cases h
    rfl

theorem observe_quiet (h : q.quiet? = some q') : s.quiet.observe q' = s.observe q := by
  simp only [observe, answer_quiet h, verdict_quiet h, get?_validators_quiet, Option.map_map,
    registryOf_quiet, Answer.essential_essential]
  rfl

theorem observations_quiet (s : Session) (qs : List Request) :
    s.quiet.observations (qs.filterMap Request.quiet?) = s.observations qs := by
  induction qs generalizing s with
  | nil => rfl
  | cons q qs ih =>
    cases hq : q.quiet? with
    | none =>
      rw [List.filterMap_cons_none hq, ← (answer_of_quiet?_eq_none hq).1]
      simp only [observations, ih, hq]
      rfl
    | some q' =>
      rw [List.filterMap_cons_some hq]
      simp only [observations, answer_quiet hq, ih, hq, observe_quiet hq, Request.quiet?_idem hq,
        Option.map_some]

theorem log_quiet (s : Session) (qs : List Request) :
    s.quiet.log (qs.filterMap Request.quiet?) = (s.log qs).filter (·.level ≠ .debug) := by
  induction qs generalizing s with
  | nil => rfl
  | cons q qs ih =>
    rw [log, List.filter_append]
    cases hq : q.quiet? with
    | none =>
      obtain ⟨hquiet, hnotices⟩ := answer_of_quiet?_eq_none (s := s) hq
      rw [List.filterMap_cons_none hq, ← hquiet, ih, hnotices]
      rfl
    | some q' =>
      rw [List.filterMap_cons_some hq, log, answer_quiet hq, ih, Answer.notices_essential]

/-- Only checks give notices. -/
theorem notices_answer_of_no_check (h : ∀ id data, q ≠ .act (.validate id data)) :
    (s.answer q).2.notices = [] := by
  have htrace := trace_answer_of_no_check (s := s) h
  cases ha : (s.answer q).2 with
  | effect e =>
    rw [ha] at htrace
    exact congrArg (List.filterMap Event.notice?) htrace
  | matcher | inversion | resolution | expression | errors => rfl

/-- Where debugging is on for no validator, there are no notices for it. -/
theorem Silent.notices_answer (h : s.Silent) (q : Request) :
    (s.answer q).2.notices.filter (·.level ≠ .debug) = (s.answer q).2.notices := by
  by_cases hcheck : ∃ id data, q = .act (.validate id data)
  · obtain ⟨id, data, rfl⟩ := hcheck
    have hquiet := answer_quiet (s := s) (q := .act (.validate id data)) rfl
    rw [h.quiet_eq] at hquiet
    rw [← Answer.notices_essential]
    exact congrArg (fun a => a.2.notices) hquiet.symm
  · have hno : ∀ id data, q ≠ .act (.validate id data) := fun id data h => hcheck ⟨id, data, h⟩
    rw [notices_answer_of_no_check hno, List.filter_nil]

theorem log_of_neverDebugs {qs : List Request} (h : s.NeverDebugs qs) :
    (s.log qs).filter (·.level ≠ .debug) = s.log qs := by
  induction qs generalizing s with
  | nil => rfl
  | cons q qs ih => rw [log, List.filter_append, h.1.notices_answer, ih h.2]

end Session

/-- What is done with a session in an environment, whose setting new validators may follow. -/
inductive Order where
  | request (q : Request)
  | newByDefault (id : Text) (schema : Value) (builtin : Dictionary Matcher)
  | changeSetting (setting : Option Text)

namespace Order

/-- The requests that are made, the environment having the given setting at first. -/
def requests (setting : Option Text) : List Order → List Request
  | [] => []
  | .request q :: os => q :: requests setting os
  | .newByDefault id schema builtin :: os =>
    .act (.newValidator id schema (Config.ofSetting setting).debug builtin) :: requests setting os
  | .changeSetting other :: os => requests other os

/-- The request that an order stands for with debugging left off, if it does anything else. -/
def quiet? : Order → Option Request
  | .request q => q.quiet?
  | .newByDefault id schema builtin => some (.act (.newValidator id schema false builtin))
  | .changeSetting _ => none

theorem filterMap_requests (setting : Option Text) (os : List Order) :
    (requests setting os).filterMap Request.quiet? = os.filterMap quiet? := by
  induction os generalizing setting with
  | nil => rfl
  | cons o os ih =>
    cases o with
    | request q =>
      simp only [requests, List.filterMap_cons, ih]
      rfl
    | newByDefault id schema builtin => exact congrArg (List.cons _) (ih setting)
    | changeSetting other => exact ih other

end Order

namespace Session

/-- Two courses of a session that differ only in when debugging is on show the same, and if it is
never on in the one, its log is that of the other without the notices for debugging. -/
theorem debug_only_observes (s : Session) (setting setting' : Option Text) {os ps : List Order}
    (h : os.filterMap Order.quiet? = ps.filterMap Order.quiet?) :
    let qs := Order.requests setting os
    let rs := Order.requests setting' ps
    s.observations qs = s.observations rs ∧
      (s.NeverDebugs qs → s.log qs = (s.log rs).filter (·.level ≠ .debug)) := by
  intro qs rs
  have hsame : qs.filterMap Request.quiet? = rs.filterMap Request.quiet? := by
    rw [Order.filterMap_requests, Order.filterMap_requests, h]
  refine ⟨?_, fun hnever => ?_⟩
  · rw [← observations_quiet, hsame, observations_quiet]
  · rw [← log_of_neverDebugs hnever, ← log_quiet, hsame, log_quiet]

/-- A validator debugs by the setting of its environment until that is switched off. -/
theorem log_of_debugging_by_default :
    let schema : Value := .mapping [(.text "1", .scalar (.text "no_"))]
    let fails : Predicate := ⟨"fails", "", fun _ => .fail .embeddedNull⟩
    let data : Value := .mapping [(.int 1, .scalar .null), (.text "1", .scalar (.bool true))]
    let start : List Order := [.newByDefault "v" schema [],
      .request (.act (.registerFor "v" "_" (.predicate fails) "")),
      .request (.act (.validate "v" data))]
    let os := start ++ [.request (.act (.validate "v" data))]
    let ps := start ++ [.request (.act (.setDebug "v" false)), .request (.act (.validate "v" data))]
    let warnings : List Text := ["Keys 1 and '1' both render as '1' at <root>, keeping the last",
      "Type '_' failed while checking 'true', treating as no match: embedded null byte"]
    os.filterMap Order.quiet? = ps.filterMap Order.quiet? ∧
      empty.NeverDebugs (Order.requests none os) ∧
      (empty.log (Order.requests (some "1") ps)).length = 8 ∧
      ((empty.log (Order.requests (some "1") ps)).filter (·.level ≠ .debug)).map Notice.message =
        warnings ++ warnings := by
  intro schema fails data start os ps warnings
  have hsame : os.filterMap Order.quiet? = ps.filterMap Order.quiet? := rfl
  have hnever : empty.NeverDebugs (Order.requests none os) := by decide +kernel
  refine ⟨hsame, hnever, by decide +kernel, ?_⟩
  rw [← (debug_only_observes empty none (some "1") hsame).2 hnever]
  decide +kernel

end Session

end TreeSpec
