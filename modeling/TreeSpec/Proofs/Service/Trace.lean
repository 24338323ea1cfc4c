import TreeSpec.Proofs.Service.Warnings
import TreeSpec.Proofs.Walk.Trace

/-!
# What the log of a check tells

With debugging on, the log of a check that is completed explains its errors: each has its line, each
leaf with something to try has the lines of its trials, and the number of errors stands at the end.
A check that is not completed has no such end. The log explains the errors up to the point where it
was given up, and these are lost.
-/

namespace TreeSpec

set_option autoImplicit false

/-- The log of a check explains errors, those of nodes that were read. -/
structure Explains (r : Registry) (read : List Encounter) (log : List Notice)
    (errors : List ValidationError) :
    Prop where
  /-- There is a line of each error, and these are in order. -/
  failures : log.filter Notice.isFailure = errors.map .recorded
  messages : (log.filter Notice.isFailure).map Notice.message = errors.map fun error =>
    ("FAIL " : Text) ++ error.message
  /-- A leaf with something to try has the lines of its trials, of which the last one passed just if
  the leaf has no error. -/
  trials : ∀ e ∈ read, ∀ value clauses, e.Tests r value clauses → ∃ passed,
    Trialled e.path value clauses (log.filter (Notice.isTrialAt e.path)) passed ∧
      (passed = true ↔ ∀ error ∈ errors, error.path ≠ e.path)
  /-- Nothing else has such lines. -/
  silent : ∀ path, (∀ e ∈ read, e.path = path → ∀ value clauses, ¬ e.Tests r value clauses) →
    log.filter (Notice.isTrialAt path) = []

/-- Lines of errors and trials as they come from nodes with paths of their own explain the errors of
these. -/
theorem Encounter.explains {r : Registry} {read : List Encounter} {log : List Notice}
    {errors : List ValidationError}
    (hpaths : read.Pairwise fun e e' => e.path ≠ e'.path)
    (herrors : errors = read.filterMap fun e => e.node.fault? r e.path e.data)
    (hfailures : log.filter Notice.isFailure = errors.map .recorded)
    (htrials : ∀ path, log.filter (Notice.isTrialAt path) =
      (read.flatMap (lines r)).filter (Notice.isTrialAt path)) : Explains r read log errors := by
  refine ⟨hfailures, ?_, ?_, ?_⟩
  · rw [hfailures, List.map_map]
    rfl
  · intro e he value clauses htests
    refine ⟨(e.node.fault? r e.path e.data).isNone, ?_, ?_⟩
    · rw [htrials, filter_flatMap_lines hpaths he]
      exact htests.trialled
    · rw [herrors]
      exact isNone_fault?_iff hpaths he
  · intro path hnone
    rw [htrials]
    refine filter_flatMap_lines_of_ne fun e he => ?_
    rw [Classical.or_iff_not_imp_left, not_not]
    exact fun hpath => lines_of_not_tests (hnone e he hpath)

theorem Event.trials_lasting (events : List Event) :
    (events.flatMap Event.lasting).filterMap Event.trial? = events.filterMap Event.trial? := by
  refine Event.filterMap_flatMap (fun e => ?_) events
  rcases e with c | n | e
  · rfl
  · cases n <;> rfl
  · rfl

/-- The lines of the log that say that an error was recorded. -/
theorem Event.filter_isFailure (events : List Event) :
    (events.filterMap Event.notice?).filter Notice.isFailure =
    (events.filterMap Event.recorded?).map .recorded := by
  rw [List.filter_filterMap, List.map_filterMap]
  refine List.filterMap_congr fun e _ => ?_
  rcases e with c | n | e
  · rfl
  · cases n <;> rfl
  · rfl

theorem Event.filter_isTrialAt (path : Path) (events : List Event) :
    (events.filterMap Event.notice?).filter (Notice.isTrialAt path) =
      (events.filterMap Event.trial?).filter (Notice.isTrialAt path) := by
  rw [List.filter_filterMap, List.filter_filterMap]
  refine List.filterMap_congr fun e _ => ?_
  rcases e with c | n | e
  · rfl
  · cases n <;> rfl
  · rfl

namespace Validator

variable (v : Validator) (data : Value)

theorem echoed_validate (h : v.debug = true) : Event.Echoed (v.validate data).2.trace := by
  unfold Event.Echoed
  rw [v.filterMap_trace_validate data fun _ => rfl, v.filterMap_trace_validate data fun _ => rfl]
  exact Node.echoed_visit v.setting [] h v.schema data

/-- What the walk of a check writes. -/
def lines : List Notice := (v.schema.visit v.setting [] data).2.trace.filterMap Event.notice?

/-- A check that is completed writes the number of errors at the end. -/
theorem log_of_ok {b : Bool} (hdebug : v.debug = true) (h : (v.validate data).2.result = .ok b) :
    (v.validate data).2.trace.filterMap Event.notice? =
      v.lines data ++ [.finished (v.validate data).1.errors.length] := by
  have hend (count : Nat) : v.setting.trace (.finished count) = [.notice (.finished count)] :=
    if_pos hdebug
  unfold validate at h ⊢
  simp only at h ⊢
  split
  · next hwalk =>
    rw [hwalk] at h
    cases h
  · rw [List.filterMap_append]
    exact congrArg (fun events => v.lines data ++ events.filterMap Event.notice?) (hend _)

theorem log_of_error {e : Failure} (h : (v.validate data).2.result = .error e) :
    (v.validate data).2.trace.filterMap Event.notice? = v.lines data := by
  unfold validate at h ⊢
  simp only at h ⊢
  split
  · rfl
  · next hwalk =>
    rw [hwalk] at h
    cases h

theorem not_finished_lines (count : Nat) : .finished count ∉ v.lines data := by
  intro hmem
  obtain ⟨ev, hev, hnotice⟩ := List.mem_filterMap.mp hmem
  cases ev with
  | notice n =>
    obtain rfl : n = .finished count := Option.some.inj hnotice
    exact Node.not_finished_visit v.setting [] v.schema data count hev
  | call | error => cases hnotice

end Validator

namespace Service

/-- Whatever was done before, the log of a check with debugging on explains the errors of the nodes
before the first one that cannot be read. -/
theorem explains_read {schema : Value} {debug : Bool} {r : Registry} {v : Validator}
    (hv : Validator.new schema debug r = .ok v) (others : Nat → Registry) (ops : List Operation)
    (data : Value) :
    let now := ((begin others v).after Validator.validate ops).validator
    now.debug = true →
    Explains now.registry ((v.schema.encounters [] data).takeWhile Encounter.isReadable)
      ((now.validate data).2.trace.filterMap Event.notice?)
        ((now.validate data).2.trace.filterMap Event.error?) := by
  intro now hdebug
  have hdistinct : v.schema.Distinct := Node.distinct_ofValue (Validator.new_ok hv).1
  refine Encounter.explains ?_ (errors_validate_read hv others ops data) ?_ fun path => ?_
  · exact (hdistinct.pairwise_encounters [] data).sublist (List.takeWhile_sublist _)
  · rw [Event.filter_isFailure, ← now.echoed_validate data hdebug]
  · -- What is remembered of the specs makes other warnings, but the trials are those of a walk
    -- without memory.
    have hinspect := Validator.filterMap_trace_inspect (f := Event.trial?) (fun _ => rfl)
      { now with schema := v.schema } data
    rw [inspect_after hv others ops data, Node.trials_inspect _ _ hdebug] at hinspect
    rw [Event.filter_isTrialAt, ← Event.trials_lasting]
    exact congrArg (List.filter _) hinspect

/-- A check that comes to something that cannot be read fails and leaves the errors of the one
before. Its log explains what was found up to there, and no number of errors stands in it. -/
theorem log_of_not_readable {schema : Value} {debug : Bool} {r : Registry} {v : Validator}
    (hv : Validator.new schema debug r = .ok v) (others : Nat → Registry) (ops : List Operation)
    (data : Value) :
    let now := ((begin others v).after Validator.validate ops).validator
    let check := now.validate data
    let log := check.2.trace.filterMap Event.notice?
    let encounters := v.schema.encounters [] data
    now.debug = true → encounters.all Encounter.isReadable = false →
      check.2.result = .error .integerTooLong ∧ check.1.errors = now.errors ∧
      (∀ count, .finished count ∉ log) ∧
        Explains now.registry (encounters.takeWhile Encounter.isReadable) log
          (check.2.trace.filterMap Event.error?) := by
  intro now check log encounters hdebug h
  have hinspect := Validator.inspect_of_not_readable (v := { now with schema := v.schema }) h
  rw [inspect_after hv others ops data] at hinspect
  obtain ⟨hresult, herrors⟩ :
      check.2.result = .error .integerTooLong ∧ check.1.errors = now.errors := hinspect
  have hlog : log = now.lines data := now.log_of_error data hresult
  refine ⟨hresult, herrors, ?_, explains_read hv others ops data hdebug⟩
  rw [hlog]
  exact now.not_finished_lines data

/-- Whatever was done before, the log of a check with debugging on explains the errors that the
check leaves, and their number stands at its end and nowhere else. If something that is come to
cannot be read, the check fails and leaves the errors of the one before, and the log explains what
was found up to there and has no such end. -/
theorem log_explains_errors {schema : Value} {debug : Bool} {r : Registry} {v : Validator}
    (hv : Validator.new schema debug r = .ok v) (others : Nat → Registry) (ops : List Operation)
    (data : Value) :
    let now := ((begin others v).after Validator.validate ops).validator
    let check := now.validate data
    let log := check.2.trace.filterMap Event.notice?
    let encounters := v.schema.encounters [] data
    now.debug = true →
      (encounters.all Encounter.isReadable = true →
        check.2.result = .ok check.1.errors.isEmpty ∧
        Explains now.registry encounters log check.1.errors ∧
          ∃ lines, log = lines ++ [.finished check.1.errors.length] ∧
          ∀ count, .finished count ∉ lines) ∧
      (encounters.all Encounter.isReadable = false →
        check.2.result = .error .integerTooLong ∧ check.1.errors = now.errors ∧
        (∀ count, .finished count ∉ log) ∧
          Explains now.registry (encounters.takeWhile Encounter.isReadable) log
            (check.2.trace.filterMap Event.error?)) := by
  intro now check log encounters hdebug
  refine ⟨fun h => ?_, log_of_not_readable hv others ops data hdebug⟩
  have hinspect := Validator.inspect_of_readable (v := { now with schema := v.schema }) h
  rw [inspect_after hv others ops data] at hinspect
  obtain ⟨hresult, herrors⟩ : check.2.result = .ok (v.schema.faults now.registry [] data).isEmpty ∧
      check.1.errors = v.schema.faults now.registry [] data := hinspect
  -- The walk does not stop early, so the errors that were recorded are those that the check leaves.
  have hall : encounters.takeWhile Encounter.isReadable = encounters :=
    List.takeWhile_eq_self_iff.mpr (List.all_eq_true.mp h)
  have hreported : check.2.trace.filterMap Event.error? = check.1.errors := by
    rw [errors_validate_read hv others ops data, herrors, Node.faults_eq_filterMap]
    exact congrArg (List.filterMap _) hall
  have hexplains : Explains now.registry (encounters.takeWhile Encounter.isReadable) log
      (check.2.trace.filterMap Event.error?) := explains_read hv others ops data hdebug
  rw [hall, hreported] at hexplains
  rw [← herrors] at hresult
  exact ⟨hresult, hexplains, now.lines data, now.log_of_ok data hdebug hresult,
    now.not_finished_lines data⟩

/-- A type accepts the value at the one leaf, after another one that does not. At the other leaf
none does. -/
theorem log_of_two_leaves :
    let r := Registry.new 0 (Builtin.types World.empty.probes) []
    let schema : Value := .mapping [(.text "a", .scalar (.text "int|word|line")),
      (.text "b", .mapping [(.text "c", .scalar (.text "ipv4|noport(1)"))])]
    let data : Value :=
      .mapping [(.text "b", .mapping [(.text "c", .scalar (.text "80"))]),
        (.text "a", .scalar (.text "x"))]
    ∃ v, Validator.new schema false r = .ok v ∧
      let now :=
        ((begin (fun n => .new n [] []) v).after Validator.validate [.setDebug true]).validator
      let log := (now.validate data).2.trace.filterMap Event.notice?
      now.debug = true ∧ (v.schema.encounters [] data).all Encounter.isReadable = true ∧
        log.filter Notice.isFailure = [.recorded ⟨.leaf, ["b", "c"], "ipv4|noport(1)", "80", ""⟩] ∧
        (∃ lines, log = lines ++ [.finished 1]) ∧
        Trialled ["a"] "x" (Expression.compile r "int|word|line").clauses
        (log.filter (Notice.isTrialAt ["a"])) true := by
  intro r schema data
  let v : Validator :=
    ⟨.branch [("a", .leaf (.new "int|word|line")),
      ("b", .branch [("c", .leaf (.new "ipv4|noport(1)"))])], r, false, []⟩
  have hv : Validator.new schema false r = .ok v := rfl
  refine ⟨v, hv, rfl, by decide +kernel, ?_⟩
  obtain ⟨hcompleted, -⟩ := log_explains_errors hv (fun n => .new n [] []) [.setDebug true] data rfl
  obtain ⟨-, hexplains, lines, hlines, -⟩ := hcompleted (by decide +kernel)
  have herrors : (((begin (fun n => .new n [] []) v).after Validator.validate
      [.setDebug true]).validator.validate data).1.errors =
      [⟨.leaf, ["b", "c"], "ipv4|noport(1)", "80", ""⟩] := by decide +kernel
  rw [herrors] at hexplains hlines
  refine ⟨hexplains.failures, ⟨lines, hlines⟩, ?_⟩
  have hmem : (⟨["a"], .leaf (.new "int|word|line"), .scalar (.text "x")⟩ : Encounter) ∈
      v.schema.encounters [] data :=
    List.mem_cons_of_mem _ List.mem_cons_self
  obtain ⟨passed, htrialled, hpassed⟩ :=
    hexplains.trials _ hmem _ _ (.intro rfl (by decide +kernel))
  rw [hpassed.mpr (by decide +kernel)] at htrialled
  exact htrialled

/-- A line says that an error was recorded, but the check fails at a key after it and leaves no
errors. -/
theorem error_logged_not_left :
    let schema : Value := .mapping [(.text "a", .scalar (.text "int")), (.text "b", .mapping [])]
    let long : Scalar × Value := (.int (Nat.pow 10 maxDigits), .scalar (.text "y"))
    let data : Value := .mapping [(.text "a", .scalar (.text "x")), (.text "b", .mapping [long])]
    ∃ v, Validator.new schema true (.new 0 (Builtin.types World.empty.probes) []) = .ok v ∧
      let check := v.validate data
      let log := check.2.trace.filterMap Event.notice?
      log.filter Notice.isFailure = [.recorded ⟨.leaf, ["a"], "int", "x", ""⟩] ∧
        (∀ count, .finished count ∉ log) ∧ check.1.errors = [] := by
  intro schema long data
  let v : Validator :=
    ⟨.branch [("a", .leaf (.new "int")), ("b", .branch [])],
      .new 0 (Builtin.types World.empty.probes) [], true, []⟩
  have hv : Validator.new schema true (.new 0 (Builtin.types World.empty.probes) []) = .ok v := rfl
  have hlong : long.1.isTooLong = true := Scalar.isTooLong_natCast (Nat.le_refl _)
  have hencounters : v.schema.encounters [] data =
      [⟨[], v.schema, data⟩, ⟨["a"], .leaf (.new "int"), .scalar (.text "x")⟩,
      ⟨["b"], .branch [], .mapping [long]⟩] := rfl
  have hkey : Encounter.isReadable ⟨["b"], .branch [], .mapping [long]⟩ = false := by
    simp only [Encounter.isReadable, List.all_cons, hlong, Bool.not_true, Bool.false_and]
  have hread : (v.schema.encounters [] data).takeWhile Encounter.isReadable =
      [⟨[], v.schema, data⟩, ⟨["a"], .leaf (.new "int"), .scalar (.text "x")⟩] := by
    rw [hencounters, List.takeWhile_cons_of_pos rfl, List.takeWhile_cons_of_pos rfl,
      List.takeWhile_cons_of_neg (ne_true_of_eq_false hkey)]
  have hnot : (v.schema.encounters [] data).all Encounter.isReadable = false :=
    List.all_eq_false.mpr ⟨_, List.mem_of_getLast? rfl, ne_true_of_eq_false hkey⟩
  have hreported :
      (v.validate data).2.trace.filterMap Event.error? = [⟨.leaf, ["a"], "int", "x", ""⟩] := by
    refine (errors_validate_read hv (fun n => .new n [] []) [] data).trans ?_
    rw [hread]
    decide +kernel
  obtain ⟨-, herrors, hend, hexplains⟩ :=
    log_of_not_readable hv (fun n => .new n [] []) [] data rfl hnot
  exact ⟨v, hv, hexplains.failures.trans (congrArg (List.map Notice.recorded) hreported),
    hend, herrors⟩

end Service

end TreeSpec
