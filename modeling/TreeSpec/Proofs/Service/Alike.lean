import TreeSpec.Proofs.Data.Texts
import TreeSpec.Proofs.Service.Calls
import TreeSpec.Proofs.Service.Completion
import TreeSpec.Proofs.Walk.Edits

/-!
# Checks that cannot be told apart

A check answers by its result, by the errors that it leaves and by the calls that it makes. Data
that are alike for the schema get the same answers, so nothing comes of edits that no schema sees,
nor of the way in which keys and scalars are given, as long as their texts are the same.
-/

namespace TreeSpec

set_option autoImplicit false

namespace Validator

/-- The answers of a check: its result, the errors that it leaves, and the calls that it made. -/
def answers (check : Validator × Effect Event Bool) :
    Except Failure Bool × List ValidationError × List Call :=
  (check.2.result, check.1.errors, check.2.trace.filterMap Event.call?)

variable {v v' : Validator} {data data' : Value}

theorem answers_inspect (v : Validator) (data : Value) :
    let met := v.schema.encounters [] data
    let calls := (met.takeWhile Encounter.isReadable).flatMap (Encounter.calls v.registry)
    let faults := v.schema.faults v.registry [] data
    answers (v.inspect data) =
      if met.all Encounter.isReadable then (.ok faults.isEmpty, faults, calls)
      else (.error .integerTooLong, v.errors, calls) := by
  intro met calls faults
  cases h : met.all Encounter.isReadable with
  | true =>
    obtain ⟨hresult, herrors⟩ := inspect_of_readable h
    rw [if_pos rfl, answers, hresult, herrors, calls_inspect]
  | false =>
    obtain ⟨hresult, herrors⟩ := inspect_of_not_readable h
    rw [if_neg Bool.false_ne_true, answers, hresult, herrors, calls_inspect]

theorem answers_inspect_of_alike (h : v.schema.Alike data data') :
    answers (v.inspect data') = answers (v.inspect data) := by
  rw [answers_inspect, answers_inspect, h.isReadable, h.faults, h.calls]

/-- The answers to data that can be read depend on the schema and the registry only. -/
theorem answers_inspect_congr (hschema : v'.schema = v.schema)
    (hregistry : v'.registry = v.registry)
    (h : (v.schema.encounters [] data).all Encounter.isReadable = true) :
    answers (v'.inspect data) = answers (v.inspect data) := by
  rw [answers_inspect, answers_inspect, hschema, hregistry, if_pos h, if_pos h]

theorem new_mapping {entries : List (Scalar × Value)} {n : Node}
    (h : Node.ofValue (.mapping entries) = .ok n) (debug : Bool) (r : Registry) :
    new (.mapping entries) debug r = .ok ⟨n, r, debug, []⟩ := by
  rw [new, h]
  rfl

end Validator

/-- The operation has to do with types, on the registry of the validator or on another. -/
def Operation.isForTypes : Operation → Bool
  | register .. | registerOn .. | useRegistry _ => true
  | validate _ | setDebug _ => false

namespace Service

/-- At every point of a history, kept specs make no difference to the answers. -/
theorem answers_validate {schema : Value} {debug : Bool} {r : Registry} {v : Validator}
    (hv : Validator.new schema debug r = .ok v) (others : Nat → Registry) (ops : List Operation)
    (data : Value) :
    let now := ((begin others v).after Validator.validate ops).validator
    Validator.answers (now.validate data) =
      Validator.answers (({ now with schema := v.schema } : Validator).inspect data) := by
  intro now
  rw [inspect_after hv others ops data]
  exact Prod.ext rfl (Prod.ext rfl (Event.calls_lasting _).symm)

section Types

/-- The registries, and the one that the validator uses. -/
def types (s : Service) : (Nat → Registry) × Registry := (s.registries, s.validator.registry)

variable {s s' : Service}

theorem types_update (h : s.types = s'.types) (r : Registry) :
    (s.update r).types = (s'.update r).types := by
  obtain ⟨hregistries, hregistry⟩ := Prod.mk.inj h
  simp only [types, update, hregistries, hregistry]
  split <;> simp [hregistry]

theorem types_perform (h : s.types = s'.types) {op : Operation} (hop : op.isForTypes = true) :
    (s.perform Validator.validate op).1.types = (s'.perform Validator.validate op).1.types := by
  obtain ⟨hregistries, hregistry⟩ := Prod.mk.inj h
  cases op with
  | validate data => cases hop
  | setDebug enabled => cases hop
  | register name source description =>
    rw [perform_register, perform_register, hregistry]
    cases Matcher.ofSource source description with
    | error e => exact types_update h _
    | ok m => exact types_update h _
  | registerOn ident name source description =>
    rw [perform_registerOn, perform_registerOn, hregistries]
    cases Matcher.ofSource source description with
    | error e => exact types_update h _
    | ok m => exact types_update h _
  | useRegistry ident =>
    simp only [perform, types, hregistries]

theorem types_perform_of_not (s : Service) {op : Operation} (hop : op.isForTypes = false) :
    (s.perform Validator.validate op).1.types = s.types := by
  cases op with
  | validate data => exact Prod.ext rfl (Validator.validate_registry s.validator data)
  | setDebug enabled => rfl
  | register | registerOn | useRegistry => cases hop

theorem types_after (h : s.types = s'.types) (ops : List Operation) :
    (s.after Validator.validate ops).types =
      (s'.after Validator.validate (ops.filter Operation.isForTypes)).types := by
  induction ops generalizing s s' with
  | nil => exact h
  | cons op ops ih =>
    cases hop : op.isForTypes with
    | true =>
      rw [List.filter_cons_of_pos hop]
      exact ih (types_perform h hop)
    | false =>
      rw [List.filter_cons_of_neg (by simp [hop])]
      exact ih ((types_perform_of_not s hop).trans h)

/-- The types at any point of a history are the work of the operations that have to do with
types. -/
theorem types_after_congr (h : s.types = s'.types) {ops ops' : List Operation}
    (hops : ops.filter Operation.isForTypes = ops'.filter Operation.isForTypes) :
    (s.after Validator.validate ops).types = (s'.after Validator.validate ops').types := by
  rw [types_after h, hops]
  exact (types_after rfl ops').symm

end Types

/-- At every point of a history, data that come from each other by edits at mappings that the schema
comes to get the same answers: the same result or failure, the same errors, and the same calls. -/
theorem answers_of_edits {schema : Value} {debug : Bool} {r : Registry} {v : Validator}
    (hv : Validator.new schema debug r = .ok v) (others : Nat → Registry) (ops : List Operation)
    {data data' : Value} (h : Relation.EqvGen v.schema.Edit data data') :
    let now := ((begin others v).after Validator.validate ops).validator
    Validator.answers (now.validate data') = Validator.answers (now.validate data) := by
  intro now
  have hdistinct := Node.distinct_ofValue (Validator.new_ok hv).1
  rw [answers_validate hv others ops data, answers_validate hv others ops data']
  exact Validator.answers_inspect_of_alike (Node.alike_of_edits hdistinct h)

/-- Entries go and come at the root and below, and the two keys that have the text of a name change
places with a mapping. -/
theorem answers_of_entries_moved_and_nulls :
    let schema : Value := .mapping [(.text "net", .mapping [(.text "port", .scalar (.text "_"))]),
      (.text "true", .scalar (.text "no_"))]
    let n : Node :=
      .branch [("net", .branch [("port", .leaf (.new "_"))]), ("true", .leaf (.new "no_"))]
    let v : Validator := ⟨n, .new 0 [] [], false, []⟩
    let port : Scalar × Value := (.text "port", .scalar (.int 80))
    let same : List (Scalar × Value) :=
      [(.text "true", .scalar (.text "a")), (.bool true, .scalar (.text "b"))]
    let data : Value := .mapping (same ++ [(.text "net", .mapping [port, (.text "old", .missing)])])
    let data' : Value :=
      .mapping ((.text "net", .mapping [port, (.null, .scalar .null)]) ::
        (.bool false, .missing) :: same)
    let always : Predicate := ⟨"always", "", fun _ => pure true⟩
    let ops : List Operation := [.register "_" (.predicate always) ""]
    let check :=
      ((begin (fun n => .new n [] []) v).after Validator.validate ops).validator.validate data'
    Validator.new schema false (.new 0 [] []) = .ok v ∧ Relation.EqvGen n.Edit data data' ∧
      check.1.errors = [⟨.leaf, ["true"], "no_", "b", ""⟩] ∧
      check.2.trace.filterMap Event.call? =
        [.predicate "always" ⟨"80", none, []⟩, .predicate "always" ⟨"b", none, []⟩] := by
  intro schema n v port same data data' always ops check
  have hv : Validator.new schema false (.new 0 [] []) = .ok v := rfl
  have hmoved : n.Edit data
      (.mapping ((.text "net", .mapping [port, (.text "old", .missing)]) :: same)) := by
    refine .order (List.perm_append_singleton _ _) fun key hkey => ?_
    simp only [Dictionary.keys, List.map_cons, List.map_nil, List.mem_cons, List.not_mem_nil,
      or_false] at hkey
    rcases hkey with rfl | rfl <;> rfl
  have hdropped : (Node.branch [("port", .leaf (.new "_"))]).Edit (.mapping [port])
      (.mapping [port, (.text "old", .missing)]) :=
    @Node.Edit.extra _ [port] [] (.text "old") "old" rfl (by decide) .missing
  have hadded : (Node.branch [("port", .leaf (.new "_"))]).Edit (.mapping [port])
      (.mapping [port, (.null, .scalar .null)]) := by
    refine @Node.Edit.null _ [port] [] .null "None" rfl fun e he => ?_
    obtain rfl := List.mem_singleton.mp he
    exact fun h => absurd (Except.ok.inj h) (by decide)
  have hother : n.Edit
      (.mapping ((.text "net", .mapping [port, (.null, .scalar .null)]) :: same)) data' :=
    @Node.Edit.extra _ [(.text "net", .mapping [port, (.null, .scalar .null)])] same (.bool false)
      "false" rfl (by decide) .missing
  have hbelow : ∀ {value value' : Value},
      (Node.branch [("port", .leaf (.new "_"))]).Edit value value' →
      n.Edit (.mapping ((.text "net", value) :: same))
      (.mapping ((.text "net", value') :: same)) := by
    intro value value' hedit
    refine @Node.Edit.within _ [] same (.text "net") "net" _ value value' rfl
      List.mem_cons_self ?_ hedit
    intro e he h
    simp only [same, List.mem_cons, List.not_mem_nil, or_false] at he
    rcases he with rfl | rfl <;> exact absurd (Except.ok.inj h) (by decide)
  have hedits : Relation.EqvGen n.Edit data data' := by
    apply Relation.EqvGen.trans _ _ _ (.rel _ _ hmoved)
    apply Relation.EqvGen.trans _ _ _ (.symm _ _ (.rel _ _ (hbelow hdropped)))
    exact .trans _ _ _ (.rel _ _ (hbelow hadded)) (.rel _ _ hother)
  have hanswers := answers_of_edits hv (fun n => .new n [] []) ops hedits
  refine ⟨hv, hedits, ?_, ?_⟩
  · refine (congrArg (·.2.1) hanswers).trans ?_
    decide +kernel
  · refine (congrArg (·.2.2) hanswers).trans ?_
    decide +kernel

/-- A schema and the schema in texts make validators that answer to data and to the data in texts
alike, after any two histories with the same registrations, and what is in texts stays as it is. -/
theorem answers_in_texts {entries : List (Scalar × Value)} {schema' data data' : Value}
    (hs : (Value.mapping entries).inTexts (.text "None") = .ok schema')
    (hd : data.inTexts .null = .ok data') (debug debug' : Bool) (r : Registry)
    (others : Nat → Registry) {ops ops' : List Operation}
    (hops : ops'.filter Operation.isForTypes = ops.filter Operation.isForTypes) :
    (∃ v v', Validator.new (.mapping entries) debug r = .ok v ∧
      Validator.new schema' debug' r = .ok v' ∧
      let now := ((begin others v).after Validator.validate ops).validator
      let now' := ((begin others v').after Validator.validate ops').validator
      Validator.answers (now'.validate data') = Validator.answers (now.validate data)) ∧
    schema'.inTexts (.text "None") = .ok schema' ∧ data'.inTexts .null = .ok data' := by
  refine ⟨?_, Value.inTexts_of_inTexts rfl hs, Value.inTexts_of_inTexts rfl hd⟩
  obtain ⟨n, hn, hn'⟩ := Node.ofValue_inTexts hs
  obtain ⟨found, -, rfl⟩ := ok_of_map hs
  have hv := Validator.new_mapping hn debug r
  have hv' := Validator.new_mapping hn' debug' r
  refine ⟨_, _, hv, hv', ?_⟩
  intro now now'
  have hbegin : (begin others ⟨n, r, debug', []⟩).types = (begin others ⟨n, r, debug, []⟩).types :=
    rfl
  have hregistry : now'.registry = now.registry :=
    congrArg Prod.snd (types_after_congr hbegin hops)
  have hreadable := n.isReadable_of_renderable [] (Value.renderable_of_inTexts hd)
  rw [answers_validate hv others ops data, answers_validate hv' others ops' data']
  exact (Validator.answers_inspect_of_alike (Node.alike_inTexts hd n)).trans
    (Validator.answers_inspect_congr rfl hregistry hreadable)

/-- Two keys have one text in the schema and in the data, a null is a spec, and the validators have
other histories. -/
theorem answers_of_keys_with_one_text :
    let entries : List (Scalar × Value) := [(.text "true", .scalar (.text "|")),
      (.null, .scalar .null), (.bool true, .scalar (.bool false))]
    let schema' : Value := .mapping [(.text "true", .scalar (.text "false")),
      (.text "None", .scalar (.text "None"))]
    let day : Scalar := .foreign ⟨"date", "2020-02-29", "datetime.date(2020, 2, 29)"⟩
    let data : Value := .mapping [(.bool true, .scalar (.bool true)), (.null, .scalar .null),
      (.text "true", .scalar day)]
    let data' : Value := .mapping [(.text "true", .scalar (.text "2020-02-29")),
      (.text "None", .scalar .null)]
    let always : Predicate := ⟨"always", "", fun _ => pure true⟩
    let ops : List Operation := [.register "false" (.predicate always) ""]
    let ops' : List Operation := [.setDebug true] ++ ops ++ [.validate data]
    (Value.mapping entries).inTexts (.text "None") = .ok schema' ∧ data.inTexts .null = .ok data' ∧
      ∃ v', Validator.new schema' false (.new 0 [] []) = .ok v' ∧
        let now' := ((begin (fun n => .new n [] []) v').after Validator.validate ops').validator
        let check := now'.validate data'
        check.1.errors.map (·.path) = [(["None"] : Path)] ∧
        check.2.trace.filterMap Event.call? = [.predicate "always" ⟨"2020-02-29", none, []⟩] := by
  intro entries schema' day data data' always ops ops'
  have hs : (Value.mapping entries).inTexts (.text "None") = .ok schema' := rfl
  have hd : data.inTexts .null = .ok data' := rfl
  have hops : ops'.filter Operation.isForTypes = ops.filter Operation.isForTypes := rfl
  obtain ⟨⟨v, v', hv, hv', hanswers⟩, -⟩ :=
    answers_in_texts hs hd false false (.new 0 [] []) (fun n => .new n [] []) hops
  cases hv
  refine ⟨hs, hd, v', hv', ?_, ?_⟩
  · refine (congrArg (·.2.1.map (·.path)) hanswers).trans ?_
    decide +kernel
  · refine (congrArg (·.2.2) hanswers).trans ?_
    decide +kernel

end Service

end TreeSpec
