import TreeSpec.Proofs.Service.Completion
import TreeSpec.Proofs.Walk.Keeping

/-!
# Warnings of broken specs

From the checks before and the data that they came to it can be told for which state of which
registry a leaf keeps its spec. So it can be told of which broken specs a check warns. What it
reports of them does not depend on that.
-/

namespace TreeSpec

set_option autoImplicit false

namespace Service

/-- The state of the registry, if an operation is a check that comes to the node at a path. -/
def reaching (path : Path) (s : Service) : Operation → List (Nat × Nat)
  | .validate data => (s.validator.schema.reachedWith? s.validator.registry path data).toList
  | _ => []

/-- The states of the registry with which the node at a path was reached, in the order of the
checks. -/
def reachings (path : Path) (s : Service) : List Operation → List (Nat × Nat)
  | [] => []
  | op :: ops => s.reaching path op ++ reachings path (s.perform Validator.validate op).1 ops

/-- Each leaf keeps its spec for one state of a registry, given by the path of the leaf. -/
structure Keeps (s : Service) (keptFor? : Path → Option (Nat × Nat)) : Prop where
  distinct : s.validator.schema.Distinct
  leaves : ∀ path l, (path, .leaf l) ∈ s.validator.schema.preorder → l.keptFor? = keptFor? path

variable {s : Service} {keptFor? : Path → Option (Nat × Nat)}

theorem Keeps.perform (h : s.Keeps keptFor?) (op : Operation) :
    (s.perform Validator.validate op).1.Keeps fun path =>
      (s.reaching path op).getLast?.or (keptFor? path) := by
  by_cases hcheck : ∃ data, op = .validate data
  · obtain ⟨data, rfl⟩ := hcheck
    have hschema : (s.perform Validator.validate (.validate data)).1.validator.schema =
        (s.validator.schema.visit s.validator.setting [] data).1 := s.validator.schema_validate data
    refine ⟨?_, ?_⟩
    -- Names of children are not touched by a walk: they are the same without what is kept.
    · rw [hschema, ← Node.distinct_forget, Node.forget_visit, Node.distinct_forget]
      exact h.distinct
    · intro path l' hl'
      rw [hschema] at hl'
      obtain ⟨l, hl, rfl⟩ := Node.leaf_of_mem_visit s.validator.setting [] h.distinct data hl'
      rw [Leaf.keptFor?_afterWalk, h.leaves path l hl, List.nil_append, reaching, Node.reachedWith?]
      split <;> rfl
  · have hnot := not_exists.mp hcheck
    obtain ⟨hschema, -, -⟩ := perform_of_no_check Validator.validate s hnot
    have hreaching : ∀ path, s.reaching path op = [] := by
      intro path
      cases op with
      | validate data => exact absurd rfl (hnot data)
      | register | registerOn | setDebug | useRegistry => rfl
    simp only [hreaching, List.getLast?_nil, Option.none_or]
    exact ⟨hschema ▸ h.distinct, hschema ▸ h.leaves⟩

/-- After a history each leaf keeps its spec for the state of the registry with which it was last
reached. -/
theorem Keeps.after (h : s.Keeps keptFor?) (ops : List Operation) :
    (s.after Validator.validate ops).Keeps fun path =>
      (s.reachings path ops).getLast?.or (keptFor? path) := by
  induction ops generalizing s keptFor? with
  | nil => exact h
  | cons op ops ih =>
    -- The later of two reachings is the one that counts.
    have hrest := ih (h.perform op)
    simp only [← Option.or_assoc, ← List.getLast?_append] at hrest
    exact hrest

theorem keeps_begin {schema : Value} {debug : Bool} {r : Registry} {v : Validator}
    (hv : Validator.new schema debug r = .ok v) (others : Nat → Registry) :
    (begin others v).Keeps fun _ => none := by
  obtain ⟨hnode, -, -⟩ := Validator.new_ok hv
  refine ⟨Node.distinct_ofValue hnode, fun path l hl => ?_⟩
  have hforget : (begin others v).validator.schema = v.schema.forget :=
    (Node.forget_ofValue hnode).symm
  rw [hforget, Node.preorder_forget] at hl
  obtain ⟨⟨p, node⟩, -, heq⟩ := List.mem_map.mp hl
  cases node with
  | leaf l => cases heq; rfl
  | branch children => cases heq

end Service

/-! ## What a check says of broken specs -/

def Encounter.schemaFault? (r : Registry) (e : Encounter) : Option ValidationError :=
  match e.node with
  | .leaf l => (l.compile r).error.map fun error =>
      ⟨.schema, e.path, l.spec, e.data.orMissing.textOf, error.message⟩
  | .branch _ => none

/-- The errors of their kind among those that data deserves. -/
theorem Encounter.filter_fault? (r : Registry) (e : Encounter) :
    (e.node.fault? r e.path e.data).filter (fun error => error.kind = .schema) =
    e.schemaFault? r := by
  cases e using Encounter.cases with
  | leaf path l data =>
    change (l.fault? r path data.orMissing).filter _ = (l.compile r).error.map _
    cases herror : (l.compile r).error with
    | some error => simp [Leaf.fault?, herror]
    | none =>
      cases data.orMissing with
      | mapping | sequence => simp [Leaf.fault?, herror]
      | missing | scalar =>
        simp only [Leaf.fault?, herror]
        split <;> rfl
  | inside path children entries => rfl
  | outside path children data hdata =>
    rw [Node.fault?_outside r path children hdata]
    rfl

namespace Validator

variable (v : Validator) (data : Value)

theorem filterMap_trace_validate {α : Type} {f : Event → Option α}
    (hf : ∀ n, f (.notice (.finished n)) = none) :
    (v.validate data).2.trace.filterMap f =
    (v.schema.visit v.setting [] data).2.trace.filterMap f := by
  unfold validate
  simp only
  split
  · rfl
  · rw [List.filterMap_append, Setting.filterMap_trace _ (hf _), List.append_nil]

/-- What a check does about broken specs, where each leaf of the schema was last reached with some
state of a registry or never before. -/
structure Warns (schema : Node) (last? : Path → Option (Nat × Nat)) : Prop where
  /-- A warning is given of each leaf that is reached and broken, unless it was last reached with
  the registry as it is now. -/
  warned : (v.validate data).2.trace.filterMap Event.brokenSpec? =
    ((Encounter.met (schema.encounters [] data)).filter fun e =>
      last? e.path ≠ some v.registry.state).filterMap (Encounter.schemaError? v.registry)
  /-- An error is reported of each such leaf, whether or not a warning is given, if its data can be
  read. -/
  reported :
    ((v.validate data).2.trace.filterMap Event.error?).filter (fun error => error.kind = .schema) =
    ((Encounter.met (schema.encounters [] data)).filter Encounter.isReadable).filterMap
      (Encounter.schemaFault? v.registry)
  /-- The leaves that are reached are compiled. -/
  compiled : ∀ path l, (path, .leaf l) ∈ (v.validate data).1.schema.preorder →
    path ∈ schema.reached [] data →
    l.keptFor? = some v.registry.state
  /-- The other leaves are as they were. -/
  untouched : ∀ path l, (path, .leaf l) ∈ (v.validate data).1.schema.preorder →
    path ∉ schema.reached [] data →
    (path, .leaf l) ∈ v.schema.preorder
  /-- Nothing is reached below a node whose data is no mapping. -/
  below : ∀ path found, data.reach path = some found → (∀ entries, found ≠ .mapping entries) →
    ∀ key rest, path ++ key :: rest ∉ schema.reached [] data

end Validator

namespace Service

/-- Whatever was done before, a check warns of the broken leaves that it comes to and that were not
last reached with the registry as it is now, and it reports an error of all that it comes to, of
which the data can be read. -/
theorem broken_spec_warned_once_per_state {schema : Value} {debug : Bool} {r : Registry}
    {v : Validator}
    (hv : Validator.new schema debug r = .ok v) (others : Nat → Registry) (ops : List Operation)
    (data : Value) :
    ((begin others v).after Validator.validate ops).validator.Warns data v.schema fun path =>
      ((begin others v).reachings path ops).getLast? := by
  obtain ⟨hdistinct, hleaves⟩ := (keeps_begin hv others).after ops
  simp only [Option.or_none] at hleaves
  -- What is reached, and what is wrong with a spec, does not depend on what is kept.
  have hforget := forget_schema_after hv others ops
  have hreached :=
    Node.reached_forget [] ((begin others v).after Validator.validate ops).validator.schema data
  rw [hforget] at hreached
  refine ⟨?_, ?_, ?_, ?_, ?_⟩
  · rw [Validator.filterMap_trace_validate _ _ fun _ => rfl,
      Node.brokenSpec_visit _ hleaves, ← hforget, Node.encounters_forget, Encounter.met_map_forget,
      List.filter_map, List.filterMap_map]
    refine congrArg (List.filterMap · _) (funext fun e => ?_)
    exact (e.schemaError?_forget _).symm
  · rw [errors_validate_read hv others ops data, ← Encounter.filter_met, List.filter_filterMap]
    simp only [Encounter.filter_fault?]
  · intro path l' hl' hmem
    rw [Validator.schema_validate] at hl'
    obtain ⟨l, hl, rfl⟩ := Node.leaf_of_mem_visit _ [] hdistinct data hl'
    rw [hreached] at hmem
    rw [Leaf.keptFor?_afterWalk, List.nil_append, if_pos hmem]
    rfl
  · intro path l' hl' hmem
    rw [Validator.schema_validate] at hl'
    obtain ⟨l, hl, rfl⟩ := Node.leaf_of_mem_visit _ [] hdistinct data hl'
    rw [hreached] at hmem
    rw [Leaf.afterWalk, List.nil_append, if_neg hmem]
    exact hl
  · intro path found hfound hmapping key rest
    exact Node.not_mem_reached_below [] v.schema hfound hmapping key rest

/-- A leaf was last reached with another registry, which was in use for a while, and one with the
registry that is in use again. -/
theorem warnings_of_returning_registry :
    let schema : Value :=
      .mapping [(.text "a", .scalar (.text "x")),
        (.text "b", .mapping [(.text "c", .scalar (.text "|"))])]
    let part : Value := .mapping [(.text "a", .scalar (.text "y"))]
    let whole : Value :=
      .mapping [(.text "a", .scalar (.text "y")),
        (.text "b", .mapping [(.text "c", .scalar .null)])]
    let ops : List Operation := [.validate whole, .useRegistry 1, .validate part, .useRegistry 0]
    ∃ v, Validator.new schema false (.new 0 [] []) = .ok v ∧
      let check :=
        (((begin (fun n => .new n [] []) v).after Validator.validate ops).validator).validate whole
      check.2.trace.filterMap Event.brokenSpec? = [.unknownType "x" "x"] ∧
      (check.2.trace.filterMap Event.error?).filter (fun e => e.kind = .schema) =
        [⟨.schema, ["a"], "x", "y", "Unknown type 'x'"⟩,
          ⟨.schema, ["b", "c"], "|", "<missing>",
            "Invalid type spec '|': Expected type name at position 0"⟩] := by
  intro schema part whole ops
  have hv : Validator.new schema false (.new 0 [] []) = .ok _ := rfl
  refine ⟨_, rfl, ?_⟩
  have hwarns := broken_spec_warned_once_per_state hv (fun n => .new n [] []) ops whole
  refine ⟨hwarns.warned.trans ?_, hwarns.reported.trans ?_⟩
  · decide +kernel
  · decide +kernel

end Service

theorem Encounter.met_of_only_child (key : Text) (l : Leaf) (value : Value) :
    met ((Node.branch [(key, .leaf l)]).encounters [] (.mapping [(.text key, value)])) =
      [⟨[], .branch [(key, .leaf l)], .mapping [(.text key, value)]⟩, ⟨[key], .leaf l, value⟩] := by
  have hlast : Value.lastOf key [(.text key, value)] = value := by
    simp [Value.lastOf, Scalar.toText, Except.toOption]
  rw [Node.encounters_branch, List.flatMap_singleton, Value.child?, Option.map_some,
    Option.getD_some, hlast, Node.encounters_leaf, met, met, met, ite_self]
  rfl

/-- Where data cannot be read, a leaf that is not compiled yet is warned of if it is broken, and
nothing is reported. -/
theorem Validator.warned_not_reported {v : Validator} {key : Text} {l : Leaf} {value : Value}
    (hschema : v.schema = .branch [(key, .leaf l)]) (hkept : l.keptFor? ≠ some v.registry.state)
    (hvalue : value.isReadable = false) :
    let check := v.validate (.mapping [(.text key, value)])
    check.2.trace.filterMap Event.brokenSpec? = (l.compile v.registry).error.toList ∧
      check.2.trace.filterMap Event.error? = [] := by
  intro check
  have hleaf : (Encounter.visit v.setting ⟨[key], .leaf l, value⟩).trace =
      (l.compile v.registry).error.toList.map fun error => .notice (.brokenSpec error) := by
    have hdata := (Value.isReadable_orMissing value).trans hvalue
    have hnotices := (l.notices_compiled v.registry).trans (if_neg hkept)
    simp only [Encounter.visit, Leaf.visit, Leaf.check_of_not_isReadable v.setting [key] hdata]
    exact (List.append_nil _).trans hnotices
  have htrace : (v.schema.visit v.setting [] (.mapping [(.text key, value)])).2.trace =
      (Encounter.step v.setting ⟨[], .branch [(key, .leaf l)],
        .mapping [(.text key, value)]⟩).trace ++
        (l.compile v.registry).error.toList.map fun error => .notice (.brokenSpec error) := by
    rw [hschema, Node.trace_visit, Encounter.met_of_only_child, List.flatMap_cons,
      List.flatMap_singleton, Encounter.visit_branch, hleaf]
  refine ⟨?_, ?_⟩
  · rw [v.filterMap_trace_validate _ fun _ => rfl, htrace, List.filterMap_append,
      (Encounter.lasts_step _ _).brokenSpec]
    cases (l.compile v.registry).error <;> rfl
  · have hstep := Encounter.errors_step v.setting
      (e := ⟨[], .branch [(key, .leaf l)], .mapping [(.text key, value)]⟩) rfl
    rw [v.filterMap_trace_validate _ fun _ => rfl, htrace, List.filterMap_append, hstep]
    cases (l.compile v.registry).error <;> rfl

/-- No error is reported of a broken leaf where an integer stands that is too long. -/
theorem Service.broken_leaf_without_error :
    let schema : Value := .mapping [(.text "a", .scalar (.text "|"))]
    let data : Value := .mapping [(.text "a", .scalar (.int (Nat.pow 10 maxDigits)))]
    ∃ v, Validator.new schema false (.new 0 [] []) = .ok v ∧
      (["a"] : Path) ∈ v.schema.reached [] data ∧
      (v.validate data).2.trace.filterMap Event.brokenSpec? = [.malformed "|" (.expectedName 0)] ∧
      (v.validate data).2.trace.filterMap Event.error? = [] := by
  intro schema data
  let v : Validator := ⟨.branch [("a", .leaf (.new "|"))], .new 0 [] [], false, []⟩
  have hlong : (Scalar.int (Nat.pow 10 maxDigits)).isTooLong = true :=
    Scalar.isTooLong_natCast (Nat.le_refl _)
  have hvalue : (Value.scalar (.int (Nat.pow 10 maxDigits))).isReadable = false := by
    rw [Value.isReadable, hlong, Bool.not_true]
  obtain ⟨hwarned, hreported⟩ :=
    @Validator.warned_not_reported v "a" (.new "|") _ rfl (Option.some_ne_none _).symm hvalue
  refine ⟨v, rfl, ?_, hwarned.trans (by decide +kernel), hreported⟩
  rw [Node.reached, Encounter.met_of_only_child]
  exact List.mem_cons_of_mem _ List.mem_cons_self

end TreeSpec
