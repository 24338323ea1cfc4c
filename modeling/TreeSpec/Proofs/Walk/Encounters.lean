import Mathlib.Data.Nat.Digits.Lemmas
import TreeSpec.Proofs.Walk.Inspection

/-!
# The encounters of a walk

Which nodes a walk comes to, and with which data, can be said without walking: they are the nodes of
the schema in depth first, each with what is found in the data by its path. A walk without memory
does what is to be done at each of them in turn. It ends early only where an integer has too many
digits to be written.
-/

namespace TreeSpec

set_option autoImplicit false

/-- An integer of more digits than can be written. -/
def Scalar.isTooLong : Scalar → Bool
  | int i => maxDigits < (Nat.digits 10 i.natAbs).length
  | _ => false

namespace Value

/-- The value of the last entry whose key has the text, or the marker. -/
def lastOf (key : Text) (entries : List (Scalar × Value)) : Value :=
  ((entries.reverse.find? fun e => e.1.toText.toOption = some key).map (·.2)).getD .missing

/-- What stands for a child of a branch, whose data has to be a mapping. -/
def child? (data : Value) (key : Text) : Option Value :=
  match data with
  | mapping entries => some (lastOf key entries)
  | _ => none

/-- The data for the node at a path, which is reached if all data above it are mappings. -/
def reach (data : Value) (path : Path) : Option Value := path.foldlM child? data

/-- The text of a value, empty if it has none. -/
def textOf (data : Value) : Text := data.describe.toOption.getD []

def isReadable : Value → Bool
  | scalar v => !v.isTooLong
  | _ => true

end Value

namespace Node

mutual

/-- The nodes with their paths, each before its children and these in their order. -/
def preorder : Node → List (Path × Node)
  | leaf l => [([], leaf l)]
  | branch children => ([], branch children) :: preorderAll children

def preorderAll : List (Text × Node) → List (Path × Node)
  | [] => []
  | (key, child) :: rest => child.preorder.map (fun e => (key :: e.1, e.2)) ++ preorderAll rest

end

end Node

/-- A node at its path, with what stands for it in the data. -/
structure Encounter where
  path : Path
  node : Node
  data : Value

/-- The nodes that are reached in the data, in the order of the schema. -/
def Node.encounters (path : Path) (n : Node) (data : Value) : List Encounter :=
  n.preorder.filterMap fun e => (data.reach e.1).map fun found => ⟨path ++ e.1, e.2, found⟩

namespace Encounter

/-- What has to be written for the node can be: the keys of a mapping at a branch, or a scalar. -/
def isReadable (e : Encounter) : Bool :=
  match e.node, e.data with
  | .branch _, .mapping entries => entries.all fun entry => !entry.1.isTooLong
  | _, data => data.isReadable

/-- What is done at the node itself. -/
def step (s : Setting) (e : Encounter) : Effect Event Unit :=
  match e.node, e.data.orMissing with
  | .leaf l, data => Leaf.check s e.path l.spec (l.compile s.registry) data
  | .branch _, .mapping entries => do
    let _ ← Node.enter s e.path entries
    pure ()
  | .branch _, data => s.reportValue .shape e.path Value.mappingText data ""

def followAll (s : Setting) : List Encounter → Effect Event Unit
  | [] => pure ()
  | e :: rest => do
    e.step s
    followAll s rest

/-- A walk comes to a leaf, or to a branch that it enters, or to a branch whose data is no
mapping. -/
@[elab_as_elim] theorem cases {P : Encounter → Prop}
    (leaf : ∀ path l data, P ⟨path, .leaf l, data⟩)
    (inside : ∀ path children entries, P ⟨path, .branch children, .mapping entries⟩)
    (outside : ∀ path children data, (∀ entries, data ≠ .mapping entries) →
      P ⟨path, .branch children, data⟩)
    (e : Encounter) : P e := by
  obtain ⟨path, node, data⟩ := e
  cases node with
  | leaf l => exact leaf path l data
  | branch children =>
    cases data with
    | mapping entries => exact inside path children entries
    | missing | scalar | sequence => exact outside path children _ (by simp)

variable (s : Setting) (path : Path) (children : List (Text × Node))

theorem step_inside (entries : List (Scalar × Value)) :
    step s ⟨path, .branch children, .mapping entries⟩ =
      Node.enter s path entries >>= fun _ => pure () := rfl

theorem step_outside {data : Value} (h : ∀ entries, data ≠ .mapping entries) :
    step s ⟨path, .branch children, data⟩ =
      s.reportValue .shape path Value.mappingText data.orMissing "" := by
  cases data with
  | mapping entries => exact absurd rfl (h entries)
  | scalar v => cases v <;> rfl
  | missing | sequence => rfl

theorem isReadable_outside {data : Value} (h : ∀ entries, data ≠ .mapping entries) :
    isReadable ⟨path, .branch children, data⟩ = data.isReadable := by
  cases data with
  | mapping entries => exact absurd rfl (h entries)
  | missing | scalar | sequence => rfl

end Encounter

section Texts

theorem pow_le_iff_lt_length_digits {n k : Nat} : Nat.pow 10 k ≤ n ↔ k < (Nat.digits 10 n).length :=
  (Nat.lt_digits_length_iff (by decide) n).symm

namespace Scalar

variable {v : Scalar}

theorem toText_of_isTooLong (h : v.isTooLong = true) : v.toText = .error .integerTooLong := by
  cases v with
  | int i =>
    have hlong := pow_le_iff_lt_length_digits.mpr (of_decide_eq_true h)
    rw [toText, Text.writeInteger, if_pos hlong]
  | text | bool | float | null | foreign => cases h

theorem exists_toText (h : v.isTooLong = false) : ∃ text, v.toText = .ok text := by
  cases v with
  | int i =>
    have hshort := mt pow_le_iff_lt_length_digits.mp (of_decide_eq_false h)
    refine ⟨toString i, ?_⟩
    rw [toText, Text.writeInteger, if_neg hshort]
  | text | bool | float | null | foreign => exact ⟨_, rfl⟩

end Scalar

namespace Value

variable {data : Value}

theorem isReadable_orMissing (data : Value) : data.orMissing.isReadable = data.isReadable := by
  unfold orMissing
  split <;> rfl

theorem child?_of_not_mapping (h : ∀ entries, data ≠ .mapping entries) (key : Text) :
    data.child? key = none := by
  cases data with
  | mapping entries => exact absurd rfl (h entries)
  | missing | scalar | sequence => rfl

theorem describe_of_isReadable (h : data.isReadable = true) : data.describe = .ok data.textOf := by
  have hdescribe : ∃ text, data.describe = .ok text := by
    cases data with
    | scalar v => exact v.exists_toText (by simpa [isReadable] using h)
    | missing | sequence | mapping => exact ⟨_, rfl⟩
  obtain ⟨text, htext⟩ := hdescribe
  rw [textOf, htext]
  rfl

theorem describe_of_not_isReadable (h : data.isReadable = false) :
    data.describe = .error .integerTooLong := by
  cases data with
  | scalar v => exact v.toText_of_isTooLong (by simpa [isReadable] using h)
  | missing | sequence | mapping => cases h

end Value

end Texts

/-- Nothing but notices are among the events. -/
def Effect.OnlyNotices {α : Type} (x : Effect Event α) : Prop := ∀ e ∈ x.trace, ∃ n, e = .notice n

namespace Effect

variable {α β : Type} {x : Effect Event α}

theorem OnlyNotices.bind {f : α → Effect Event β} (hx : x.OnlyNotices)
    (hf : ∀ a, (f a).OnlyNotices) : (x >>= f).OnlyNotices :=
  forall_mem_trace_bind hx hf

theorem onlyNotices_of_trace (h : x.trace = []) : x.OnlyNotices := by
  intro e he
  rw [h] at he
  cases he

theorem OnlyNotices.filterMap_trace {γ : Type} {f : Event → Option γ} (h : x.OnlyNotices)
    (hf : ∀ n, f (.notice n) = none) : x.trace.filterMap f = [] := by
  apply List.filterMap_eq_nil_iff.mpr
  intro e he
  obtain ⟨n, rfl⟩ := h e he
  exact hf n

end Effect

section Entries

variable (s : Setting) (path : Path)

theorem Setting.onlyNotices_trace (n : Notice) : (Effect.emit (s.trace n)).OnlyNotices :=
  fun _ he => ⟨n, mem_trace he⟩

theorem Setting.filterMap_trace {α : Type} {f : Event → Option α} {n : Notice}
    (hf : f (.notice n) = none) :
    (s.trace n).filterMap f = [] := by
  unfold trace
  split
  · rw [List.filterMap_cons, hf, List.filterMap_nil]
  · rfl

namespace Value

theorem onlyNotices_entriesByText (seen : Dictionary Scalar) (entries : List (Scalar × Value)) :
    (entriesByText path seen entries).OnlyNotices := by
  induction entries generalizing seen with
  | nil => exact Effect.onlyNotices_of_trace rfl
  | cons entry rest ih =>
    obtain ⟨key, v⟩ := entry
    refine (Effect.onlyNotices_of_trace rfl).bind fun text => Effect.OnlyNotices.bind ?_ fun _ =>
      (ih _).bind fun _ => Effect.onlyNotices_of_trace rfl
    intro e he
    obtain ⟨earlier, -, rfl⟩ := List.mem_map.mp he
    exact ⟨_, rfl⟩

theorem onlyNotices_textKeyed (entries : List (Scalar × Value)) :
    (textKeyed path entries).OnlyNotices := by
  unfold textKeyed
  split
  · exact Effect.onlyNotices_of_trace rfl
  · exact onlyNotices_entriesByText path [] entries

/-- Where all keys are texts, the entries are found as they are. -/
theorem result_entriesByText_of_texts {entries : List (Scalar × Value)}
    (h : entries.all (·.1.isText) = true) (seen : Dictionary Scalar) :
    (entriesByText path seen entries).result = .ok (keyedByText entries) := by
  induction entries generalizing seen with
  | nil => rfl
  | cons e rest ih =>
    obtain ⟨key, v⟩ := e
    obtain ⟨hkey, hrest⟩ := (Bool.and_eq_true ..).mp h
    cases key with
    | text t =>
      unfold entriesByText
      rw [Effect.bind_of_ok (a := t) rfl]
      simp only [Effect.emit_bind, Effect.bind_of_ok (ih hrest _)]
      rfl
    | bool | int | float | null | foreign => cases hkey

/-- Both ways to read the entries find the same. -/
theorem result_textKeyed (entries : List (Scalar × Value)) :
    (textKeyed path entries).result = (entriesByText path [] entries).result := by
  unfold textKeyed
  split
  · next h => exact (result_entriesByText_of_texts path h []).symm
  · rfl

/-- The entries by text are the entries with their texts. -/
theorem entriesByText_ok {seen : Dictionary Scalar} {entries : List (Scalar × Value)}
    {found : List (Text × Value)} (h : (entriesByText path seen entries).result = .ok found) :
    found.map (fun e => (some e.1, e.2)) = entries.map (fun e => (e.1.toText.toOption, e.2)) := by
  induction entries generalizing seen found with
  | nil =>
    cases h
    rfl
  | cons e rest ih =>
    obtain ⟨key, v⟩ := e
    unfold entriesByText at h
    obtain ⟨text, htext, h, -⟩ := Effect.of_bind_ok h
    obtain ⟨_, -, h, -⟩ := Effect.of_bind_ok h
    obtain ⟨more, hmore, h, -⟩ := Effect.of_bind_ok h
    cases h
    rw [List.map_cons, List.map_cons, ih hmore, show key.toText = .ok text from htext]
    rfl

theorem entriesByText_isOk {entries : List (Scalar × Value)}
    (h : ∀ e ∈ entries, e.1.isTooLong = false) (seen : Dictionary Scalar) :
    ∃ found, (entriesByText path seen entries).result = .ok found := by
  induction entries generalizing seen with
  | nil => exact ⟨[], rfl⟩
  | cons e rest ih =>
    obtain ⟨key, v⟩ := e
    obtain ⟨hkey, hrest⟩ := List.forall_mem_cons.mp h
    obtain ⟨text, htext⟩ := key.exists_toText hkey
    obtain ⟨more, hmore⟩ := ih hrest (seen.put text key)
    refine ⟨(text, v) :: more, ?_⟩
    unfold entriesByText
    rw [Effect.bind_of_ok (a := text) (by exact htext)]
    simp only [Effect.emit_bind, Effect.bind_of_ok hmore]
    rfl

theorem entriesByText_fails {entries : List (Scalar × Value)} {e : Scalar × Value}
    (he : e ∈ entries) (h : e.1.isTooLong = true) (seen : Dictionary Scalar) :
    (entriesByText path seen entries).result = .error .integerTooLong := by
  induction entries generalizing seen with
  | nil => cases he
  | cons first rest ih =>
    obtain ⟨key, v⟩ := first
    unfold entriesByText
    cases hkey : key.isTooLong with
    | true =>
      rw [Effect.bind_of_error (e := .integerTooLong) (by exact key.toText_of_isTooLong hkey)]
    | false =>
      obtain ⟨text, htext⟩ := key.exists_toText hkey
      rcases List.mem_cons.mp he with rfl | he
      · rw [hkey] at h
        cases h
      · rw [Effect.bind_of_ok (a := text) (by exact htext)]
        simp only [Effect.emit_bind, Effect.bind_of_error (ih he _)]

/-- Looking a text up in the entries by text finds the value of the last entry whose key has it. -/
theorem get?_ofEntries_of_map_eq {found : List (Text × Value)} {entries : List (Scalar × Value)}
    (h : found.map (fun e => (some e.1, e.2)) = entries.map (fun e => (e.1.toText.toOption, e.2)))
    (key : Text) :
    ((Dictionary.ofEntries found).get? key).getD .missing = lastOf key entries := by
  have hfound : (found.reverse.find? (·.1 = key)).map (·.2) =
      ((found.map fun e => (some e.1, e.2)).reverse.find? (·.1 = some key)).map (·.2) := by
    rw [← List.map_reverse, List.find?_map, Option.map_map]
    simp [Function.comp_def]
  have hentries : (entries.reverse.find? fun e => e.1.toText.toOption = some key).map (·.2) =
      ((entries.map fun e => (e.1.toText.toOption, e.2)).reverse.find? (·.1 = some key)).map
      (·.2) := by
    rw [← List.map_reverse, List.find?_map, Option.map_map]
    rfl
  unfold lastOf
  rw [Dictionary.get?_ofEntries, hfound, h, hentries]

end Value

namespace Node

variable {entries : List (Scalar × Value)}

theorem onlyNotices_enter (entries : List (Scalar × Value)) : (enter s path entries).OnlyNotices :=
  (s.onlyNotices_trace _).bind fun _ =>
    (Value.onlyNotices_textKeyed path entries).bind fun _ => Effect.onlyNotices_of_trace rfl

theorem enter_ok {found : Dictionary Value} (h : (enter s path entries).result = .ok found)
    (key : Text) : (found.get? key).getD .missing = Value.lastOf key entries := by
  unfold enter at h
  obtain ⟨_, -, h, -⟩ := Effect.of_bind_ok h
  obtain ⟨texts, htexts, h, -⟩ := Effect.of_bind_ok h
  cases h
  rw [Value.result_textKeyed] at htexts
  exact Value.get?_ofEntries_of_map_eq (Value.entriesByText_ok path htexts) key

theorem enter_isOk (h : ∀ e ∈ entries, e.1.isTooLong = false) :
    ∃ found, (enter s path entries).result = .ok found := by
  obtain ⟨texts, htexts⟩ := Value.entriesByText_isOk path h []
  rw [← Value.result_textKeyed] at htexts
  refine ⟨Dictionary.ofEntries texts, ?_⟩
  unfold enter
  rw [Effect.emit_bind, Effect.bind_of_ok htexts]
  rfl

theorem enter_fails {e : Scalar × Value} (he : e ∈ entries) (h : e.1.isTooLong = true) :
    (enter s path entries).result = .error .integerTooLong := by
  have hfails := Value.entriesByText_fails path he h []
  rw [← Value.result_textKeyed] at hfails
  unfold enter
  rw [Effect.emit_bind, Effect.bind_of_error hfails]

end Node

end Entries

section Encounters

variable (s : Setting) (path : Path)

theorem Encounter.followAll_append (es more : List Encounter) :
    followAll s (es ++ more) = followAll s es >>= fun _ => followAll s more := by
  induction es with
  | nil => rw [List.nil_append, followAll, pure_bind]
  | cons e rest ih =>
    rw [List.cons_append, followAll, followAll, ih, bind_assoc]

namespace Node

theorem encounters_leaf (l : Leaf) (data : Value) :
    (leaf l).encounters path data = [⟨path, leaf l, data⟩] := by
  have hreach : data.reach [] = some data := rfl
  simp only [encounters, preorder, List.filterMap_cons, List.filterMap_nil, hreach, Option.map_some,
    List.append_nil]

/-- Below a branch the encounters are those of the children, each with what stands for it in the
data. -/
theorem filterMap_preorderAll (children : List (Text × Node)) (data : Value) :
    (preorderAll children).filterMap (fun e =>
        (data.reach e.1).map fun found => (⟨path ++ e.1, e.2, found⟩ : Encounter)) =
      children.flatMap fun e =>
        ((data.child? e.1).map (e.2.encounters (path ++ [e.1]))).getD [] := by
  induction children with
  | nil => rfl
  | cons e rest ih =>
    obtain ⟨key, child⟩ := e
    rw [preorderAll, List.filterMap_append, ih, List.flatMap_cons, List.filterMap_map]
    congr 1
    unfold encounters
    cases hc : data.child? key with
    | none =>
      have hreach : ∀ p : Path, data.reach (key :: p) = none := by
        intro p
        simp [Value.reach, hc]
      refine List.filterMap_eq_nil_iff.mpr fun e _ => ?_
      rw [Function.comp_apply, hreach, Option.map_none]
    | some value =>
      have hreach : ∀ p : Path, data.reach (key :: p) = value.reach p := by
        intro p
        simp [Value.reach, hc]
      refine congrArg (child.preorder.filterMap ·) (funext fun e => ?_)
      rw [Function.comp_apply, hreach, List.append_assoc, List.singleton_append]

theorem encounters_branch (children : List (Text × Node)) (data : Value) :
    (branch children).encounters path data =
      ⟨path, branch children, data⟩ :: children.flatMap fun e =>
        ((data.child? e.1).map (e.2.encounters (path ++ [e.1]))).getD [] := by
  have hreach : data.reach [] = some data := rfl
  rw [← filterMap_preorderAll]
  simp only [encounters, preorder, List.filterMap_cons, hreach, Option.map_some, List.append_nil]

theorem encounters_outside (children : List (Text × Node)) {data : Value}
    (h : ∀ entries, data ≠ .mapping entries) :
    (branch children).encounters path data = [⟨path, branch children, data⟩] := by
  rw [encounters_branch]
  simp [Value.child?_of_not_mapping h]

theorem inspectAll_eq_followAll {children : List (Text × Node)} {entries : List (Scalar × Value)}
    {found : Dictionary Value}
    (hfound : ∀ key, (found.get? key).getD .missing = Value.lastOf key entries)
    (hchildren : ∀ e ∈ children, ∀ path data,
      e.2.inspect s path data = Encounter.followAll s (e.2.encounters path data)) :
    inspectAll s path found children = Encounter.followAll s
      (children.flatMap fun e => e.2.encounters (path ++ [e.1]) (Value.lastOf e.1 entries)) := by
  induction children with
  | nil => rfl
  | cons e rest ih =>
    obtain ⟨key, child⟩ := e
    obtain ⟨hhead, htail⟩ := List.forall_mem_cons.mp hchildren
    rw [inspectAll, hhead, hfound, ih htail, List.flatMap_cons, Encounter.followAll_append]

theorem inspect_outside (children : List (Text × Node)) {data : Value}
    (h : ∀ entries, data ≠ .mapping entries) :
    (branch children).inspect s path data =
      s.reportValue .shape path Value.mappingText data.orMissing "" := by
  cases data with
  | mapping entries => exact absurd rfl (h entries)
  | scalar v => cases v <;> rfl
  | missing | sequence => rfl

/-- A walk without memory does what is to be done at the encounters, one after the other. -/
theorem inspect_eq_followAll (n : Node) (data : Value) :
    n.inspect s path data = Encounter.followAll s (n.encounters path data) := by
  induction n using Node.induction generalizing path data with
  | leaf l =>
    rw [encounters_leaf, inspect, Encounter.followAll, Encounter.followAll, bind_pure_unit]
    rfl
  | branch children ih =>
    by_cases hmapping : ∃ entries, data = .mapping entries
    · obtain ⟨entries, rfl⟩ := hmapping
      rw [encounters_branch, Encounter.followAll, Encounter.step_inside, bind_assoc]
      simp only [inspect, Value.orMissing, pure_bind]
      cases henter : (enter s path entries).result with
      | error e => rw [Effect.bind_of_error henter, Effect.bind_of_error henter]
      | ok found =>
        have hall := inspectAll_eq_followAll s path (enter_ok s path henter)
          fun e he path data => ih e he path data
        rw [Effect.bind_of_ok henter, Effect.bind_of_ok henter, hall]
        rfl
    · have hdata := not_exists.mp hmapping
      rw [inspect_outside s path children hdata, encounters_outside path children hdata,
        Encounter.followAll, Encounter.followAll, Encounter.step_outside s path children hdata,
        bind_pure_unit]

end Node

end Encounters

section Reading

variable (s : Setting) (path : Path)

theorem Setting.reportValue_of_isReadable {data : Value} (h : data.isReadable = true)
    (kind : ErrorKind) (spec detail : Text) :
    s.reportValue kind path spec data detail =
      Effect.emit (s.report ⟨kind, path, spec, data.textOf, detail⟩) := by
  unfold reportValue
  rw [data.describe_of_isReadable h]
  rfl

theorem Setting.reportValue_of_not_isReadable {data : Value} (h : data.isReadable = false)
    (kind : ErrorKind) (spec detail : Text) :
    s.reportValue kind path spec data detail = Effect.fail .integerTooLong := by
  unfold reportValue
  rw [data.describe_of_not_isReadable h]
  rfl

namespace Leaf

theorem check_of_not_isReadable {data : Value} (h : data.isReadable = false) (spec : Text)
    (e : Expression) : check s path spec e data = Effect.fail .integerTooLong := by
  cases he : e.error with
  | some error => rw [check_of_error s path spec he, s.reportValue_of_not_isReadable path h]
  | none =>
    cases data with
    | scalar v =>
      rw [check_scalar s path spec he, v.toText_of_isTooLong (by simpa [Value.isReadable] using h)]
      rfl
    | missing | sequence | mapping => cases h

/-- Trying a scalar that can be read, with the text that it has. -/
theorem check_of_isReadable {v : Scalar} {spec : Text} {e : Expression} (he : e.error = none)
    (h : (Value.scalar v).isReadable = true) :
    check s path spec e (.scalar v) =
      Effect.emit ((e.attempts (some (Value.scalar v).textOf)).flatMap (Attempt.events s path)) >>=
        fun _ => if e.accepts (some (Value.scalar v).textOf) then pure ()
          else s.reportValue .leaf path spec (.scalar v) "" := by
  have htext : v.toText = .ok (Value.scalar v).textOf := Value.describe_of_isReadable h
  rw [check_scalar s path spec he, htext]
  rfl

theorem result_check {data : Value} (h : data.isReadable = true) (spec : Text) (e : Expression) :
    (check s path spec e data).result = .ok () := by
  have hreport : ∀ kind detail, (s.reportValue kind path spec data detail).result = .ok () := by
    intro kind detail
    rw [s.reportValue_of_isReadable path h]
    rfl
  cases he : e.error with
  | some error => rw [check_of_error s path spec he, hreport]
  | none =>
    cases data with
    | missing =>
      rw [check_missing s path spec he]
      split
      · rfl
      · exact hreport ..
    | scalar v =>
      rw [check_of_isReadable s path he h, Effect.emit_bind]
      change (ite _ _ _ : Effect Event Unit).result = _
      split
      · rfl
      · exact hreport ..
    | sequence | mapping => rw [check_of_not_scalar s path spec he rfl, hreport]

end Leaf

namespace Encounter

variable {e : Encounter}

theorem result_step (h : e.isReadable = true) : (e.step s).result = .ok () := by
  cases e using Encounter.cases with
  | leaf path l data =>
    exact Leaf.result_check s path ((Value.isReadable_orMissing data).trans h) ..
  | inside path children entries =>
    have hkeys : ∀ e ∈ entries, e.1.isTooLong = false := by
      simpa [isReadable] using h
    obtain ⟨found, hfound⟩ := Node.enter_isOk s path hkeys
    rw [step_inside, Effect.bind_of_ok hfound]
    rfl
  | outside path children data hdata =>
    rw [isReadable_outside path children hdata, ← Value.isReadable_orMissing] at h
    rw [step_outside s path children hdata, s.reportValue_of_isReadable path h]
    rfl

theorem step_of_not_isReadable (h : e.isReadable = false) :
    (e.step s).result = .error .integerTooLong ∧ (e.step s).OnlyNotices := by
  cases e using Encounter.cases with
  | leaf path l data =>
    have hdata : data.orMissing.isReadable = false := (Value.isReadable_orMissing data).trans h
    have hstep : step s ⟨path, .leaf l, data⟩ = Effect.fail .integerTooLong :=
      Leaf.check_of_not_isReadable s path hdata ..
    rw [hstep]
    exact ⟨rfl, Effect.onlyNotices_of_trace rfl⟩
  | inside path children entries =>
    obtain ⟨entry, hmem, hlong⟩ := List.all_eq_false.mp h
    rw [step_inside, Effect.bind_of_error (Node.enter_fails s path hmem (by simpa using hlong))]
    exact ⟨rfl, Node.onlyNotices_enter s path entries⟩
  | outside path children data hdata =>
    rw [isReadable_outside path children hdata, ← Value.isReadable_orMissing] at h
    rw [step_outside s path children hdata, s.reportValue_of_not_isReadable path h]
    exact ⟨rfl, Effect.onlyNotices_of_trace rfl⟩

/-- A walk is completed just if everything that has to be written can be. -/
theorem result_followAll (es : List Encounter) :
    (followAll s es).result = if es.all isReadable then .ok () else .error .integerTooLong := by
  induction es with
  | nil => rfl
  | cons e rest ih =>
    rw [followAll, List.all_cons]
    cases h : e.isReadable with
    | true =>
      rw [Effect.bind_of_ok (result_step s h), Bool.true_and]
      exact ih
    | false =>
      rw [Effect.bind_of_error (step_of_not_isReadable s h).1, Bool.false_and,
        if_neg Bool.false_ne_true]

/-- What is read off the events of a walk comes from the encounters before the first one that cannot
be read, if nothing is read off the events of such a one. -/
theorem filterMap_trace_followAll_of_unread {α : Type} {f : Event → Option α}
    (hf : ∀ e : Encounter, e.isReadable = false → (e.step s).trace.filterMap f = [])
    (es : List Encounter) :
    (followAll s es).trace.filterMap f =
      (es.takeWhile isReadable).flatMap fun e => (e.step s).trace.filterMap f := by
  induction es with
  | nil => rfl
  | cons e rest ih =>
    rw [followAll, List.takeWhile_cons]
    cases h : e.isReadable with
    | true =>
      rw [Effect.bind_of_ok (result_step s h), List.filterMap_append, ih]
      rfl
    | false =>
      rw [Effect.bind_of_error (step_of_not_isReadable s h).1]
      exact hf e h

theorem filterMap_trace_followAll {α : Type} {f : Event → Option α} (hf : ∀ n, f (.notice n) = none)
    (es : List Encounter) :
    (followAll s es).trace.filterMap f =
      (es.takeWhile isReadable).flatMap fun e => (e.step s).trace.filterMap f :=
  filterMap_trace_followAll_of_unread s (fun _ h =>
    (step_of_not_isReadable s h).2.filterMap_trace hf) es

end Encounter

end Reading

end TreeSpec
