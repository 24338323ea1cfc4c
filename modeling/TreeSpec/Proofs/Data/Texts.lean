import TreeSpec.Proofs.Data.Dictionary
import TreeSpec.Proofs.Walk.Alike
import TreeSpec.Proofs.Walk.LastEntry

/-!
# Data in texts

Data and schemas can be written with the texts of their keys and scalars only. Nothing is lost by
that for a check: the schema tree stays the same, and the data are alike for every schema. Written
once, they stay as they are.
-/

namespace TreeSpec

set_option autoImplicit false

theorem exists_of_forall₂ {α β : Type} {R : α → β → Prop} {as : List α} {bs : List β}
    (h : List.Forall₂ R as bs) {a : α} (ha : a ∈ as) : ∃ b ∈ bs, R a b := by
  induction h with
  | nil => cases ha
  | @cons first b as bs hfirst _ ih =>
    rcases List.mem_cons.mp ha with rfl | ha
    · exact ⟨b, List.mem_cons_self, hfirst⟩
    · obtain ⟨b', hb', hR⟩ := ih ha
      exact ⟨b', List.mem_cons_of_mem b hb', hR⟩

namespace Value

/-- The entries of a dictionary, with their keys as scalars. -/
def textEntries (d : Dictionary Value) : List (Scalar × Value) := d.map fun e => (.text e.1, e.2)

mutual

/-- The value with texts in place of the keys and the scalars, and a scalar of choice in place of
null. Of entries with one text the first gives the place and the last the value. Sequences stay as
they are. -/
def inTexts (whenNull : Scalar) : Value → Except Failure Value
  | .missing => .ok .missing
  | .scalar .null => .ok (.scalar whenNull)
  | .scalar v => v.toText.map fun text => .scalar (.text text)
  | .sequence kind items => .ok (.sequence kind items)
  | .mapping entries =>
    (entriesInTexts whenNull entries).map fun found =>
      .mapping (textEntries (Dictionary.ofEntries found))

def entriesInTexts (whenNull : Scalar) :
    List (Scalar × Value) → Except Failure (List (Text × Value))
  | [] => .ok []
  | (key, v) :: rest => do
    let text ← key.toText
    let found ← inTexts whenNull v
    return (text, found) :: (← entriesInTexts whenNull rest)

end

/-- Entry by entry, the key gives its text and the value is written in texts. -/
def Written (w : Scalar) : List (Scalar × Value) → List (Text × Value) → Prop :=
  List.Forall₂ fun e f => e.1.toText = .ok f.1 ∧ e.2.inTexts w = .ok f.2

variable {w : Scalar} {entries : List (Scalar × Value)} {found : List (Text × Value)}

theorem written_of_entriesInTexts (h : entriesInTexts w entries = .ok found) :
    Written w entries found := by
  induction entries generalizing found with
  | nil =>
    cases h
    exact .nil
  | cons e rest ih =>
    obtain ⟨text, htext, h⟩ := ok_of_bind h
    obtain ⟨v, hv, h⟩ := ok_of_bind h
    obtain ⟨more, hmore, h⟩ := ok_of_bind h
    cases h
    exact .cons ⟨htext, hv⟩ (ih hmore)

namespace Written

theorem image (h : Written w entries found) {e : Scalar × Value} (he : e ∈ entries) :
    ∃ f ∈ found, e.1.toText = .ok f.1 ∧ e.2.inTexts w = .ok f.2 :=
  exists_of_forall₂ h he

theorem origin (h : Written w entries found) {f : Text × Value} (hf : f ∈ found) :
    ∃ e ∈ entries, e.1.toText = .ok f.1 ∧ e.2.inTexts w = .ok f.2 :=
  exists_of_forall₂ (List.Forall₂.flip h) hf

theorem all_keys (h : Written w entries found) : (entries.all fun e => !e.1.isTooLong) = true := by
  apply List.all_eq_true.mpr
  intro e he
  obtain ⟨f, -, htext, -⟩ := h.image he
  exact congrArg (!·) (Scalar.not_isTooLong_of_toText htext)

/-- What stands for a name is written in texts, also if nothing does. -/
theorem lastOf (h : Written w entries found) (name : Text) :
    (Value.lastOf name entries).inTexts w = .ok (Value.lastOf name (textEntries found)) := by
  have hlast : ∀ none none' : Value, none.inTexts w = .ok none' →
      (((latest? name entries).map (·.2)).getD none).inTexts w =
        .ok (((latest? name (textEntries found)).map (·.2)).getD none') := by
    induction h with
    | nil => exact fun none none' hnone => hnone
    | @cons e f rest more hfirst _ ih =>
      obtain ⟨key, v⟩ := e
      obtain ⟨text, v'⟩ := f
      obtain ⟨htext, hv⟩ := hfirst
      intro none none' hnone
      rw [textEntries, List.map_cons, getD_latest?_cons htext, getD_latest?_cons rfl]
      apply ih
      split
      · exact hv
      · exact hnone
  exact hlast .missing .missing rfl

end Written

theorem all_textEntries (d : Dictionary Value) :
    ((textEntries d).all fun e => !e.1.isTooLong) = true := by
  simp [textEntries, Scalar.isTooLong]

/-- Of the entries of a dictionary the one that was put in last counts for its name. -/
theorem lastOf_ofEntries (found : List (Text × Value)) (name : Text) :
    lastOf name (textEntries (Dictionary.ofEntries found)) = lastOf name (textEntries found) := by
  have hget : ∀ d : Dictionary Value,
      ((Dictionary.ofEntries d).get? name).getD .missing = lastOf name (textEntries d) := by
    intro d
    apply get?_ofEntries_of_map_eq
    rw [textEntries, List.map_map]
    rfl
  rw [← hget, ← hget, Dictionary.ofEntries_ofEntries]

theorem entriesInTexts_textEntries {d : Dictionary Value} (h : ∀ e ∈ d, e.2.inTexts w = .ok e.2) :
    entriesInTexts w (textEntries d) = .ok d := by
  induction d with
  | nil => rfl
  | cons e rest ih =>
    obtain ⟨he, hrest⟩ := List.forall_mem_cons.mp h
    have hmore := ih hrest
    rw [textEntries] at hmore
    rw [textEntries, List.map_cons, entriesInTexts, he, hmore]
    rfl

theorem inTexts_scalar {v : Scalar} (h : v ≠ .null) (w : Scalar) :
    (scalar v).inTexts w = v.toText.map fun text => .scalar (.text text) := by
  cases v <;> first | rfl | exact absurd rfl h

/-- What is written in texts stays as it is, if what was put in place of null does. -/
theorem inTexts_of_inTexts (hnull : (scalar w).inTexts w = .ok (scalar w)) {data data' : Value}
    (h : data.inTexts w = .ok data') : data'.inTexts w = .ok data' := by
  induction data using Value.induction generalizing data' with
  | missing | sequence =>
    cases h
    rfl
  | scalar v =>
    by_cases hv : v = .null
    · subst hv
      cases h
      exact hnull
    · rw [inTexts_scalar hv] at h
      obtain ⟨text, -, rfl⟩ := ok_of_map h
      rfl
  | mapping entries ih =>
    obtain ⟨found, hfound, rfl⟩ := ok_of_map h
    have hfixed : ∀ f ∈ Dictionary.ofEntries found, f.2.inTexts w = .ok f.2 := by
      intro f hf
      obtain ⟨e, he, -, hvalue⟩ :=
        (written_of_entriesInTexts hfound).origin (Dictionary.mem_of_mem_ofEntries hf)
      exact ih e he hvalue
    rw [inTexts, entriesInTexts_textEntries hfixed, Except.map, Dictionary.ofEntries_ofEntries]

theorem renderable_of_inTexts {data data' : Value} (h : data.inTexts w = .ok data') :
    data.Renderable := by
  induction data using Value.induction generalizing data' with
  | missing => exact .missing
  | sequence kind items _ => exact .sequence kind items
  | scalar v =>
    by_cases hv : v = .null
    · subst hv
      exact .scalar rfl
    · rw [inTexts_scalar hv] at h
      obtain ⟨text, htext, -⟩ := ok_of_map h
      exact .scalar htext
  | mapping entries ih =>
    obtain ⟨found, hfound, -⟩ := ok_of_map h
    have hwritten := written_of_entriesInTexts hfound
    refine .mapping (fun e he => ?_) fun e he => ?_
    · obtain ⟨f, -, htext, -⟩ := hwritten.image he
      exact ⟨f.1, htext⟩
    · obtain ⟨f, -, -, hvalue⟩ := hwritten.image he
      exact ih e he hvalue

end Value

namespace Node

variable {w : Scalar} {entries : List (Scalar × Value)}

theorem alike_of_not_mapping {data data' : Value} (hdata : ∀ entries, data ≠ .mapping entries)
    (h : data.inTexts .null = .ok data') (n : Node) : n.Alike data data' := by
  cases data with
  | missing | sequence =>
    cases h
    exact (alike_equivalence n).refl _
  | scalar v =>
    by_cases hv : v = .null
    · subst hv
      cases h
      exact (alike_equivalence n).refl _
    · rw [Value.inTexts_scalar hv] at h
      obtain ⟨text, htext, rfl⟩ := ok_of_map h
      exact alike_text hv htext n
  | mapping entries => exact absurd rfl (hdata entries)

theorem alike_written {found : List (Text × Value)} (h : Value.Written .null entries found)
    {children : List (Text × Node)}
    (hchildren : ∀ e ∈ children, ∀ {data data' : Value}, data.inTexts .null = .ok data' →
      e.2.Alike data data') :
    (branch children).Alike (.mapping entries)
      (.mapping (Value.textEntries (Dictionary.ofEntries found))) := by
  refine alike_inside (h.all_keys.trans (Value.all_textEntries _).symm) fun e he => ?_
  apply hchildren e he
  rw [Value.lastOf_ofEntries]
  exact h.lastOf e.1

/-- No node can tell data from the data in texts. -/
theorem alike_inTexts {data data' : Value} (h : data.inTexts .null = .ok data') (n : Node) :
    n.Alike data data' := by
  induction n using Node.induction generalizing data data' with
  | leaf l =>
    by_cases hmapping : ∃ entries, data = .mapping entries
    · obtain ⟨entries, rfl⟩ := hmapping
      obtain ⟨found, -, rfl⟩ := ok_of_map h
      exact alike_mappings l entries _
    · exact alike_of_not_mapping (not_exists.mp hmapping) h _
  | branch children ih =>
    by_cases hmapping : ∃ entries, data = .mapping entries
    · obtain ⟨entries, rfl⟩ := hmapping
      obtain ⟨found, hfound, rfl⟩ := ok_of_map h
      exact alike_written (Value.written_of_entriesInTexts hfound) fun e he _ _ hvalue =>
        ih e he hvalue
    · exact alike_of_not_mapping (not_exists.mp hmapping) h _

/-- The schema tree of entries is that of the entries in texts. -/
theorem ofEntries_written {found : List (Text × Value)} (h : Value.Written w entries found)
    (hvalues : ∀ e ∈ entries, ∀ v, e.2.inTexts w = .ok v →
      ∃ n, ofValue e.2 = .ok n ∧ ofValue v = .ok n) :
    ∃ children, ofEntries entries = .ok children ∧
      Dictionary.Related (fun v n => ofValue v = .ok n) found children := by
  induction h with
  | nil => exact ⟨[], rfl, .nil⟩
  | @cons e f rest more hfirst _ ih =>
    obtain ⟨key, v⟩ := e
    obtain ⟨text, v'⟩ := f
    obtain ⟨htext, hv⟩ := hfirst
    obtain ⟨hvalue, hvalues⟩ := List.forall_mem_cons.mp hvalues
    obtain ⟨n, hn, hn'⟩ := hvalue v' hv
    obtain ⟨children, hchildren, hrelated⟩ := ih hvalues
    refine ⟨(text, n) :: children, ?_, .cons ⟨rfl, hn'⟩ hrelated⟩
    simp only at htext hn
    rw [ofEntries, htext, hn, hchildren]
    rfl

theorem ofEntries_textEntries {d : Dictionary Value} {children : List (Text × Node)}
    (h : Dictionary.Related (fun v n => ofValue v = .ok n) d children) :
    ofEntries (Value.textEntries d) = .ok children := by
  induction h with
  | nil => rfl
  | @cons f child more rest hfirst _ ih =>
    obtain ⟨text, v⟩ := f
    obtain ⟨_, n⟩ := child
    obtain ⟨rfl, hn⟩ := hfirst
    rw [Value.textEntries] at ih
    simp only at hn
    rw [Value.textEntries, List.map_cons, ofEntries, hn, ih]
    rfl

/-- A schema that is written in texts, where null is a spec of that name, has the same schema
tree. -/
theorem ofValue_inTexts {schema schema' : Value} (h : schema.inTexts (.text "None") = .ok schema') :
    ∃ n, ofValue schema = .ok n ∧ ofValue schema' = .ok n := by
  induction schema using Value.induction generalizing schema' with
  | missing | sequence =>
    cases h
    exact ⟨_, rfl, rfl⟩
  | scalar v =>
    by_cases hv : v = .null
    · subst hv
      cases h
      exact ⟨_, rfl, rfl⟩
    · rw [Value.inTexts_scalar hv] at h
      obtain ⟨text, htext, rfl⟩ := ok_of_map h
      refine ⟨leaf (.new text), ?_, rfl⟩
      rw [ofValue, htext]
      rfl
  | mapping entries ih =>
    obtain ⟨found, hfound, rfl⟩ := ok_of_map h
    obtain ⟨children, hchildren, hrelated⟩ :=
      ofEntries_written (Value.written_of_entriesInTexts hfound) fun e he v hv => ih e he hv
    refine ⟨branch (Dictionary.ofEntries children), ?_, ?_⟩
    · rw [ofValue, hchildren]
      rfl
    · rw [ofValue, ofEntries_textEntries hrelated.ofEntries, Except.map,
        Dictionary.ofEntries_ofEntries]

end Node

end TreeSpec
