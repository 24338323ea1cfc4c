import TreeSpec.Proofs.Walk.Faults

/-!
# The entry that counts for a name

Of the entries of a mapping the last one whose key has the text of a name counts for a child of that
name.
-/

namespace TreeSpec

set_option autoImplicit false

namespace Value

/-- The last entry whose key has the text. -/
def latest? (key : Text) (entries : List (Scalar × Value)) : Option (Scalar × Value) :=
  entries.reverse.find? fun e => e.1.toText.toOption = some key

variable {before after entries : List (Scalar × Value)} {key : Scalar} {text other : Text}

theorem lastOf_eq_latest? (text : Text) (entries : List (Scalar × Value)) :
    lastOf text entries = ((latest? text entries).map (·.2)).getD .missing := rfl

theorem latest?_append (text : Text) (before after : List (Scalar × Value)) :
    latest? text (before ++ after) = (latest? text after).or (latest? text before) := by
  unfold latest?
  rw [List.reverse_append, List.find?_append]

theorem latest?_cons (htext : key.toText = .ok text) (value : Value) (other : Text)
    (after : List (Scalar × Value)) :
    latest? other ((key, value) :: after) =
      (latest? other after).or (if other = text then some (key, value) else none) := by
  have hsingle :
      latest? other [(key, value)] = if other = text then some (key, value) else none := by
    have hkey : key.toText.toOption = some text := by
      rw [htext]
      rfl
    unfold latest?
    rw [List.reverse_singleton, List.find?_singleton, hkey]
    by_cases h : other = text
    · simp [h]
    · simp [h, Ne.symm h]
  rw [← List.singleton_append, latest?_append, hsingle]

theorem getD_latest?_cons (htext : key.toText = .ok text) (value : Value) (other : Text)
    (after : List (Scalar × Value)) (default : Value) :
    ((latest? other ((key, value) :: after)).map (·.2)).getD default =
      ((latest? other after).map (·.2)).getD (if other = text then value else default) := by
  rw [latest?_cons htext]
  cases latest? other after with
  | some e => rfl
  | none =>
    rw [Option.none_or]
    split <;> rfl

theorem latest?_eq_none (h : ∀ e ∈ entries, e.1.toText ≠ .ok text) :
    latest? text entries = none := by
  apply List.find?_eq_none.mpr
  intro e he hkey
  apply h e (List.mem_reverse.mp he)
  cases hv : e.1.toText with
  | error failure => simp [hv, Except.toOption] at hkey
  | ok found =>
    simp only [hv, Except.toOption, Option.some.injEq, decide_eq_true_eq] at hkey
    rw [hkey]

/-- An entry counts for no text but that of its key. -/
theorem latest?_insert_of_ne (htext : key.toText = .ok text) (hother : other ≠ text)
    (value : Value) (before after : List (Scalar × Value)) :
    latest? other (before ++ (key, value) :: after) = latest? other (before ++ after) := by
  rw [latest?_append, latest?_append, latest?_cons htext, if_neg hother, Option.or_none]

/-- An entry that no later one has the text of is the last one. -/
theorem latest?_insert_self (htext : key.toText = .ok text)
    (hlast : ∀ e ∈ after, e.1.toText ≠ .ok text) (value : Value) (before : List (Scalar × Value)) :
    latest? text (before ++ (key, value) :: after) = some (key, value) := by
  rw [latest?_append, latest?_cons htext, latest?_eq_none hlast, if_pos rfl]
  rfl

/-- An entry whose key has a text does not count for whether the keys can be read. -/
theorem all_insert (htext : key.toText = .ok text) (value : Value)
    (before after : List (Scalar × Value)) :
    ((before ++ (key, value) :: after).all fun e => !e.1.isTooLong) =
      (before ++ after).all fun e => !e.1.isTooLong := by
  have hkey : key.isTooLong = false := Scalar.not_isTooLong_of_toText htext
  rw [List.all_append, List.all_append, List.all_cons, hkey, Bool.not_false, Bool.true_and]

end Value

end TreeSpec
