import TreeSpec.Text.Basic

/-!
# Dictionaries

A dictionary is a list of entries in the order in which their keys were first put in. Putting a key
in again changes its value and not its place.
-/

namespace TreeSpec

set_option autoImplicit false

abbrev Dictionary (α : Type) := List (Text × α)

namespace Dictionary

variable {α β : Type}

def put (key : Text) (value : α) : Dictionary α → Dictionary α
  | [] => [(key, value)]
  | (k, v) :: rest => if k = key then (key, value) :: rest else (k, v) :: put key value rest

/-- The dictionary of the entries, the last entry of a key giving its value. -/
def ofEntries (entries : List (Text × α)) : Dictionary α :=
  entries.foldl (fun d e => d.put e.1 e.2) []

def get? : Dictionary α → Text → Option α
  | [], _ => none
  | (k, v) :: rest, key => if k = key then some v else get? rest key

def keys (d : Dictionary α) : List Text := d.map (·.1)

@[simp] theorem get?_nil (key : Text) : get? ([] : Dictionary α) key = none := rfl

theorem get?_put (d : Dictionary α) (key other : Text) (value : α) :
    (d.put key value).get? other = if other = key then some value else d.get? other := by
  induction d with
  | nil => simp [put, get?, eq_comm]
  | cons e rest ih =>
    obtain ⟨k, v⟩ := e
    by_cases hk : k = key
    · subst hk
      by_cases ho : k = other
      · simp [put, get?, ho]
      · simp [put, get?, ho, Ne.symm ho]
    · simp only [put, hk, if_false, get?, ih]
      by_cases ho : k = other
      · subst ho
        simp [hk]
      · simp [ho]

theorem mem_put {d : Dictionary α} {key : Text} {value : α} {e : Text × α}
    (h : e ∈ d.put key value) : e = (key, value) ∨ e ∈ d := by
  induction d with
  | nil => exact .inl (List.mem_singleton.mp h)
  | cons first rest ih =>
    obtain ⟨k, v⟩ := first
    by_cases hk : k = key
    · simp only [put, hk, if_true] at h
      exact (List.mem_cons.mp h).imp_right (List.mem_cons_of_mem _)
    · simp only [put, hk, if_false] at h
      rcases List.mem_cons.mp h with rfl | h
      · exact .inr List.mem_cons_self
      · exact (ih h).imp_right (List.mem_cons_of_mem _)

/-- All entries of a dictionary come from the entries that it was made of. -/
theorem mem_of_mem_ofEntries {entries : List (Text × α)} {e : Text × α}
    (h : e ∈ ofEntries entries) : e ∈ entries := by
  have hfold : ∀ d : Dictionary α, e ∈ entries.foldl (fun d e => d.put e.1 e.2) d →
      e ∈ d ∨ e ∈ entries := by
    clear h
    induction entries with
    | nil => exact fun d h => .inl h
    | cons first rest ih =>
      intro d h
      rcases ih _ h with h | h
      · rcases mem_put h with rfl | h
        · exact .inr List.mem_cons_self
        · exact .inl h
      · exact .inr (List.mem_cons_of_mem _ h)
  rcases hfold [] h with h | h
  · cases h
  · exact h

/-- In a dictionary of entries the last entry of a key gives its value. -/
theorem get?_ofEntries (entries : List (Text × α)) (key : Text) :
    (ofEntries entries).get? key = (entries.reverse.find? (·.1 = key)).map (·.2) := by
  have hfold : ∀ d : Dictionary α, (entries.foldl (fun d e => d.put e.1 e.2) d).get? key =
      ((entries.reverse.find? (·.1 = key)).map (·.2)).or (d.get? key) := by
    induction entries with
    | nil => intro d; rfl
    | cons e rest ih =>
      intro d
      rw [List.foldl_cons, ih, get?_put, List.reverse_cons, List.find?_append]
      by_cases he : e.1 = key
      · cases rest.reverse.find? (·.1 = key) <;> simp [he]
      · cases rest.reverse.find? (·.1 = key) <;> simp [he, Ne.symm he]
  simpa [ofEntries] using hfold []

theorem isSome_get? (d : Dictionary α) (key : Text) : (d.get? key).isSome ↔ key ∈ d.keys := by
  induction d with
  | nil => simp [keys]
  | cons e rest ih =>
    obtain ⟨k, v⟩ := e
    by_cases h : k = key
    · simp [get?, keys, h]
    · simp only [get?, h, if_false, ih, keys, List.map_cons, List.mem_cons, Ne.symm h, false_or]

theorem mem_of_get? {d : Dictionary α} {key : Text} {value : α} (h : d.get? key = some value) :
    (key, value) ∈ d := by
  induction d with
  | nil => cases h
  | cons e rest ih =>
    obtain ⟨k, v⟩ := e
    by_cases hk : k = key
    · obtain rfl : v = value := by simpa [get?, hk] using h
      rw [hk]
      exact List.mem_cons_self
    · simp only [get?, hk, if_false] at h
      exact List.mem_cons_of_mem _ (ih h)

theorem keys_put (d : Dictionary α) (key : Text) (value : α) :
    (d.put key value).keys = if key ∈ d.keys then d.keys else d.keys ++ [key] := by
  induction d with
  | nil => simp [put, keys]
  | cons e rest ih =>
    obtain ⟨k, v⟩ := e
    by_cases h : k = key
    · simp [put, keys, h]
    · simp only [keys] at ih
      simp only [put, h, if_false, keys, List.map_cons, List.mem_cons, Ne.symm h, false_or, ih]
      by_cases hm : key ∈ rest.map (·.1) <;> simp [hm]

def mapValues (f : α → β) (d : Dictionary α) : Dictionary β := d.map fun e => (e.1, f e.2)

theorem get?_mapValues (f : α → β) (d : Dictionary α) (key : Text) :
    (d.mapValues f).get? key = (d.get? key).map f := by
  induction d with
  | nil => rfl
  | cons e rest ih =>
    by_cases h : e.1 = key
    · simp [mapValues, get?, h]
    · simpa [mapValues, get?, h] using ih

theorem mapValues_put (f : α → β) (d : Dictionary α) (key : Text) (value : α) :
    (d.put key value).mapValues f = (d.mapValues f).put key (f value) := by
  induction d with
  | nil => rfl
  | cons e rest ih =>
    by_cases h : e.1 = key
    · simp [mapValues, put, h]
    · simpa [mapValues, put, h] using ih

/-- Putting in what is there changes nothing. -/
theorem put_of_get? {d : Dictionary α} {key : Text} {value : α} (h : d.get? key = some value) :
    d.put key value = d := by
  induction d with
  | nil => cases h
  | cons e rest ih =>
    obtain ⟨k, v⟩ := e
    by_cases hk : k = key
    · subst hk
      obtain rfl : v = value := by simpa [get?] using h
      simp [put]
    · simp only [get?, hk, if_false] at h
      simp only [put, hk, if_false, ih h]

end Dictionary

end TreeSpec
