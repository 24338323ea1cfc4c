import Mathlib.Data.List.Forall2
import TreeSpec.Dictionary

/-!
# Dictionaries of entries

No key is twice in a dictionary that was made of entries, and a dictionary in which no key is twice
is made of its own entries. Making a dictionary keeps what relates the values of two lists of
entries with the same keys.
-/

namespace TreeSpec.Dictionary

set_option autoImplicit false

variable {α β : Type}

theorem nodup_keys_put {d : Dictionary α} (h : d.keys.Nodup) (key : Text) (value : α) :
    (d.put key value).keys.Nodup := by
  rw [keys_put]
  split
  · exact h
  · next hkey =>
    apply List.nodup_append.mpr
    refine ⟨h, List.pairwise_singleton .., ?_⟩
    intro k hk other hother heq
    obtain rfl := List.mem_singleton.mp hother
    exact hkey (heq ▸ hk)

theorem nodup_keys_ofEntries (entries : List (Text × α)) : (ofEntries entries).keys.Nodup := by
  have hfold : ∀ d : Dictionary α, d.keys.Nodup →
      (keys (entries.foldl (fun d e => d.put e.1 e.2) d)).Nodup := by
    induction entries with
    | nil => exact fun d hd => hd
    | cons e rest ih => exact fun d hd => ih _ (nodup_keys_put hd e.1 e.2)
  exact hfold [] List.nodup_nil

/-- A new key goes to the end. -/
theorem put_of_not_mem {d : Dictionary α} {key : Text} (h : key ∉ d.keys) (value : α) :
    d.put key value = d ++ [(key, value)] := by
  induction d with
  | nil => rfl
  | cons e rest ih =>
    obtain ⟨k, v⟩ := e
    obtain ⟨hk, hrest⟩ := not_or.mp (mt List.mem_cons.mpr h)
    rw [put, if_neg (Ne.symm hk), ih hrest, List.cons_append]

theorem ofEntries_of_nodup {d : Dictionary α} (h : d.keys.Nodup) : ofEntries d = d := by
  -- What is there already and what is still to be put in have no key twice together.
  have hfold : ∀ front rest : Dictionary α, (keys (front ++ rest)).Nodup →
      rest.foldl (fun d e => d.put e.1 e.2) front = front ++ rest := by
    intro front rest
    induction rest generalizing front with
    | nil => simp
    | cons e rest ih =>
      intro hnodup
      have happend : front ++ e :: rest = (front ++ [e]) ++ rest := by simp
      have hkey : e.1 ∉ front.keys := by
        rw [keys, List.map_append, List.map_cons] at hnodup
        intro hmem
        exact (List.nodup_append.mp hnodup).2.2 e.1 hmem e.1 List.mem_cons_self rfl
      rw [List.foldl_cons, put_of_not_mem hkey, happend]
      exact ih _ (happend ▸ hnodup)
  exact hfold [] d h

theorem ofEntries_ofEntries (entries : List (Text × α)) :
    ofEntries (ofEntries entries) = ofEntries entries :=
  ofEntries_of_nodup (nodup_keys_ofEntries entries)

/-- Entries with the same keys in the same places, and related values. -/
def Related (R : α → β → Prop) : Dictionary α → Dictionary β → Prop :=
  List.Forall₂ fun e e' => e.1 = e'.1 ∧ R e.2 e'.2

namespace Related

variable {R : α → β → Prop} {d : Dictionary α} {d' : Dictionary β}

theorem put (h : Related R d d') {key : Text} {a : α} {b : β} (hab : R a b) :
    Related R (d.put key a) (d'.put key b) := by
  induction h with
  | nil => exact .cons ⟨rfl, hab⟩ .nil
  | @cons e e' rest rest' he hrest ih =>
    obtain ⟨k, v⟩ := e
    obtain ⟨k', v'⟩ := e'
    obtain ⟨rfl, hv⟩ := he
    by_cases hk : k = key
    · simp only [Dictionary.put, hk, if_true]
      exact .cons ⟨rfl, hab⟩ hrest
    · simp only [Dictionary.put, hk, if_false]
      exact .cons ⟨rfl, hv⟩ ih

theorem ofEntries (h : Related R d d') :
    Related R (Dictionary.ofEntries d) (Dictionary.ofEntries d') := by
  have hstep : ∀ ⦃d d'⦄, Related R d d' → ∀ ⦃e : Text × α⦄ ⦃e' : Text × β⦄,
      e.1 = e'.1 ∧ R e.2 e'.2 → Related R (d.put e.1 e.2) (d'.put e'.1 e'.2) := by
    rintro d d' hd ⟨key, a⟩ ⟨_, b⟩ ⟨rfl, hab⟩
    exact hd.put hab
  exact List.rel_foldl hstep List.Forall₂.nil h

end Related

end TreeSpec.Dictionary
