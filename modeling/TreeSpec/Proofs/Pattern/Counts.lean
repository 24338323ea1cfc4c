import TreeSpec.Proofs.Pattern.Texts

/-!
# How often a character occurs

How often a character occurs in the texts of an expression is bounded along the expression. Of two
expressions with bounds that leave a gap, no text is described by both.
-/

namespace TreeSpec

set_option autoImplicit false

namespace Regex

/-- The character occurs so many times at least. Only a set that holds nothing else makes sure of
it. -/
def least (c : CodePoint) : Regex → Nat
  | empty | anchor _ => 0
  | set s => if s = .of [.char c] then 1 else 0
  | seq first second => first.least c + second.least c
  | alt first second => min (first.least c) (second.least c)
  | times body low _ => low * body.least c

/-- The character occurs so many times at most, if there is a bound. -/
def most? (c : CodePoint) : Regex → Option Nat
  | empty | anchor _ => some 0
  | set s => some (if s.contains c then 1 else 0)
  | seq first second => do return (← first.most? c) + (← second.most? c)
  | alt first second => do return max (← first.most? c) (← second.most? c)
  | times body low more => do
    let m ← body.most? c
    if m = 0 then some 0 else more.map fun more => (low + more) * m

section Counts

variable {r : Regex} {t : Text} {c : CodePoint} {l : Language CodePoint} {m n : Nat}

theorem le_count_pow (h : ∀ t ∈ l, m ≤ t.count c) (ht : t ∈ l ^ n) : n * m ≤ t.count c := by
  induction n generalizing t with
  | zero =>
    rw [Nat.zero_mul]
    exact Nat.zero_le _
  | succ n ih =>
    rw [pow_succ'] at ht
    obtain ⟨u, hu, v, hv, rfl⟩ := ht
    have hfirst := h u hu
    have hrest := ih hv
    rw [List.count_append, Nat.succ_mul]
    omega

theorem count_pow_le (h : ∀ t ∈ l, t.count c ≤ m) (ht : t ∈ l ^ n) : t.count c ≤ n * m := by
  induction n generalizing t with
  | zero =>
    obtain rfl : t = [] := ht
    exact Nat.zero_le _
  | succ n ih =>
    rw [pow_succ'] at ht
    obtain ⟨u, hu, v, hv, rfl⟩ := ht
    have hfirst := h u hu
    have hrest := ih hv
    rw [List.count_append, Nat.succ_mul]
    omega

theorem least_le_count (h : t ∈ r.texts) : r.least c ≤ t.count c := by
  induction r generalizing t with
  | empty | anchor => exact Nat.zero_le _
  | set s =>
    obtain ⟨d, hd, rfl⟩ := h
    unfold least
    split
    · next hs =>
      rw [hs, CharSet.contains_of] at hd
      obtain rfl : d = c := by simpa [SetItem.contains] using hd
      rw [List.count_singleton_self]
    · exact Nat.zero_le _
  | seq first second ihf ihs =>
    obtain ⟨u, hu, v, hv, rfl⟩ := h
    rw [List.count_append]
    exact Nat.add_le_add (ihf hu) (ihs hv)
  | alt first second ihf ihs =>
    rcases h with h | h
    · exact Nat.le_trans (Nat.min_le_left ..) (ihf h)
    · exact Nat.le_trans (Nat.min_le_right ..) (ihs h)
  | times body low more ih =>
    obtain ⟨n, -, ht⟩ := h
    have hturns := le_count_pow (fun _ => ih) ht
    exact Nat.le_trans (Nat.mul_le_mul_right _ (Nat.le_add_right low n)) hturns

theorem count_le_most (hm : r.most? c = some m) (h : t ∈ r.texts) : t.count c ≤ m := by
  induction r generalizing t m with
  | empty =>
    obtain rfl : t = [] := h
    exact Nat.zero_le _
  | anchor => cases h
  | set s =>
    obtain ⟨d, hd, rfl⟩ := h
    cases hm
    by_cases hdc : d = c
    · rw [← hdc, hd, List.count_singleton_self]
      exact Nat.le_refl 1
    · rw [List.count_eq_zero_of_not_mem (by simpa using Ne.symm hdc)]
      exact Nat.zero_le _
  | seq first second ihf ihs =>
    obtain ⟨u, hu, v, hv, rfl⟩ := h
    obtain ⟨i, hi, hm⟩ := Option.bind_eq_some_iff.mp hm
    obtain ⟨j, hj, hm⟩ := Option.bind_eq_some_iff.mp hm
    cases hm
    rw [List.count_append]
    exact Nat.add_le_add (ihf hi hu) (ihs hj hv)
  | alt first second ihf ihs =>
    obtain ⟨i, hi, hm⟩ := Option.bind_eq_some_iff.mp hm
    obtain ⟨j, hj, hm⟩ := Option.bind_eq_some_iff.mp hm
    cases hm
    rcases h with h | h
    · exact Nat.le_trans (ihf hi h) (Nat.le_max_left ..)
    · exact Nat.le_trans (ihs hj h) (Nat.le_max_right ..)
  | times body low more ih =>
    obtain ⟨n, hn, ht⟩ := h
    obtain ⟨i, hi, hm⟩ := Option.bind_eq_some_iff.mp hm
    have hturns := count_pow_le (fun _ => ih hi) ht
    split at hm
    · next hzero =>
      cases hm
      rwa [hzero, Nat.mul_zero] at hturns
    · obtain ⟨k, hk, rfl⟩ := Option.map_eq_some_iff.mp hm
      have hle := Nat.mul_le_mul_right i (Nat.add_le_add_left (hn k hk) low)
      exact Nat.le_trans hturns hle

theorem not_mem_of_most (hm : r.most? c = some 0) (h : t ∈ r.texts) : c ∉ t :=
  List.count_eq_zero.mp (Nat.le_zero.mp (count_le_most hm h))

/-- A text of both expressions would have the character in it too often for the one, or not often
enough for the other. -/
theorem not_mem_of_counts {r' : Regex} (hm : r.most? c = some m) (hlt : m < r'.least c)
    (h : t ∈ r.texts) :
    t ∉ r'.texts := by
  intro h'
  have hle := Nat.le_trans (least_le_count h') (count_le_most hm h)
  omega

end Counts

end Regex

end TreeSpec
