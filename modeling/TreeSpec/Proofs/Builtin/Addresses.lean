import TreeSpec.Builtin.Types
import TreeSpec.Proofs.Pattern.Texts
import TreeSpec.Proofs.Registry.Negation

/-!
# Addresses of eight groups

An address has eight groups with colons between them. A double colon may stand for one or more of
them, wherever it is. The pattern spells out how many groups may stand before and after the double
colon; together its alternatives allow just the ways to split seven groups or fewer. The
alternatives that end in a dotted quad take part only where there is a dot.
-/

namespace TreeSpec

set_option autoImplicit false

/-- One to four hexadecimal digits of ASCII. -/
structure Text.HexGroup (g : Text) : Prop where
  nonempty : g ≠ []
  short : g.length ≤ 4
  hex : ∀ c ∈ g, ('0' ≤ c ∧ c ≤ '9') ∨ ('a' ≤ c ∧ c ≤ 'f') ∨ ('A' ≤ c ∧ c ≤ 'F')

instance : DecidablePred Text.HexGroup := fun g =>
  decidable_of_iff (g ≠ [] ∧ g.length ≤ 4 ∧
      ∀ c ∈ g, ('0' ≤ c ∧ c ≤ '9') ∨ ('a' ≤ c ∧ c ≤ 'f') ∨ ('A' ≤ c ∧ c ≤ 'F'))
    ⟨fun h => ⟨h.1, h.2.1, h.2.2⟩, fun h => ⟨h.nonempty, h.short, h.hex⟩⟩

/-- Groups of the given number with colons between them. -/
def Text.HexGroups (n : Nat) (t : Text) : Prop :=
  ∃ gs : List Text, gs.length = n ∧ (∀ g ∈ gs, g.HexGroup) ∧ t = Text.joined ":" gs

/-- A double colon with groups before and after it. -/
def Text.Elided (m n : Nat) (t : Text) : Prop :=
  ∃ before after : Text, before.HexGroups m ∧ after.HexGroups n ∧ t = before ++ "::" ++ after

namespace Builtin

section Groups

variable {t : Text} {m n p q : Nat}

theorem mem_texts_group : t ∈ group.texts ↔ t.HexGroup := by
  have hgroup :
      group = (Regex.set (.of [.range '0' '9', .range 'a' 'f', .range 'A' 'F'])).between 1 4 := rfl
  rw [hgroup, Regex.mem_texts_between_set (by decide)]
  simp only [CharSet.contains_of, List.any_cons, List.any_nil, Bool.or_false, Bool.or_eq_true,
    SetItem.contains, Bool.and_eq_true, decide_eq_true_eq]
  constructor
  · intro h
    obtain ⟨hlow, hhigh, hhex⟩ := h
    exact ⟨List.length_pos_iff.mp hlow, hhigh, hhex⟩
  · intro h
    exact ⟨List.length_pos_iff.mpr h.nonempty, h.short, h.hex⟩

theorem mem_texts_joined :
    t ∈ group.texts * ({(":" : Text)} * group.texts) ^ n ↔ t.HexGroups (n + 1) := by
  rw [Regex.mem_mul_pow_iff_joined]
  simp only [mem_texts_group]
  rfl

theorem texts_colon : (lit ':').texts = {(":" : Text)} := Regex.texts_lit ':'

theorem texts_groupColon : groupColon.texts = group.texts * {(":" : Text)} := by
  unfold groupColon
  rw [Regex.texts_concat_pair, texts_colon]

theorem texts_colonGroup : colonGroup.texts = {(":" : Text)} * group.texts := by
  unfold colonGroup
  rw [Regex.texts_concat_pair, texts_colon]

theorem mem_texts_groupColon_pow :
    t ∈ groupColon.texts ^ (n + 1) ↔ ∃ u : Text, u.HexGroups (n + 1) ∧ t = u ++ ":" := by
  rw [texts_groupColon, pow_succ, ← mul_assoc, mul_pow_mul, Language.mem_mul]
  simp only [mem_texts_joined]
  constructor
  · intro h
    obtain ⟨u, hu, _, rfl, rfl⟩ := h
    exact ⟨u, hu, rfl⟩
  · intro h
    obtain ⟨u, hu, rfl⟩ := h
    exact ⟨u, hu, ":", rfl, rfl⟩

theorem mem_texts_colonGroup_pow :
    t ∈ colonGroup.texts ^ (n + 1) ↔ ∃ u : Text, u.HexGroups (n + 1) ∧ t = ":" ++ u := by
  rw [texts_colonGroup, pow_succ', mul_assoc, Language.mem_mul]
  simp only [mem_texts_joined]
  constructor
  · intro h
    obtain ⟨_, rfl, u, hu, rfl⟩ := h
    exact ⟨u, hu, rfl⟩
  · intro h
    obtain ⟨u, hu, rfl⟩ := h
    exact ⟨":", rfl, u, hu, rfl⟩

theorem hexGroups_zero : t.HexGroups 0 ↔ t = [] := by
  constructor
  · intro h
    obtain ⟨gs, hlength, -, rfl⟩ := h
    obtain rfl := List.length_eq_zero_iff.mp hlength
    rfl
  · intro h
    exact ⟨[], rfl, fun _ hg => absurd hg List.not_mem_nil, h⟩

theorem mem_texts_groupColon_between (hp : 1 ≤ p) : t ∈ (groupColon.between 1 p).texts ↔
    ∃ m, 1 ≤ m ∧ m ≤ p ∧ ∃ u : Text, u.HexGroups m ∧ t = u ++ ":" := by
  rw [Regex.mem_texts_between hp]
  apply exists_congr
  intro m
  cases m with
  | zero => simp
  | succ m => rw [mem_texts_groupColon_pow]

theorem mem_texts_colonGroup_between (hp : 1 ≤ p) : t ∈ (colonGroup.between 1 p).texts ↔
    ∃ n, 1 ≤ n ∧ n ≤ p ∧ ∃ u : Text, u.HexGroups n ∧ t = ":" ++ u := by
  rw [Regex.mem_texts_between hp]
  apply exists_congr
  intro n
  cases n with
  | zero => simp
  | succ n => rw [mem_texts_colonGroup_pow]

end Groups

/-! ## The forms of an address -/

section Forms

variable {t : Text} {m n p q : Nat}

theorem mem_texts_full :
    t ∈ (Regex.concat [groupColon.exactly 7, group]).texts ↔ t.HexGroups 8 := by
  rw [Regex.texts_concat_pair, Regex.texts_exactly, texts_groupColon, mul_pow_mul, mem_texts_joined]

theorem mem_texts_split (hp : 1 ≤ p) (hq : 1 ≤ q) :
    t ∈ (groupColon.between 1 p).texts * (colonGroup.between 1 q).texts ↔
      ∃ m n, 1 ≤ m ∧ m ≤ p ∧ 1 ≤ n ∧ n ≤ q ∧ t.Elided m n := by
  rw [Language.mem_mul]
  simp only [mem_texts_groupColon_between hp, mem_texts_colonGroup_between hq]
  constructor
  · intro h
    obtain ⟨_, ⟨m, hm, hmp, u, hu, rfl⟩, _, ⟨n, hn, hnq, v, hv, rfl⟩, rfl⟩ := h
    refine ⟨m, n, hm, hmp, hn, hnq, u, v, hu, hv, ?_⟩
    simp only [List.append_assoc]
    rfl
  · intro h
    obtain ⟨m, n, hm, hmp, hn, hnq, u, v, hu, hv, rfl⟩ := h
    refine ⟨u ++ ":", ⟨m, hm, hmp, u, hu, rfl⟩, ":" ++ v, ⟨n, hn, hnq, v, hv, rfl⟩, ?_⟩
    simp only [List.append_assoc]
    rfl

theorem mem_texts_before (hp : 1 ≤ p) : t ∈ (Regex.concat [groupColon.between 1 p, lit ':']).texts ↔
    ∃ m, 1 ≤ m ∧ m ≤ p ∧ t.Elided m 0 := by
  rw [Regex.texts_concat_pair, texts_colon, Language.mem_mul]
  simp only [mem_texts_groupColon_between hp]
  constructor
  · intro h
    obtain ⟨_, ⟨m, hm, hmp, u, hu, rfl⟩, _, rfl, rfl⟩ := h
    refine ⟨m, hm, hmp, u, [], hu, hexGroups_zero.mpr rfl, ?_⟩
    simp only [List.append_assoc]
    rfl
  · intro h
    obtain ⟨m, hm, hmp, u, v, hu, hv, rfl⟩ := h
    obtain rfl := hexGroups_zero.mp hv
    refine ⟨u ++ ":", ⟨m, hm, hmp, u, hu, rfl⟩, ":", rfl, ?_⟩
    simp only [List.append_assoc]
    rfl

theorem mem_texts_after (hp : 1 ≤ p) :
    t ∈ (Regex.concat [lit ':', Regex.choice [colonGroup.between 1 p, lit ':']]).texts ↔
      ∃ n, n ≤ p ∧ t.Elided 0 n := by
  rw [Regex.texts_concat_pair, texts_colon, Language.mem_mul]
  have hchoice (u : Text) : u ∈ (Regex.choice [colonGroup.between 1 p, lit ':']).texts ↔
      (∃ n, 1 ≤ n ∧ n ≤ p ∧ ∃ v : Text, v.HexGroups n ∧ u = ":" ++ v) ∨ u = ":" := by
    rw [Regex.mem_texts_choice (List.cons_ne_nil _ _), ← mem_texts_colonGroup_between hp]
    simp only [List.exists_mem_cons_iff, List.not_mem_nil, false_and, exists_false, or_false,
      texts_colon]
    rfl
  simp only [hchoice]
  constructor
  · intro h
    obtain ⟨_, rfl, _, ⟨n, -, hnp, v, hv, rfl⟩ | rfl, rfl⟩ := h
    · exact ⟨n, hnp, [], v, hexGroups_zero.mpr rfl, hv, rfl⟩
    · exact ⟨0, Nat.zero_le p, [], [], hexGroups_zero.mpr rfl, hexGroups_zero.mpr rfl, rfl⟩
  · intro h
    obtain ⟨n, hnp, u, v, hu, hv, rfl⟩ := h
    obtain rfl := hexGroups_zero.mp hu
    cases n with
    | zero =>
      obtain rfl := hexGroups_zero.mp hv
      exact ⟨":", rfl, ":", .inr rfl, rfl⟩
    | succ n => exact ⟨":", rfl, ":" ++ v, .inl ⟨n + 1, Nat.le_add_left 1 n, hnp, v, hv, rfl⟩, rfl⟩

/-- What may stand in front of a dotted quad. -/
def mixed : List (List Regex) :=
  [[groupColon.exactly 6], [groupColon.between 1 4, lit ':'],
    word "::" ++ [(Regex.concat [(among "fF").exactly 4,
      (Regex.concat [lit ':', (lit '0').between 1 4]).optional, lit ':']).optional]]

theorem texts_quad :
    (Regex.concat quad).texts = octet.texts * ({("." : Text)} * octet.texts) ^ 3 := by
  have hdotted : (Regex.concat [lit '.', octet]).texts = {("." : Text)} * octet.texts := by
    rw [Regex.texts_concat_pair, Regex.texts_lit]
    rfl
  rw [quad, Regex.texts_concat_pair, Regex.texts_exactly, hdotted]

theorem dot_mem_of_mem_texts_quad {rs : List Regex} (h : t ∈ (Regex.concat (rs ++ quad)).texts) :
    .char '.' ∈ t := by
  rw [Regex.texts_concat_append, texts_quad, pow_succ'] at h
  obtain ⟨u, -, _, ⟨v, -, _, ⟨_, ⟨_, rfl, w, -, rfl⟩, x, -, rfl⟩, rfl⟩, rfl⟩ := h
  apply List.mem_append_right
  apply List.mem_append_right
  apply List.mem_append_left
  exact List.mem_cons_self

/-- How many groups there may be on the two sides of an inner double colon. -/
def splits : List (Nat × Nat) := [(6, 1), (5, 2), (4, 3), (3, 4), (2, 5), (1, 6)]

theorem mem_texts_splits :
    (∃ s ∈ splits, t ∈ (groupColon.between 1 s.1).texts * (colonGroup.between 1 s.2).texts) ↔
      ∃ m n, 1 ≤ m ∧ 1 ≤ n ∧ m + n ≤ 7 ∧ t.Elided m n := by
  have hsum : ∀ s ∈ splits, 1 ≤ s.1 ∧ 1 ≤ s.2 ∧ s.1 + s.2 = 7 := by decide
  constructor
  · intro h
    obtain ⟨s, hs, h⟩ := h
    obtain ⟨hp, hq, hpq⟩ := hsum s hs
    obtain ⟨m, n, hm, hmp, hn, hnq, ht⟩ := (mem_texts_split hp hq).mp h
    exact ⟨m, n, hm, hn, by omega, ht⟩
  · intro h
    obtain ⟨m, n, hm, hn, hmn, ht⟩ := h
    -- The alternative that allows just as many groups at the end allows enough of them at the
    -- start.
    have hs : ∀ n < 7, 1 ≤ n → (7 - n, n) ∈ splits := by decide
    refine ⟨(7 - n, n), hs n (by omega) hn, ?_⟩
    apply (mem_texts_split (by omega) hn).mpr
    exact ⟨m, n, hm, by omega, hn, Nat.le_refl n, ht⟩

theorem elided_cases : (∃ m n, m + n ≤ 7 ∧ t.Elided m n) ↔
    (∃ m, 1 ≤ m ∧ m ≤ 7 ∧ t.Elided m 0) ∨ (∃ m n, 1 ≤ m ∧ 1 ≤ n ∧ m + n ≤ 7 ∧ t.Elided m n) ∨
      ∃ n, n ≤ 7 ∧ t.Elided 0 n := by
  constructor
  · intro h
    obtain ⟨m, n, hmn, ht⟩ := h
    cases m with
    | zero => exact .inr (.inr ⟨n, by omega, ht⟩)
    | succ m =>
      cases n with
      | zero => exact .inl ⟨m + 1, by omega, hmn, ht⟩
      | succ n => exact .inr (.inl ⟨m + 1, n + 1, by omega, by omega, hmn, ht⟩)
  · intro h
    rcases h with ⟨m, -, hm, ht⟩ | ⟨m, n, -, -, hmn, ht⟩ | ⟨n, hn, ht⟩
    · exact ⟨m, 0, hm, ht⟩
    · exact ⟨m, n, hmn, ht⟩
    · exact ⟨0, n, by omega, ht⟩

/-- The alternatives of the pattern, sorted by where the double colon is. -/
theorem mem_texts_groups : t ∈ groups.texts ↔
    t.HexGroups 8 ∨ (∃ m n, m + n ≤ 7 ∧ t.Elided m n) ∨
      ∃ rs ∈ mixed, t ∈ (Regex.concat (rs ++ quad)).texts := by
  have hforms : t ∈ groups.texts ↔ _ := Regex.mem_texts_choice (List.cons_ne_nil _ _)
  have hlast (p : Nat) : (Regex.concat [groupColon.between 1 p, lit ':', group]).texts =
      (groupColon.between 1 p).texts * (colonGroup.between 1 1).texts := by
    rw [Regex.texts_between_one]
    rfl
  have hfirst (q : Nat) : (Regex.concat [group, lit ':', colonGroup.between 1 q]).texts =
      (groupColon.between 1 1).texts * (colonGroup.between 1 q).texts := by
    rw [Regex.texts_between_one]
    exact (mul_assoc ..).symm
  have hinner (p q : Nat) : (Regex.concat [groupColon.between 1 p, colonGroup.between 1 q]).texts =
      (groupColon.between 1 p).texts * (colonGroup.between 1 q).texts := Regex.texts_concat_pair
  rw [elided_cases, ← mem_texts_full, ← mem_texts_before (by decide), ← mem_texts_splits,
    ← mem_texts_after (by decide), hforms]
  simp only [List.exists_mem_cons_iff, List.not_mem_nil, false_and, exists_false, or_false,
    mixed, splits, hlast, hfirst, hinner]
  grind

theorem search_ipv6_of_no_dot (hdot : .char '.' ∉ t) :
    ipv6.search t = true ↔ t.HexGroups 8 ∨ ∃ m n, m + n ≤ 7 ∧ t.Elided m n := by
  have hforms : ipv6.search t = true ↔ t ∈ groups.texts := Regex.foundIn_whole rfl t
  have hquad : ¬ ∃ rs ∈ mixed, t ∈ (Regex.concat (rs ++ quad)).texts := by
    intro h
    obtain ⟨rs, -, h⟩ := h
    exact hdot (dot_mem_of_mem_texts_quad h)
  rw [hforms, mem_texts_groups, or_iff_left hquad]

end Forms

/-- Of the texts without a dot the type `ipv6` accepts just eight groups with colons between them
and a double colon among seven groups or fewer. -/
theorem ipv6_without_dot (r : Registry) (probes : Probes) (value : Text)
    (hipv6 : r.lookup "ipv6" = (types probes).get? "ipv6") (hdot : .char '.' ∉ value) :
    (Expression.compile r "ipv6").accepts (some value) = true ↔
      value.HexGroups 8 ∨ ∃ m n, m + n ≤ 7 ∧ value.Elided m n := by
  have hname : ("ipv6" : Text).Name := ⟨List.cons_ne_nil _ _, by decide +kernel⟩
  rw [Expression.accepts_pattern hname (by decide) hipv6]
  exact search_ipv6_of_no_dot hdot

/-- A double colon between groups, and one that stands for all of them. -/
theorem ipv6_of_double_colons :
    let r := Registry.new 0 (types World.empty.probes) []
    let accepts (value : Text) := (Expression.compile r "ipv6").accepts (some value)
    accepts "2001:DB8::7" = true ∧ accepts "::" = true := by
  intro r accepts
  have hipv6 (value : Text) := ipv6_without_dot r World.empty.probes value rfl
  constructor
  · apply (hipv6 _ (by decide)).mpr
    exact .inr ⟨2, 1, by decide, "2001:DB8", "7", ⟨["2001", "DB8"], rfl, by decide, rfl⟩,
      ⟨["7"], rfl, by decide, rfl⟩, rfl⟩
  · apply (hipv6 _ (by decide)).mpr
    exact .inr ⟨0, 0, by decide, [], [], hexGroups_zero.mpr rfl, hexGroups_zero.mpr rfl, rfl⟩

end Builtin

end TreeSpec
