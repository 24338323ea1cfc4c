import TreeSpec.Proofs.Builtin.Quads

/-!
# Addresses that end in a dotted quad

The last two groups of an address may be written as a dotted quad. In full that leaves six groups in
front of it. With a double colon it leaves five groups or fewer, wherever the double colon stands.
The pattern allows for part of these only: up to four groups before the double colon and none after
it, or none before it and the groups that mark a mapped address after it.
-/

namespace TreeSpec

set_option autoImplicit false

/-- Groups of the given number with a colon after each. -/
def Text.EndedGroups (n : Nat) (t : Text) : Prop :=
  ∃ gs : List Text, gs.length = n ∧ (∀ g ∈ gs, g.HexGroup) ∧ t = gs.flatMap (· ++ (":" : Text))

/-- A double colon with groups before it and with groups after it that end in a colon. -/
structure Text.Opened (m n : Nat) (t before after : Text) : Prop where
  left : before.HexGroups m
  right : after.EndedGroups n
  spelled : t = before ++ "::" ++ after

/-- A group of four letters f, and perhaps one of zeros, with a colon after each. -/
def Text.MappedMark (t : Text) : Prop :=
  ∃ f : Text, f.length = 4 ∧ (∀ c ∈ f, c ∈ ("fF" : Text)) ∧
    (t = f ++ ":" ∨ ∃ z : Text, 1 ≤ z.length ∧ z.length ≤ 4 ∧ (∀ c ∈ z, c = '0') ∧
      t = f ++ ":" ++ z ++ ":")

theorem Text.MappedMark.endedGroups {t : Text} (h : t.MappedMark) :
    ∃ n, n ≤ 2 ∧ t.EndedGroups n := by
  obtain ⟨f, hlength, hall, hrest⟩ := h
  have hf : f.HexGroup := by
    refine ⟨List.ne_nil_of_length_pos (by omega), by omega, fun c hc => ?_⟩
    have hhex : ∀ c ∈ ("fF" : Text), ('0' ≤ c ∧ c ≤ '9') ∨ ('a' ≤ c ∧ c ≤ 'f') ∨
        ('A' ≤ c ∧ c ≤ 'F') := by decide
    exact hhex c (hall c hc)
  rcases hrest with rfl | ⟨z, hlow, hhigh, hzeros, rfl⟩
  · exact ⟨1, by decide, [f], rfl, List.forall_mem_singleton.mpr hf, (List.append_nil _).symm⟩
  · have hz : z.HexGroup := by
      refine ⟨List.ne_nil_of_length_pos hlow, hhigh, fun c hc => ?_⟩
      rw [hzeros c hc]
      decide
    refine ⟨2, by decide, [f, z], rfl, ?_, ?_⟩
    · exact List.forall_mem_cons.mpr ⟨hf, List.forall_mem_singleton.mpr hz⟩
    · simp only [List.flatMap_cons, List.flatMap_nil, List.append_nil, List.append_assoc]

theorem Text.HexGroups.chars {n : Nat} {t : Text} (h : t.HexGroups n) :
    ∀ c ∈ t, c = ':' ∨ ('0' ≤ c ∧ c ≤ '9') ∨ ('a' ≤ c ∧ c ≤ 'f') ∨ ('A' ≤ c ∧ c ≤ 'F') := by
  intro c hc
  obtain ⟨gs, -, hgs, rfl⟩ := h
  rcases Text.of_mem_joined hc with hcolon | ⟨g, hg, hc⟩
  · exact .inl (List.mem_singleton.mp hcolon)
  · exact .inr ((hgs g hg).hex c hc)

namespace Builtin

variable {t : Text} {m n : Nat}

theorem dot_not_mem_hexGroups (h : t.HexGroups n) : .char '.' ∉ t := by
  intro hdot
  have hchar := h.chars _ hdot
  revert hchar
  decide

theorem dot_not_mem_elided (h : t.Elided m n) : .char '.' ∉ t := by
  obtain ⟨before, after, hbefore, hafter, rfl⟩ := h
  simp only [List.mem_append, not_or]
  exact ⟨⟨dot_not_mem_hexGroups hbefore, by decide⟩, dot_not_mem_hexGroups hafter⟩

theorem texts_word (s : Text) : (Regex.concat (word s)).texts = {s} := by
  induction s with
  | nil => rfl
  | cons c s ih =>
    have hcons : word (c :: s) = lit c :: word s := rfl
    rw [hcons, Regex.texts_concat_cons, Regex.texts_lit, ih]
    exact Set.image2_singleton

theorem contains_among {s : Text} {c : CodePoint} :
    (CharSet.of (s.map .char)).contains c = true ↔ c ∈ s := by
  rw [CharSet.contains_of]
  simp [SetItem.contains]

theorem mem_texts_endedGroups :
    t ∈ (Regex.concat [groupColon.exactly 6]).texts ↔ t.EndedGroups 6 := by
  have hexactly : (Regex.concat [groupColon.exactly 6]).texts = groupColon.texts ^ 6 :=
    Regex.texts_exactly
  rw [hexactly, texts_groupColon, Regex.mem_pow_iff_flatMap]
  simp only [mem_texts_group]
  rfl

theorem mem_texts_zeros :
    t ∈ ((lit '0').between 1 4).texts ↔ 1 ≤ t.length ∧ t.length ≤ 4 ∧ ∀ c ∈ t, c = '0' := by
  unfold lit
  rw [Regex.mem_texts_between_set (by decide)]
  simp [SetItem.contains]

theorem mem_texts_mark : t ∈ (Regex.concat [(among "fF").exactly 4,
    (Regex.concat [lit ':', (lit '0').between 1 4]).optional, lit ':']).texts ↔ t.MappedMark := by
  have hletters (f : Text) :
      f ∈ (among "fF").texts ^ 4 ↔ f.length = 4 ∧ ∀ c ∈ f, c ∈ ("fF" : Text) := by
    unfold among
    rw [Regex.mem_texts_set_pow]
    simp only [contains_among]
  rw [Regex.texts_concat_cons, Regex.texts_concat_pair, Regex.texts_exactly, texts_colon]
  constructor
  · intro h
    obtain ⟨f, hf, _, ⟨o, ho, _, rfl, rfl⟩, rfl⟩ := h
    obtain ⟨hlength, hall⟩ := (hletters f).mp hf
    rcases Regex.mem_texts_optional.mp ho with rfl | ho
    · exact ⟨f, hlength, hall, .inl rfl⟩
    · rw [Regex.texts_concat_pair, texts_colon] at ho
      obtain ⟨_, rfl, z, hz, rfl⟩ := ho
      obtain ⟨hlow, hhigh, hzeros⟩ := mem_texts_zeros.mp hz
      refine ⟨f, hlength, hall, .inr ⟨z, hlow, hhigh, hzeros, ?_⟩⟩
      simp only [List.append_assoc]
  · intro h
    obtain ⟨f, hlength, hall, hrest⟩ := h
    have hf := (hletters f).mpr ⟨hlength, hall⟩
    rcases hrest with rfl | ⟨z, hlow, hhigh, hzeros, rfl⟩
    · exact ⟨f, hf, _, ⟨[], Regex.mem_texts_optional.mpr (.inl rfl), _, rfl, rfl⟩, rfl⟩
    · have hz := mem_texts_zeros.mpr ⟨hlow, hhigh, hzeros⟩
      have ho : ":" ++ z ∈ (Regex.concat [lit ':', (lit '0').between 1 4]).optional.texts := by
        rw [Regex.mem_texts_optional, Regex.texts_concat_pair, texts_colon]
        exact .inr ⟨_, rfl, z, hz, rfl⟩
      refine ⟨f, hf, _, ⟨_, ho, _, rfl, rfl⟩, ?_⟩
      simp only [List.append_assoc]

theorem endedGroups_zero : t.EndedGroups 0 ↔ t = [] := by
  constructor
  · intro h
    obtain ⟨gs, hlength, -, rfl⟩ := h
    rw [List.length_eq_zero_iff.mp hlength]
    rfl
  · intro h
    exact ⟨[], rfl, fun _ hg => absurd hg List.not_mem_nil, h⟩

/-- What may stand in front of the dotted quad. -/
theorem mem_texts_mixed : (∃ rs ∈ mixed, t ∈ (Regex.concat rs).texts) ↔
    t.EndedGroups 6 ∨ (∃ m, 1 ≤ m ∧ m ≤ 4 ∧ t.Elided m 0) ∨
      ∃ after : Text, (after = [] ∨ after.MappedMark) ∧ t = "::" ++ after := by
  simp only [mixed, List.exists_mem_cons_iff, List.not_mem_nil, false_and, exists_false, or_false,
    mem_texts_endedGroups, mem_texts_before (show 1 ≤ 4 by decide),
    Regex.texts_concat_append, texts_word]
  refine or_congr_right (or_congr_right ?_)
  rw [Language.mem_mul]
  constructor
  · intro h
    obtain ⟨_, rfl, after, hafter, rfl⟩ := h
    exact ⟨after, (Regex.mem_texts_optional.mp hafter).imp_right mem_texts_mark.mp, rfl⟩
  · intro h
    obtain ⟨after, hafter, rfl⟩ := h
    exact ⟨_, rfl, after, Regex.mem_texts_optional.mpr (hafter.imp_right mem_texts_mark.mpr), rfl⟩

/-- The double colons among them stand before or after all groups. -/
theorem opened_cases : (∃ (m n : Nat) (before after : Text), m + n ≤ 5 ∧ t.Opened m n before after ∧
      (n = 0 ∧ m ≤ 4 ∨ m = 0 ∧ after.MappedMark)) ↔
    (∃ m, 1 ≤ m ∧ m ≤ 4 ∧ t.Elided m 0) ∨
      ∃ after : Text, (after = [] ∨ after.MappedMark) ∧ t = "::" ++ after := by
  constructor
  · intro h
    obtain ⟨m, n, before, after, -, ⟨hleft, hright, rfl⟩, ⟨rfl, hm⟩ | ⟨rfl, hmark⟩⟩ := h
    · obtain rfl := endedGroups_zero.mp hright
      cases m with
      | zero =>
        obtain rfl := hexGroups_zero.mp hleft
        exact .inr ⟨[], .inl rfl, rfl⟩
      | succ m =>
        exact .inl ⟨m + 1, Nat.le_add_left 1 m, hm, before, [], hleft, hexGroups_zero.mpr rfl, rfl⟩
    · obtain rfl := hexGroups_zero.mp hleft
      exact .inr ⟨after, .inr hmark, rfl⟩
  · intro h
    rcases h with ⟨m, -, hm, before, after, hleft, hright, rfl⟩ | ⟨after, rfl | hmark, rfl⟩
    · obtain rfl := hexGroups_zero.mp hright
      exact ⟨m, 0, before, [], by omega, ⟨hleft, endedGroups_zero.mpr rfl, rfl⟩, .inl ⟨rfl, hm⟩⟩
    · exact ⟨0, 0, [], [], by omega, ⟨hexGroups_zero.mpr rfl, endedGroups_zero.mpr rfl, rfl⟩,
        .inl ⟨rfl, by omega⟩⟩
    · obtain ⟨n, hn, hright⟩ := hmark.endedGroups
      exact ⟨0, n, [], after, by omega, ⟨hexGroups_zero.mpr rfl, hright, rfl⟩, .inr ⟨rfl, hmark⟩⟩

theorem search_ipv6_of_dot (hascii : t.Ascii) (hdot : .char '.' ∈ t) : ipv6.search t = true ↔
    ∃ u q : Text, q.Quad ∧ t = u ++ q ∧
      (u.EndedGroups 6 ∨ ∃ (m n : Nat) (before after : Text), m + n ≤ 5 ∧
        u.Opened m n before after ∧
        (n = 0 ∧ m ≤ 4 ∨ m = 0 ∧ after.MappedMark)) := by
  have hforms : ipv6.search t = true ↔ t ∈ groups.texts := Regex.foundIn_whole rfl t
  have hnone : ¬ (t.HexGroups 8 ∨ ∃ m n, m + n ≤ 7 ∧ t.Elided m n) := by
    intro h
    rcases h with h | ⟨m, n, -, h⟩
    · exact dot_not_mem_hexGroups h hdot
    · exact dot_not_mem_elided h hdot
  rw [hforms, mem_texts_groups, ← or_assoc, or_iff_right hnone]
  simp only [opened_cases, ← mem_texts_mixed, Regex.texts_concat_append]
  constructor
  · intro h
    obtain ⟨rs, hrs, u, hu, q, hq, rfl⟩ := h
    have hquad := (mem_texts_quad (Text.Ascii.append.mp hascii).2).mp hq
    exact ⟨u, q, hquad, rfl, rs, hrs, hu⟩
  · intro h
    obtain ⟨u, q, hquad, rfl, rs, hrs, hu⟩ := h
    have hq := (mem_texts_quad (Text.Ascii.append.mp hascii).2).mpr hquad
    exact ⟨rs, hrs, u, hu, q, hq, rfl⟩

/-- Of the texts of ASCII with a dot the type `ipv6` accepts a dotted quad after six groups, or
after a double colon. With the double colon there are up to four groups before it and none after it,
or none before it and the mark of a mapped address after it. -/
theorem ipv6_with_dot (r : Registry) (probes : Probes) (value : Text)
    (hipv6 : r.lookup "ipv6" = (types probes).get? "ipv6") (hascii : value.Ascii)
    (hdot : .char '.' ∈ value) :
    (Expression.compile r "ipv6").accepts (some value) = true ↔
      ∃ u q : Text, q.Quad ∧ value = u ++ q ∧
        (u.EndedGroups 6 ∨ ∃ (m n : Nat) (before after : Text), m + n ≤ 5 ∧
          u.Opened m n before after ∧
          (n = 0 ∧ m ≤ 4 ∨ m = 0 ∧ after.MappedMark)) := by
  have haccepts := accepts_network probes (.tail _ (.tail _ (.head _))) hipv6 value
  exact haccepts.trans (search_ipv6_of_dot hascii hdot)

/-- Six groups, and the mark of a mapped address with a group of zeros, in front of a quad. -/
theorem ipv6_of_mapped_address :
    let r := Registry.new 0 (types World.empty.probes) []
    let accepts (value : Text) : Bool := (Expression.compile r "ipv6").accepts (some value)
    accepts "1:2:3:4:5:6:7.8.9.255" = true ∧ accepts "::fFfF:00:7.8.9.255" = true := by
  intro r accepts
  have hipv6 (value : Text) := ipv6_with_dot r World.empty.probes value rfl
  have hquad : ("7.8.9.255" : Text).Quad := ⟨["7", "8", "9", "255"], rfl, by decide, rfl⟩
  constructor
  · apply (hipv6 _ (by decide) (by decide)).mpr
    exact ⟨"1:2:3:4:5:6:", _, hquad, rfl,
      .inl ⟨["1", "2", "3", "4", "5", "6"], rfl, by decide, rfl⟩⟩
  · have hmark : ("fFfF:00:" : Text).MappedMark :=
      ⟨"fFfF", rfl, by decide, .inr ⟨"00", by decide, by decide, by decide, rfl⟩⟩
    apply (hipv6 _ (by decide) (by decide)).mpr
    exact ⟨"::fFfF:00:", _, hquad, rfl, .inr ⟨0, 2, [], "fFfF:00:", by decide,
      ⟨hexGroups_zero.mpr rfl, ⟨["fFfF", "00"], rfl, by decide, rfl⟩, rfl⟩, .inr ⟨rfl, hmark⟩⟩⟩

/-- Five groups before a double colon are refused, though they leave room for it. -/
theorem ipv6_refuses_five_groups :
    let r := Registry.new 0 (types World.empty.probes) []
    let value : Text := "1:2:3:4:5::7.8.9.255"
    value.Ascii ∧ .char '.' ∈ value ∧
      (∃ u q : Text, q.Quad ∧ value = u ++ q ∧
        ∃ (m n : Nat) (before after : Text), m + n ≤ 5 ∧ u.Opened m n before after) ∧
      (Expression.compile r "ipv6").accepts (some value) = false := by
  intro r value
  refine ⟨by decide, by decide, ?_, ?_⟩
  · refine ⟨"1:2:3:4:5::", "7.8.9.255", ⟨["7", "8", "9", "255"], rfl, by decide, rfl⟩, rfl, ?_⟩
    exact ⟨5, 0, "1:2:3:4:5", [], by decide,
      ⟨⟨["1", "2", "3", "4", "5"], rfl, by decide, rfl⟩, endedGroups_zero.mpr rfl, rfl⟩⟩
  · have haccepts :=
      accepts_network World.empty.probes (.tail _ (.tail _ (.head _))) (r := r) rfl value
    rw [← Bool.not_eq_true, haccepts]
    decide

end Builtin

end TreeSpec
