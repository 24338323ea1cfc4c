import TreeSpec.Proofs.Registry.Lookup
import TreeSpec.Proofs.Spec.Compilation
import TreeSpec.Proofs.Spec.Grammar

/-!
# The views of a registry

The types of a registry can be listed, described and looked up, names can be resolved, and specs can
be compiled. Each of these goes through the tiers on its own, and they agree whatever was registered
in which tier.
-/

namespace TreeSpec

set_option autoImplicit false

section Order

namespace CodePoint

/-- A character is never half of a pair. -/
theorem toNat_injective {c d : CodePoint} (h : c.toNat = d.toNat) : c = d := by
  have hapart : ∀ (c : Char) (i : Fin 0x800), c.toNat ≠ firstHalf + i := by
    intro c i heq
    have hvalid : c.toNat.isValidChar := c.valid
    have hi := i.isLt
    unfold firstHalf at heq
    unfold Nat.isValidChar at hvalid
    omega
  cases c with
  | char c =>
    cases d with
    | char d => exact congrArg char (Char.toNat_inj.mp h)
    | half j => exact absurd h (hapart c j)
  | half i =>
    cases d with
    | char d => exact absurd h.symm (hapart d i)
    | half j =>
      exact congrArg half (Fin.ext (Nat.add_left_cancel h))

instance : Trans (· < · : CodePoint → CodePoint → Prop) (· < ·) (· < ·) := ⟨Nat.lt_trans⟩

instance : Std.Trichotomous (· < · : CodePoint → CodePoint → Prop) := by
  refine ⟨fun c d hcd hdc => toNat_injective ?_⟩
  exact Nat.le_antisymm (Nat.not_lt.mp hdc) (Nat.not_lt.mp hcd)

end CodePoint

variable {name other : Text} {names : List Text}

theorem mem_insertName : other ∈ insertName name names ↔ other = name ∨ other ∈ names := by
  induction names with
  | nil => exact List.mem_cons
  | cons n ns ih =>
    rw [insertName]
    split
    · exact List.mem_cons
    · split
      · next heq =>
        subst heq
        rw [List.mem_cons, or_self_left]
      · rw [List.mem_cons, List.mem_cons, ih]
        exact or_left_comm

theorem increasing_insertName (h : names.Pairwise (· < ·)) :
    (insertName name names).Pairwise (· < ·) := by
  induction names with
  | nil => exact List.pairwise_singleton ..
  | cons n ns ih =>
    obtain ⟨hn, hns⟩ := List.pairwise_cons.mp h
    rw [insertName]
    split
    · next hlt =>
      apply List.pairwise_cons.mpr
      refine ⟨?_, h⟩
      intro other hother
      rcases List.mem_cons.mp hother with rfl | hother
      · exact hlt
      · exact List.lt_trans hlt (hn other hother)
    · next hlt =>
      split
      · exact h
      · next hne =>
        apply List.pairwise_cons.mpr
        refine ⟨?_, ih hns⟩
        intro other hother
        rcases mem_insertName.mp hother with rfl | hother
        -- Of two texts one comes first, or they are the same.
        · apply Classical.byContradiction
          intro hgt
          exact hne (List.le_antisymm hgt hlt)
        · exact hn other hother

end Order

namespace Tier

/-- The place of a tier in the order of precedence. -/
def rank : Tier → Nat
  | own => 0
  | shared => 1
  | builtin => 2

theorem forall_iff {P : Tier → Prop} : (∀ t, P t) ↔ P own ∧ P shared ∧ P builtin := by
  constructor
  · intro h
    exact ⟨h own, h shared, h builtin⟩
  · rintro ⟨ho, hs, hb⟩ t
    cases t
    · exact ho
    · exact hs
    · exact hb

end Tier

namespace Registry

def typesOf (r : Registry) : Tier → Dictionary Matcher
  | .own => r.own
  | .shared => r.shared
  | .builtin => r.builtin

/-- The tier has a type of the name, and none of those that go before it has one. -/
def Decides (r : Registry) (t : Tier) (name : Text) : Prop :=
  name ∈ (r.typesOf t).keys ∧ ∀ u : Tier, u.rank < t.rank → name ∉ (r.typesOf u).keys

variable {r : Registry} {name : Text}

theorem not_mem_keys_iff {d : Dictionary Matcher} : name ∉ d.keys ↔ d.get? name = none := by
  rw [← d.isSome_get? name, Option.not_isSome_iff_eq_none]

theorem find?_eq (r : Registry) (name : Text) :
    r.find? name = ((r.own.get? name).map (.own, ·)).or
      (((r.shared.get? name).map (.shared, ·)).or ((r.builtin.get? name).map (.builtin, ·))) := by
  unfold find? tiers
  cases ho : r.own.get? name <;> cases hs : r.shared.get? name <;> simp [ho, hs]

/-- What is found for a name comes from the tier that decides on it. -/
theorem find?_eq_some {t : Tier} {m : Matcher} :
    r.find? name = some (t, m) ↔ r.Decides t name ∧ r.lookup name = some m := by
  unfold Decides
  rw [lookup_eq, find?_eq, ← Dictionary.isSome_get?]
  simp only [not_mem_keys_iff, Tier.forall_iff]
  cases ho : r.own.get? name <;> cases hs : r.shared.get? name <;>
    cases hb : r.builtin.get? name <;> cases t <;> simp [ho, hs, hb, typesOf, Tier.rank]

theorem isSome_find? : (r.find? name).isSome = (r.lookup name).isSome := by
  unfold lookup
  rw [Option.isSome_map]

/-- A name is listed if it is found. -/
theorem mem_names : name ∈ r.names ↔ (r.lookup name).isSome := by
  have hlist : ∀ keys : List Text, name ∈ keys.foldr insertName [] ↔ name ∈ keys := by
    intro keys
    induction keys with
    | nil => exact Iff.rfl
    | cons key keys ih => rw [List.foldr_cons, mem_insertName, ih, List.mem_cons]
  unfold names
  rw [hlist, lookup_eq, Option.isSome_or, Option.isSome_or, Bool.or_eq_true, Bool.or_eq_true,
    Dictionary.isSome_get?, Dictionary.isSome_get?, Dictionary.isSome_get?]
  simp [tiers]

theorem increasing_names (r : Registry) : r.names.Pairwise (· < ·) := by
  unfold names
  induction r.tiers.flatMap fun t => t.2.keys with
  | nil => exact .nil
  | cons key keys ih => exact increasing_insertName ih

theorem mem_describe {info : TypeInfo} : (name, info) ∈ r.describe ↔
    ∃ m, r.lookup name = some m ∧ r.Decides info.tier name ∧ info.kind = m.kind ∧
      info.description = m.description := by
  unfold describe
  rw [List.mem_filterMap]
  constructor
  · rintro ⟨other, -, h⟩
    obtain ⟨⟨tier, m⟩, hfind, heq⟩ := Option.map_eq_some_iff.mp h
    cases heq
    obtain ⟨htier, hlookup⟩ := find?_eq_some.mp hfind
    exact ⟨m, hlookup, htier, rfl, rfl⟩
  · rintro ⟨m, hlookup, htier, hkind, hdescription⟩
    obtain ⟨kind, tier, description⟩ := info
    obtain rfl : kind = m.kind := hkind
    obtain rfl : description = m.description := hdescription
    have hlisted : name ∈ r.names := mem_names.mpr (Option.isSome_of_eq_some hlookup)
    refine ⟨name, hlisted, ?_⟩
    rw [find?_eq_some.mpr ⟨htier, hlookup⟩]
    rfl

theorem names_describe (r : Registry) : r.describe.map (·.1) = r.names := by
  unfold describe
  rw [List.map_filterMap]
  refine (List.filterMap_congr fun name hname => ?_).trans List.filterMap_some
  have hfound := mem_names.mp hname
  rw [← isSome_find?] at hfound
  obtain ⟨⟨tier, m⟩, hm⟩ := Option.isSome_iff_exists.mp hfound
  rw [hm]
  rfl

theorem isSome_lookupNegated : (r.lookupNegated name).isSome ↔
    ∃ base, name = "no" ++ base ∧ base ≠ [] ∧ base ∈ r.names := by
  constructor
  · intro h
    obtain ⟨⟨base, inverted⟩, hb⟩ := Option.isSome_iff_exists.mp h
    obtain ⟨hname, hne, m, hm, -⟩ := lookupNegated_eq_some.mp hb
    exact ⟨base, hname, hne, mem_names.mpr (Option.isSome_of_eq_some hm)⟩
  · rintro ⟨base, hname, hne, hbase⟩
    obtain ⟨m, hm⟩ := Option.isSome_iff_exists.mp (mem_names.mp hbase)
    exact Option.isSome_of_eq_some (lookupNegated_eq_some.mpr ⟨hname, hne, m, hm, rfl⟩)

theorem isSome_resolve :
    (r.resolve name).isSome ↔ name ∈ r.names ∨ (r.lookupNegated name).isSome := by
  rw [isSome_lookupNegated]
  simp only [mem_names]
  exact isRegistered_iff

/-- A name that is no reserved word is a spec by itself, which is valid if the name stands for
something. -/
theorem isValid_compile_name (hname : name.Name) (hne : name ≠ Alternative.optionalWord) :
    (Expression.compile r name).isValid = r.isRegistered name := by
  have hknown : Alternative.isKnown r ⟨name, none⟩ = r.isRegistered name := by
    simp [Alternative.isKnown, Alternative.isOptional, hne]
  rw [Bool.eq_iff_iff, Expression.isValid_compile_iff, Alternative.parse_name hname, ← hknown]
  simp

/-- The names that are listed are those that are found, in increasing order, and they are described
in that order, each by its matcher and the tier that decides on it. A negation is found where the
rest of the name is listed, and a name stands for something if it is listed, which goes first, or a
negation that is found. The names that stand for something are those that are valid as specs, the
reserved word apart. -/
theorem views_agree (r : Registry) :
    r.names.Pairwise (· < ·) ∧
    (∀ name, name ∈ r.names ↔ (r.lookup name).isSome) ∧
    r.describe.map (·.1) = r.names ∧
    (∀ name info, (name, info) ∈ r.describe ↔ ∃ m, r.lookup name = some m ∧
      r.Decides info.tier name ∧ info.kind = m.kind ∧ info.description = m.description) ∧
    (∀ name, (r.lookupNegated name).isSome ↔
      ∃ base, name = "no" ++ base ∧ base ≠ [] ∧ base ∈ r.names) ∧
    (∀ name, (r.resolve name).isSome ↔ name ∈ r.names ∨ (r.lookupNegated name).isSome) ∧
    (∀ name m, r.lookup name = some m → r.resolve name = some ⟨name, m, false⟩) ∧
    (∀ name base inverted, r.lookup name = none → r.lookupNegated name = some (base, inverted) →
      r.resolve name = some ⟨base, inverted, true⟩) ∧
    (∀ name, r.isRegistered name = (r.resolve name).isSome) ∧
    ∀ name : Text, name.Name → name ≠ Alternative.optionalWord →
      (Expression.compile r name).isValid = r.isRegistered name := by
  refine ⟨increasing_names r, fun _ => mem_names, names_describe r, fun _ _ => mem_describe,
    fun _ => isSome_lookupNegated, fun _ => isSome_resolve, fun _ _ => resolve_of_lookup, ?_,
    fun _ => rfl, fun _ => isValid_compile_name⟩
  intro name base inverted hname hnegated
  rw [resolve_of_lookup_eq_none hname, hnegated]
  rfl

/-- A name in two tiers, which is also the negation of a name in the third one. -/
theorem views_of_negation_that_is_listed :
    let r := (Registry.new 0 [("c", .undefined "1"), ("noc", .undefined "2")]
      [("noc", .undefined "3")]).insert "b" (.undefined "4")
    r.names = ["b", "c", "noc"] ∧
      (("noc" : Text), (⟨"matcher", .shared, "3"⟩ : TypeInfo)) ∈ r.describe ∧
      r.resolve "noc" = some ⟨"noc", .undefined "3", false⟩ ∧
      r.resolve "nob" = some ⟨"b", .negated (.undefined "4"), true⟩ ∧
      (Expression.compile r "nonoc").isValid = true ∧
      (Expression.compile r "nonob").isValid = false := by
  intro r
  obtain ⟨-, -, -, hdescribe, -, -, hexact, hnegated, -, hcompile⟩ := views_agree r
  refine ⟨by decide +kernel, ?_, hexact _ _ rfl, hnegated _ _ _ rfl rfl, ?_, ?_⟩
  · refine (hdescribe _ _).mpr ⟨.undefined "3", rfl, ⟨by decide +kernel, ?_⟩, rfl, rfl⟩
    exact Tier.forall_iff.mpr ⟨by decide +kernel, by decide +kernel, by decide +kernel⟩
  · exact (hcompile "nonoc" ⟨by decide, by decide +kernel⟩ (by decide)).trans (by decide +kernel)
  · exact (hcompile "nonob" ⟨by decide, by decide +kernel⟩ (by decide)).trans (by decide +kernel)

end Registry

end TreeSpec
