import TreeSpec.Proofs.Builtin.Addresses
import TreeSpec.Proofs.Builtin.Numbers
import TreeSpec.Proofs.Pattern.Forms
import TreeSpec.Proofs.Text.Decimals

/-!
# Dotted quads and lengths of networks

In ASCII an octet is a decimal up to 255, and four of them with dots between them are an address. A
network is an address with a slash and the length of a mask after it: a decimal up to 32, or up to
128 for an address of eight groups. As no address has a slash in it, no text is both.
-/

namespace TreeSpec

set_option autoImplicit false

/-- Four decimals up to 255 with dots between them. -/
def Text.Quad (t : Text) : Prop :=
  ∃ os : List Text, os.length = 4 ∧ (∀ o ∈ os, o.DecimalUpTo 255) ∧ t = Text.joined "." os

namespace Text

variable {t separator : Text} {parts : List Text}

theorem mem_joined {c : CodePoint} (ht : t ∈ parts) (hc : c ∈ t) : c ∈ joined separator parts := by
  unfold joined
  induction parts with
  | nil => cases ht
  | cons p parts ih =>
    cases parts with
    | nil =>
      rw [List.mem_singleton.mp ht] at hc
      rw [List.intercalate_singleton]
      exact hc
    | cons q parts =>
      rw [List.intercalate_cons_cons]
      rcases List.mem_cons.mp ht with rfl | ht
      · exact List.mem_append_left _ (List.mem_append_left _ hc)
      · exact List.mem_append_right _ (ih ht)

theorem of_mem_joined {c : CodePoint} (hc : c ∈ joined separator parts) :
    c ∈ separator ∨ ∃ p ∈ parts, c ∈ p := by
  unfold joined at hc
  induction parts with
  | nil => cases hc
  | cons p parts ih =>
    cases parts with
    | nil =>
      rw [List.intercalate_singleton] at hc
      exact .inr ⟨p, List.mem_cons_self, hc⟩
    | cons q parts =>
      rw [List.intercalate_cons_cons] at hc
      rcases List.mem_append.mp hc with hc | hc
      · rcases List.mem_append.mp hc with hc | hc
        · exact .inr ⟨p, List.mem_cons_self, hc⟩
        · exact .inl hc
      · rcases ih hc with hc | ⟨p', hp', hc⟩
        · exact .inl hc
        · exact .inr ⟨p', List.mem_cons_of_mem p hp', hc⟩

theorem Ascii.of_joined (h : (joined separator parts).Ascii) : ∀ p ∈ parts, p.Ascii :=
  fun _ hp _ hc => h _ (mem_joined hp hc)

end Text

namespace Builtin

/-! ## Decimals in patterns -/

/-- All items of the set are digits. -/
def IsNumeric (s : CharSet) : Prop :=
  s = .of s.items ∧ ∀ i ∈ s.items, (greatestDigit? i).isSome = true

instance : DecidablePred IsNumeric := fun s =>
  inferInstanceAs (Decidable (s = .of s.items ∧ ∀ i ∈ s.items, (greatestDigit? i).isSome = true))

/-- The texts in digits of ASCII that have the form. -/
def spellings : List CharSet → List Text
  | [] => [[]]
  | s :: f => (spellings f).flatMap fun t => (("0123456789" : Text).filter s.contains).map (· :: t)

/-- The forms of an expression are those of the decimals up to a bound: so are all their spellings
in ASCII, and each of these decimals has one of the forms. -/
def SpellsDecimals (r : Regex) (bound : Nat) : Prop :=
  ∃ fs, r.forms? = some fs ∧
    (∀ f ∈ fs, (∀ s ∈ f, IsNumeric s) ∧ ∀ t ∈ spellings f, t.DecimalUpTo bound) ∧
    ∀ n < bound + 1, ∃ f ∈ fs, Regex.HasForm (Text.decimal n) f

section Decimals

variable {r : Regex} {s : CharSet} {t : Text} {f : List CharSet} {c : CodePoint} {bound : Nat}

theorem isDigit_of_isNumeric (h : IsNumeric s) (hc : s.contains c = true) :
    Text.isDigit c = true := by
  rw [h.1, CharSet.contains_of] at hc
  obtain ⟨i, hi, hc⟩ := List.any_eq_true.mp hc
  obtain ⟨d, hd⟩ := Option.isSome_iff_exists.mp (h.2 i hi)
  exact (le_greatestDigit hd hc).1

theorem mem_digits (h : '0' ≤ c ∧ c ≤ '9') : c ∈ ("0123456789" : Text) := by
  have hall : ∀ n < 10, Text.decimal n ⊆ ("0123456789" : Text) := by decide
  apply hall (Text.digitValue c) (Text.digitValue_lt c)
  rw [Text.decimal_digitValue h]
  exact List.mem_cons_self

theorem mem_spellings (ht : Regex.HasForm t f) (hf : ∀ s ∈ f, IsNumeric s) (hascii : t.Ascii) :
    t ∈ spellings f := by
  induction ht with
  | nil => exact List.mem_cons_self
  | cons hc _ ih =>
    obtain ⟨hs, hf⟩ := List.forall_mem_cons.mp hf
    obtain ⟨hfirst, hrest⟩ := List.forall_mem_cons.mp hascii
    have hdigit := (Text.isDigit_ascii_iff hfirst).mp (isDigit_of_isNumeric hs hc)
    apply List.mem_flatMap.mpr
    exact ⟨_, ih hf hrest, List.mem_map.mpr ⟨_, List.mem_filter.mpr ⟨mem_digits hdigit, hc⟩, rfl⟩⟩

theorem SpellsDecimals.mem_texts_iff (h : SpellsDecimals r bound) (hascii : t.Ascii) :
    t ∈ r.texts ↔ t.DecimalUpTo bound := by
  obtain ⟨fs, hforms, hsound, hcomplete⟩ := h
  rw [Regex.mem_texts_of_forms? hforms]
  constructor
  · intro ht
    obtain ⟨f, hf, ht⟩ := ht
    obtain ⟨hnumeric, hdecimals⟩ := hsound f hf
    exact hdecimals t (mem_spellings ht hnumeric hascii)
  · intro ht
    rw [ht.eq_decimal]
    exact hcomplete _ (Nat.lt_succ_of_le ht.le)

end Decimals

/-! ## Quads -/

section Quads

variable {t : Text}

theorem spellsDecimals_octet : SpellsDecimals octet 255 :=
  ⟨_, rfl, by decide +kernel, by decide +kernel⟩

theorem mem_texts_quad (hascii : t.Ascii) : t ∈ (Regex.concat quad).texts ↔ t.Quad := by
  rw [texts_quad, Regex.mem_mul_pow_iff_joined]
  refine exists_congr fun os => and_congr_right fun _ => and_congr_left fun ht => ?_
  have hos : ∀ o ∈ os, o.Ascii := Text.Ascii.of_joined (ht ▸ hascii)
  exact forall₂_congr fun o ho => spellsDecimals_octet.mem_texts_iff (hos o ho)

theorem search_ipv4 (hascii : t.Ascii) : ipv4.search t = true ↔ t.Quad := by
  have hquad : ipv4.search t = true ↔ t ∈ (Regex.concat quad).texts := Regex.foundIn_whole rfl t
  rw [hquad, mem_texts_quad hascii]

end Quads

/-! ## Networks -/

/-- The length of a mask for an address of four octets. -/
def maskLength : Regex := .choice
  [.concat [lit '3', oneOf [('0', '2')]], .concat [(among "12").optional, digit]]

/-- The length of a mask for an address of eight groups. -/
def groupMaskLength : Regex := .choice
  [.concat (word "12" ++ [oneOf [('0', '8')]]), .concat [lit '1', among "01", digit],
    .concat [(oneOf [('1', '9')]).optional, digit]]

/-- The types of addresses and networks. -/
def networks : List (Text × Pattern) :=
  [("ipv4", ipv4), ("cidrv4", cidrv4), ("ipv6", ipv6), ("cidrv6", cidrv6)]

section Networks

variable {t : Text} {size : Regex}

theorem spellsDecimals_maskLength : SpellsDecimals maskLength 32 :=
  ⟨_, rfl, by decide, by decide⟩

theorem spellsDecimals_groupMaskLength : SpellsDecimals groupMaskLength 128 :=
  ⟨_, rfl, by decide, by decide⟩

theorem foundIn_slash (parts : List Regex) (hparts : (Regex.concat parts).isFree = true)
    (hfree : (Regex.concat (parts ++ [lit '/', size])).isFree = true) :
    (whole (parts ++ [lit '/', size])).foundIn t = true ↔
      ∃ a p : Text, (whole parts).foundIn a = true ∧ p ∈ size.texts ∧ t = a ++ "/" ++ p := by
  simp only [Regex.foundIn_whole hfree, Regex.foundIn_whole hparts, Regex.texts_concat_append,
    Regex.texts_concat_pair, Regex.texts_lit]
  constructor
  · intro h
    obtain ⟨a, ha, _, ⟨_, rfl, p, hp, rfl⟩, rfl⟩ := h
    exact ⟨a, p, ha, hp, (List.append_assoc ..).symm⟩
  · intro h
    obtain ⟨a, p, ha, hp, rfl⟩ := h
    exact ⟨a, ha, _, ⟨_, rfl, p, hp, rfl⟩, (List.append_assoc ..).symm⟩

theorem search_cidrv4 : cidrv4.search t = true ↔
    ∃ a p : Text, ipv4.search a = true ∧ p ∈ maskLength.texts ∧ t = a ++ "/" ++ p :=
  foundIn_slash quad rfl rfl

theorem search_cidrv6 : cidrv6.search t = true ↔
    ∃ a p : Text, ipv6.search a = true ∧ p ∈ groupMaskLength.texts ∧ t = a ++ "/" ++ p :=
  foundIn_slash [groups] rfl rfl

/-- A length of a mask in ASCII is a decimal. -/
theorem exists_size_iff {bound : Nat} {P : Text → Prop} (h : SpellsDecimals size bound)
    (hascii : t.Ascii) :
    (∃ a p : Text, P a ∧ p ∈ size.texts ∧ t = a ++ "/" ++ p) ↔
      ∃ a p : Text, P a ∧ p.DecimalUpTo bound ∧ t = a ++ "/" ++ p := by
  refine exists₂_congr fun a p => and_congr_right fun _ => and_congr_left fun ht => ?_
  have hp : p.Ascii := (Text.Ascii.append.mp (ht ▸ hascii)).2
  exact h.mem_texts_iff hp

/-- A pattern that names no slash is not found in a text with a slash. -/
theorem not_foundIn_of_slash (parts : List Regex) (hfree : (Regex.concat parts).isFree = true)
    (hsets : ∀ s ∈ (Regex.concat parts).sets, s.contains '/' = false) (a p : Text) :
    ¬ (whole parts).foundIn (a ++ "/" ++ p) = true := by
  intro h
  rw [Regex.foundIn_whole hfree, List.append_assoc] at h
  obtain ⟨s, hs, hslash, -⟩ := Regex.exchangeable_texts _ a p _ h
  exact Bool.false_ne_true ((hsets s hs).symm.trans hslash)

theorem accepts_network {r : Registry} (probes : Probes) {name : Text} {p : Pattern}
    (hn : (name, p) ∈ networks)
    (hlookup : r.lookup name = (types probes).get? name) (value : Text) :
    (Expression.compile r name).accepts (some value) = true ↔ p.search value = true := by
  have hname : name.Name ∧ name ≠ Alternative.optionalWord ∧
      ∃ description, (types probes).get? name = some (.pattern p description) := by
    simp only [networks, List.mem_cons, Prod.mk.injEq, List.not_mem_nil, or_false] at hn
    rcases hn with ⟨rfl, rfl⟩ | ⟨rfl, rfl⟩ | ⟨rfl, rfl⟩ | ⟨rfl, rfl⟩ <;>
      exact ⟨⟨List.cons_ne_nil _ _, by decide⟩, by decide, _, rfl⟩
  obtain ⟨hname, hnot, description, hpattern⟩ := hname
  exact Expression.accepts_pattern hname hnot (hlookup.trans hpattern) value

end Networks

/-- In ASCII the type `ipv4` accepts four decimals up to 255 with dots between them. The types of
networks accept an address, a slash and a decimal up to 32 or up to 128. No text is both an address
and a network. -/
theorem quads_and_networks (r : Registry) (probes : Probes)
    (hbuiltin : ∀ n ∈ networks, r.lookup n.1 = (types probes).get? n.1) :
    let accepts (type value : Text) : Bool := (Expression.compile r type).accepts (some value)
    (∀ value : Text, value.Ascii →
      (accepts "ipv4" value = true ↔ value.Quad) ∧
      (accepts "cidrv4" value = true ↔
        ∃ a p : Text, accepts "ipv4" a = true ∧ p.DecimalUpTo 32 ∧ value = a ++ "/" ++ p) ∧
      (accepts "cidrv6" value = true ↔
        ∃ a p : Text, accepts "ipv6" a = true ∧ p.DecimalUpTo 128 ∧ value = a ++ "/" ++ p)) ∧
    ∀ value : Text, ¬ (accepts "ipv4" value = true ∧ accepts "cidrv4" value = true) ∧
      ¬ (accepts "ipv6" value = true ∧ accepts "cidrv6" value = true) := by
  intro accepts
  have haccepts : ∀ n ∈ networks, ∀ value, accepts n.1 value = true ↔ n.2.search value = true :=
    fun n hn value => accepts_network probes hn (hbuiltin n hn) value
  simp only [networks, List.forall_mem_cons] at haccepts
  obtain ⟨hipv4, hcidrv4, hipv6, hcidrv6, -⟩ := haccepts
  simp only [hipv4, hcidrv4, hipv6, hcidrv6]
  refine ⟨fun value hascii => ⟨search_ipv4 hascii, ?_, ?_⟩, fun value => ⟨?_, ?_⟩⟩
  · exact search_cidrv4.trans (exists_size_iff spellsDecimals_maskLength hascii)
  · exact search_cidrv6.trans (exists_size_iff spellsDecimals_groupMaskLength hascii)
  · intro h
    obtain ⟨a, p, -, -, rfl⟩ := search_cidrv4.mp h.2
    exact not_foundIn_of_slash quad rfl (by decide) a p h.1
  · intro h
    obtain ⟨a, p, -, -, rfl⟩ := search_cidrv6.mp h.2
    exact not_foundIn_of_slash [groups] rfl (by decide) a p h.1

/-- The greatest octet and the greatest lengths, and an address that is no network. -/
theorem networks_at_bounds :
    let r := Registry.new 0 (types World.empty.probes) []
    let accepts (type value : Text) : Bool := (Expression.compile r type).accepts (some value)
    accepts "ipv4" "255.0.10.9" = true ∧ accepts "cidrv4" "255.0.10.9/32" = true ∧
      accepts "cidrv6" "::/128" = true ∧ accepts "cidrv4" "255.0.10.9" = false := by
  intro r accepts
  have hbuiltin : ∀ n ∈ networks, r.lookup n.1 = (types World.empty.probes).get? n.1 := by
    simp only [networks, List.forall_mem_cons]
    exact ⟨rfl, rfl, rfl, rfl, fun _ h => absurd h List.not_mem_nil⟩
  obtain ⟨hforms, hnone⟩ := quads_and_networks r World.empty.probes hbuiltin
  have haddress : accepts "ipv4" "255.0.10.9" = true := by
    apply (hforms _ (by decide)).1.mpr
    exact ⟨["255", "0", "10", "9"], rfl, by decide, by decide⟩
  have hgroups : accepts "ipv6" "::" = true :=
    (accepts_network World.empty.probes (.tail _ (.tail _ (.head _))) rfl _).mpr (by decide)
  refine ⟨haddress, ?_, ?_, ?_⟩
  · apply (hforms _ (by decide)).2.1.mpr
    exact ⟨"255.0.10.9", "32", haddress, by decide, by decide⟩
  · apply (hforms _ (by decide)).2.2.mpr
    exact ⟨"::", "128", hgroups, by decide, by decide⟩
  · rw [← Bool.not_eq_true]
    exact fun h => (hnone _).1 ⟨haddress, h⟩

end Builtin

end TreeSpec
