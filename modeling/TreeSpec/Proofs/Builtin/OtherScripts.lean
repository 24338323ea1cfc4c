import TreeSpec.Proofs.Builtin.MixedAddresses

/-!
# Digits of other scripts in addresses

The characters of addresses are characters of ASCII, but for some digits: at the places of an octet
and of the length of a mask where every digit of ASCII may stand, so may every digit of another
script. With its digits in ASCII such a text is an address all the same. Groups have no such places.
-/

namespace TreeSpec

set_option autoImplicit false

namespace Text

/-- A hexadecimal digit of ASCII, a dot, a colon or a slash. -/
def AddressChar (c : CodePoint) : Prop :=
  (('0' ≤ c ∧ c ≤ '9') ∨ ('a' ≤ c ∧ c ≤ 'f') ∨ ('A' ≤ c ∧ c ≤ 'F')) ∨ c = '.' ∨ c = ':' ∨ c = '/'

instance : DecidablePred AddressChar := fun c => inferInstanceAs (Decidable
  ((('0' ≤ c ∧ c ≤ '9') ∨ ('a' ≤ c ∧ c ≤ 'f') ∨ ('A' ≤ c ∧ c ≤ 'F')) ∨ c = '.' ∨ c = ':' ∨ c = '/'))

/-- The digit of ASCII with the value of a digit. -/
def asciiDigit (c : CodePoint) : CodePoint :=
  if isDigit c then .char (Nat.digitChar (digitValue c)) else c

variable {c : CodePoint}

theorem AddressChar.lt (h : AddressChar c) : c.toNat < 0x80 := by
  rcases h with (h | h | h) | rfl | rfl | rfl
  · exact Nat.lt_of_le_of_lt h.2 (by decide)
  · exact Nat.lt_of_le_of_lt h.2 (by decide)
  · exact Nat.lt_of_le_of_lt h.2 (by decide)
  · decide
  · decide
  · decide

theorem asciiDigit_of_lt (h : c.toNat < 0x80) : asciiDigit c = c := by
  unfold asciiDigit
  split
  · next hdigit => exact digitChar_digitValue ((isDigit_ascii_iff h).mp hdigit)
  · rfl

theorem asciiDigit_of_isDigit (h : isDigit c = true) : '0' ≤ asciiDigit c ∧ asciiDigit c ≤ '9' := by
  unfold asciiDigit
  rw [if_pos h]
  have hdigits : ∀ d < 10,
      ('0' : CodePoint) ≤ .char (Nat.digitChar d) ∧
      .char (Nat.digitChar d) ≤ ('9' : CodePoint) := by decide
  exact hdigits _ (digitValue_lt c)

end Text

namespace Builtin

/-- The item holds nothing but characters of addresses. -/
def isAddressItem : SetItem → Bool
  | .char c => decide (Text.AddressChar c)
  | .range first last =>
    ('0' ≤ first && last ≤ '9') || ('a' ≤ first && last ≤ 'f') || ('A' ≤ first && last ≤ 'F')
  | .category _ | .exceptCategory _ => false

/-- The set consists of all digits, or of characters of addresses. -/
def InAddresses (s : CharSet) : Prop :=
  s = .of [.category .digit] ∨ s = .of s.items ∧ ∀ i ∈ s.items, isAddressItem i = true

instance : DecidablePred InAddresses := fun s => inferInstanceAs (Decidable
  (s = .of [.category .digit] ∨ s = .of s.items ∧ ∀ i ∈ s.items, isAddressItem i = true))

variable {s : CharSet} {i : SetItem} {c : CodePoint} {t u v : Text} {n : Text × Pattern}

theorem addressChar_of_item (h : isAddressItem i = true) (hc : i.contains c = true) :
    Text.AddressChar c := by
  cases i with
  | char d =>
    obtain rfl : c = d := of_decide_eq_true hc
    exact of_decide_eq_true h
  | range first last =>
    simp only [isAddressItem, Bool.or_eq_true, Bool.and_eq_true, decide_eq_true_eq] at h
    simp only [SetItem.contains, Bool.and_eq_true, decide_eq_true_eq] at hc
    rcases h with (h | h) | h
    · exact .inl (.inl ⟨Nat.le_trans h.1 hc.1, Nat.le_trans hc.2 h.2⟩)
    · exact .inl (.inr (.inl ⟨Nat.le_trans h.1 hc.1, Nat.le_trans hc.2 h.2⟩))
    · exact .inl (.inr (.inr ⟨Nat.le_trans h.1 hc.1, Nat.le_trans hc.2 h.2⟩))
  | category | exceptCategory => cases h

theorem slash_mem (a p : Text) : .char '/' ∈ a ++ "/" ++ p :=
  List.mem_append_left _ (List.mem_append_right _ List.mem_cons_self)

/-- The parts of the pattern of an address or a network. -/
theorem exists_parts (hn : n ∈ networks) : ∃ parts, n.2.body = whole parts ∧
    (Regex.concat parts).isFree = true ∧ ∀ s ∈ (Regex.concat parts).sets, InAddresses s := by
  simp only [networks, List.mem_cons, List.not_mem_nil, or_false] at hn
  rcases hn with rfl | rfl | rfl | rfl
  · exact ⟨quad, rfl, rfl, by decide⟩
  · exact ⟨quad ++ [lit '/', maskLength], rfl, rfl, by decide⟩
  · exact ⟨[groups], rfl, rfl, by decide⟩
  · exact ⟨[groups, lit '/', groupMaskLength], rfl, rfl, by decide +kernel⟩

/-- A character of an address is a character of ASCII, or a digit with which all digits may stand in
its place. -/
theorem search_network_cons (hn : n ∈ networks) (h : n.2.search (u ++ c :: v) = true) :
    Text.AddressChar c ∨
      Text.isDigit c = true ∧ ∀ d, Text.isDigit d = true → n.2.search (u ++ d :: v) = true := by
  obtain ⟨parts, hbody, hfree, hsets⟩ := exists_parts hn
  have hsearch (t : Text) : n.2.search t = true ↔ t ∈ (Regex.concat parts).texts := by
    unfold Pattern.search
    rw [hbody]
    exact Regex.foundIn_whole hfree t
  simp only [hsearch] at h ⊢
  obtain ⟨s, hs, hc, hexchange⟩ := Regex.exchangeable_texts _ u v c h
  rcases hsets s hs with rfl | ⟨hitems, hall⟩
  · rw [contains_digit] at hc
    exact .inr ⟨hc, fun d hd => hexchange d (contains_digit.trans hd)⟩
  · rw [hitems, CharSet.contains_of] at hc
    obtain ⟨i, hi, hc⟩ := List.any_eq_true.mp hc
    exact .inl (addressChar_of_item (hall i hi) hc)

/-- The digits after some place may all be put in ASCII. -/
theorem search_network_map (hn : n ∈ networks) (h : n.2.search (u ++ v) = true) :
    n.2.search (u ++ v.map Text.asciiDigit) = true := by
  induction v generalizing u with
  | nil => exact h
  | cons c v ih =>
    have hstep : n.2.search (u ++ Text.asciiDigit c :: v) = true := by
      rcases search_network_cons hn h with hc | ⟨hdigit, hexchange⟩
      · rw [Text.asciiDigit_of_lt hc.lt]
        exact h
      · have hrange := Text.asciiDigit_of_isDigit hdigit
        exact hexchange _ (Text.isDigit_of_ascii hrange.1 hrange.2)
    rw [List.map_cons, ← List.singleton_append, ← List.append_assoc]
    apply ih
    rw [List.append_assoc]
    exact hstep

theorem addressChar_of_hexGroups {m : Nat} (h : t.HexGroups m) : ∀ c ∈ t, Text.AddressChar c := by
  intro c hc
  rcases h.chars c hc with hcolon | hhex
  · exact .inr (.inr (.inl hcolon))
  · exact .inl hhex

/-- Without a dot and a slash there are only groups. -/
theorem addressChar_of_search (hn : n ∈ networks) (h : n.2.search t = true) (hdot : .char '.' ∉ t)
    (hslash : .char '/' ∉ t) : ∀ c ∈ t, Text.AddressChar c := by
  simp only [networks, List.mem_cons, List.not_mem_nil, or_false] at hn
  rcases hn with rfl | rfl | rfl | rfl
  · have hquad : t ∈ (Regex.concat ([] ++ quad)).texts := (Regex.foundIn_whole rfl t).mp h
    exact absurd (dot_mem_of_mem_texts_quad hquad) hdot
  · obtain ⟨a, p, -, -, rfl⟩ := search_cidrv4.mp h
    exact absurd (slash_mem a p) hslash
  · rcases (search_ipv6_of_no_dot hdot).mp h with h | ⟨_, _, -, before, after, hbefore, hafter, rfl⟩
    · exact addressChar_of_hexGroups h
    · have hcolons : ∀ c ∈ ("::" : Text), Text.AddressChar c := by decide
      rw [List.forall_mem_append, List.forall_mem_append]
      exact ⟨⟨addressChar_of_hexGroups hbefore, hcolons⟩, addressChar_of_hexGroups hafter⟩
  · obtain ⟨a, p, -, -, rfl⟩ := search_cidrv6.mp h
    exact absurd (slash_mem a p) hslash

theorem addressChar_asciiDigit (hn : n ∈ networks) (h : n.2.search t = true) (hc : c ∈ t) :
    Text.AddressChar (Text.asciiDigit c) := by
  obtain ⟨u, v, rfl⟩ := List.append_of_mem hc
  rcases search_network_cons hn h with hc | ⟨hdigit, -⟩
  · rw [Text.asciiDigit_of_lt hc.lt]
    exact hc
  · exact .inl (.inl (Text.asciiDigit_of_isDigit hdigit))

/-- A character of an address or a network is one of ASCII, or a digit of another script in a place
where all digits may stand. The text has a dot or a slash then. With its digits in ASCII it is
accepted too. -/
theorem addresses_in_other_scripts (r : Registry) (probes : Probes) (n : Text × Pattern)
    (hn : n ∈ networks)
    (hlookup : r.lookup n.1 = (types probes).get? n.1) (value : Text)
    (haccepts : (Expression.compile r n.1).accepts (some value) = true) :
    let accepts (value : Text) : Bool := (Expression.compile r n.1).accepts (some value)
    (∀ (u v : Text) (c : CodePoint), value = u ++ c :: v → ¬ Text.AddressChar c →
      Text.isDigit c = true ∧ (.char '.' ∈ value ∨ .char '/' ∈ value) ∧
        ∀ d, Text.isDigit d = true → accepts (u ++ d :: v) = true) ∧
      accepts (value.map Text.asciiDigit) = true ∧
      ∀ c ∈ value.map Text.asciiDigit, Text.AddressChar c := by
  intro accepts
  have hsearch : ∀ value, accepts value = true ↔ n.2.search value = true :=
    accepts_network probes hn hlookup
  have hvalue : n.2.search value = true := (hsearch value).mp haccepts
  simp only [hsearch, List.forall_mem_map]
  refine ⟨?_, search_network_map (u := []) hn hvalue,
    fun c hc => addressChar_asciiDigit hn hvalue hc⟩
  intro u v c huv hother
  have hmem : c ∈ value := huv ▸ List.mem_append_right u List.mem_cons_self
  obtain ⟨hdigit, hexchange⟩ := (search_network_cons hn (huv ▸ hvalue)).resolve_left hother
  refine ⟨hdigit, ?_, hexchange⟩
  by_contra hnone
  rw [not_or] at hnone
  exact hother (addressChar_of_search hn hvalue hnone.1 hnone.2 c hmem)

/-- The digit four of Arabic stands for an octet and for the length of a mask. -/
theorem digits_of_arabic_in_networks :
    let r := Registry.new 0 (types World.empty.probes) []
    let accepts (type value : Text) : Bool := (Expression.compile r type).accepts (some value)
    accepts "ipv4" "1.2.3.٤" = true ∧ accepts "ipv4" "1.2.3.4" = true ∧
      accepts "cidrv6" "::/٤" = true ∧ accepts "cidrv6" "::/4" = true := by
  intro r accepts
  have hquad : accepts "ipv4" "1.2.3.٤" = true :=
    (accepts_network World.empty.probes (.head _) rfl _).mpr (by decide)
  have hsize : accepts "cidrv6" "::/٤" = true :=
    (accepts_network World.empty.probes (.tail _ (.tail _ (.tail _ (.head _)))) rfl _).mpr
      (by decide)
  have hquad' :=
    addresses_in_other_scripts r World.empty.probes ("ipv4", ipv4) (.head _) rfl _ hquad
  have hsize' := addresses_in_other_scripts r World.empty.probes ("cidrv6", cidrv6)
    (.tail _ (.tail _ (.tail _ (.head _)))) rfl _ hsize
  exact ⟨hquad, hquad'.2.1, hsize, hsize'.2.1⟩

/-- An address with a character that is no character of ASCII. -/
theorem ipv4_accepts_digit_of_arabic :
    let r := Registry.new 0 (types World.empty.probes) []
    let value : Text := "1.2.3.٤"
    (Expression.compile r "ipv4").accepts (some value) = true ∧ ¬ value.Ascii ∧
      ¬ ∀ c ∈ value, Text.AddressChar c := by
  intro r value
  refine ⟨?_, by decide, by decide⟩
  have haccepts := accepts_network World.empty.probes (r := r) (.head _) rfl value
  rw [haccepts]
  decide

end Builtin

end TreeSpec
