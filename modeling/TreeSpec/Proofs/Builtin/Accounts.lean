import TreeSpec.Proofs.Builtin.Probes
import TreeSpec.Proofs.Registry.Negation
import TreeSpec.Proofs.Spec.Clauses
import TreeSpec.Proofs.Text.Numerals

/-!
# Users and groups

An account has a name and a number. The form of a text alone decides which of the two is looked up:
a text of digits only is looked up as a number, any other text as a name. Characters that are digits
without a place in numerals count here, so that a text of these is looked up neither way, and
neither is a numeral of too many digits. The system may refuse to look up what is not listed.
-/

namespace TreeSpec

set_option autoImplicit false

namespace Text

variable {t : Text}

theorem isDigitLike_of_isDigit {c : CodePoint} (h : isDigit c = true) : isDigitLike c = true := by
  unfold isDigitLike
  rw [h, Bool.true_or]

/-- The text is not empty and has no characters but digits, those without a place in numerals
included. -/
def DigitsOnly (t : Text) : Prop := t ≠ [] ∧ ∀ c ∈ t, isDigitLike c = true

instance (t : Text) : Decidable t.DigitsOnly := inferInstanceAs (Decidable (_ ∧ _))

instance (t : Text) : Decidable t.Numeral := inferInstanceAs (Decidable (_ ∧ _))

theorem Numeral.digitsOnly (h : t.Numeral) : t.DigitsOnly :=
  ⟨h.1, fun c hc => isDigitLike_of_isDigit (h.2 c hc)⟩

/-- A text that is made of digits is read just if it is a numeral of not too many digits. -/
theorem DigitsOnly.readInteger_eq_ok_iff (h : t.DigitsOnly) {i : Int} :
    readInteger t = .ok i ↔ t.Numeral ∧ t.length ≤ maxDigits ∧ (digitsValue t : Int) = i := by
  have hhead : t.head? ≠ some (.char '-') := by
    intro hhead
    have hminus : isDigitLike (.char '-') = false := by decide
    rw [h.2 _ (List.mem_of_mem_head? hhead)] at hminus
    cases hminus
  rw [readInteger_of_head_ne hhead]
  constructor
  · intro hread
    cases hnatural : readNatural t t with
    | error e =>
      rw [hnatural] at hread
      cases hread
    | ok n =>
      rw [hnatural] at hread
      obtain ⟨hdigits, hlength, rfl⟩ := readNatural_eq_ok_iff.mp hnatural
      exact ⟨hdigits, hlength, Except.ok.inj hread⟩
  · rintro ⟨hdigits, hlength, rfl⟩
    rw [readNatural_eq_ok_iff.mpr ⟨hdigits, hlength, rfl⟩]
    rfl

end Text

namespace World

/-- The text is the name of an account. -/
def Names (accounts : List (Text × Nat)) (value : Text) : Prop :=
  ∃ number, (value, number) ∈ accounts

/-- The text is a numeral of not too many digits. -/
def Readable (value : Text) : Prop := value.Numeral ∧ value.length ≤ maxDigits

instance (value : Text) : Decidable (Readable value) := inferInstanceAs (Decidable (_ ∧ _))

/-- The text denotes the number of an account. -/
def Numbers (accounts : List (Text × Nat)) (value : Text) : Prop :=
  Readable value ∧ ∃ name, (name, Text.digitsValue value) ∈ accounts

/-- The accounts that the probe asks for. -/
def accounts (w : World) : Probe → List (Text × Nat)
  | .user => w.users
  | .group => w.groups
  | .host | .path => []

variable {table : List (Text × Nat)} {value : Text}

theorem any_eq_true_iff_names : (table.any fun a => a.1 = value) = true ↔ Names table value := by
  rw [List.any_eq_true]
  constructor
  · rintro ⟨⟨name, number⟩, hmem, hname⟩
    obtain rfl : name = value := of_decide_eq_true hname
    exact ⟨number, hmem⟩
  · rintro ⟨number, hmem⟩
    exact ⟨_, hmem, decide_eq_true rfl⟩

theorem any_eq_true_iff_number {n : Nat} :
    (table.any fun a => (a.2 : Int) = (n : Int)) = true ↔ ∃ name, (name, n) ∈ table := by
  rw [List.any_eq_true]
  constructor
  · rintro ⟨⟨name, number⟩, hmem, hnumber⟩
    obtain rfl : number = n := Int.ofNat.inj (of_decide_eq_true hnumber)
    exact ⟨name, hmem⟩
  · rintro ⟨name, hmem⟩
    exact ⟨_, hmem, decide_eq_true rfl⟩

instance (table : List (Text × Nat)) (value : Text) : Decidable (Names table value) :=
  decidable_of_iff _ any_eq_true_iff_names

instance (table : List (Text × Nat)) (value : Text) : Decidable (Numbers table value) :=
  decidable_of_iff _ (and_congr_right fun _ => any_eq_true_iff_number)

end World

namespace Probe

/-- How the probe looks an account up by name. -/
def byName : Probe → Text → TableLookup
  | .group, name => ⟨"getgrnam", name⟩
  | _, name => ⟨"getpwnam", name⟩

/-- How the probe looks an account up by number. -/
def byNumber : Probe → Nat → TableLookup
  | .group, number => ⟨"getgrgid", toString (number : Int)⟩
  | _, number => ⟨"getpwuid", toString (number : Int)⟩

end Probe

namespace System

variable {s : System} {kind : Probe} {value : Text}

/-- No account that is listed is refused. -/
structure FindsListed (s : System) (kind : Probe) : Prop where
  names : ∀ a ∈ s.accounts kind, s.refuses (kind.byName a.1) = none
  numbers : ∀ a ∈ s.accounts kind, s.refuses (kind.byNumber a.2) = none

theorem result_lookUp (l : TableLookup) (listed answer : Bool) :
    (s.lookUp l listed).result = .ok answer ↔ s.refuses l = none ∧ answer = listed := by
  unfold lookUp
  rw [Effect.emit_bind]
  cases s.refuses l with
  | some e => exact iff_of_false nofun nofun
  | none =>
    rw [and_iff_right rfl]
    exact ⟨fun h => (Except.ok.inj h).symm, fun h => congrArg Except.ok h.symm⟩

/-- A probe for accounts looks the text up in the table of the accounts it asks for. -/
theorem ask_eq_findAccount (s : System) (hkind : kind ∈ [Probe.user, .group]) (value : Text) :
    s.probes.ask kind value = s.findAccount (s.accounts kind) (kind.byName value).table
      (kind.byNumber 0).table value := by
  rcases List.mem_pair.mp hkind with rfl | rfl <;> rfl

/-- A text with another character than digits is looked up as a name. -/
theorem result_ask_of_name (hkind : kind ∈ [Probe.user, .group]) (hname : ¬ value.DigitsOnly)
    (hnull : .char '\x00' ∉ value) (answer : Bool) :
    (s.probes.ask kind value).result = .ok answer ↔
      s.refuses (kind.byName value) = none ∧
      (answer = true ↔ World.Names (s.accounts kind) value) := by
  have hform : (!value.isEmpty && value.all Text.isDigitLike) = false := by
    rw [← Bool.not_eq_true, Bool.and_eq_true, Bool.not_eq_true', List.isEmpty_eq_false_iff,
      List.all_eq_true]
    exact hname
  have hplain : value.contains (.char '\x00') = false := by
    rw [← Bool.not_eq_true, List.contains_iff_mem]
    exact hnull
  have hlookup : (⟨(kind.byName value).table, value⟩ : TableLookup) = kind.byName value := by
    cases kind <;> rfl
  rw [ask_eq_findAccount s hkind]
  unfold findAccount
  rw [hform, if_neg Bool.false_ne_true, hplain, if_neg Bool.false_ne_true, hlookup, result_lookUp,
    ← World.any_eq_true_iff_names, ← Bool.eq_iff_iff]

/-- A text of digits is looked up as a number, if it can be read. -/
theorem result_ask_of_digitsOnly (hkind : kind ∈ [Probe.user, .group]) (h : value.DigitsOnly)
    (answer : Bool) :
    (s.probes.ask kind value).result = .ok answer ↔
      World.Readable value ∧ s.refuses (kind.byNumber (Text.digitsValue value)) = none ∧
        (answer = true ↔ World.Numbers (s.accounts kind) value) := by
  have hform : (!value.isEmpty && value.all Text.isDigitLike) = true := by
    rw [Bool.and_eq_true, Bool.not_eq_true', List.isEmpty_eq_false_iff, List.all_eq_true]
    exact h
  have hlookup (n : Nat) : (⟨(kind.byNumber 0).table, toString (n : Int)⟩ : TableLookup) =
      kind.byNumber n := by
    cases kind <;> rfl
  rw [ask_eq_findAccount s hkind]
  unfold findAccount
  rw [hform, if_pos rfl]
  cases hread : Text.readInteger value with
  | error e =>
    have hunreadable : ¬ World.Readable value := by
      intro hreadable
      rw [h.readInteger_eq_ok_iff.mpr ⟨hreadable.1, hreadable.2, rfl⟩] at hread
      cases hread
    exact iff_of_false nofun (fun h => hunreadable h.1)
  | ok number =>
    obtain ⟨hnumeral, hlength, rfl⟩ := h.readInteger_eq_ok_iff.mp hread
    have hreadable : World.Readable value := ⟨hnumeral, hlength⟩
    rw [Effect.bind_of_ok (a := (Text.digitsValue value : Int)) rfl, hlookup,
      and_iff_right hreadable, World.Numbers, and_iff_right hreadable,
      ← World.any_eq_true_iff_number,
      ← Bool.eq_iff_iff]
    exact result_lookUp ..

/-- What looking an account up says: a text with another character than digits is known by name, and
one of digits by number if it can be read. -/
theorem result_ask (hkind : kind ∈ [Probe.user, .group]) (answer : Bool)
    (hnull : .char '\x00' ∉ value) :
    (s.probes.ask kind value).result = .ok answer ↔
      (¬ value.DigitsOnly ∧ s.refuses (kind.byName value) = none ∧
          (answer = true ↔ World.Names (s.accounts kind) value)) ∨
        (World.Readable value ∧ s.refuses (kind.byNumber (Text.digitsValue value)) = none ∧
          (answer = true ↔ World.Numbers (s.accounts kind) value)) := by
  by_cases hdigits : value.DigitsOnly
  · rw [result_ask_of_digitsOnly hkind hdigits, or_iff_right (fun h => h.1 hdigits)]
  · have hunreadable : ¬ World.Readable value := fun h => hdigits h.1.digitsOnly
    rw [result_ask_of_name hkind hdigits hnull, or_iff_left (fun h => hunreadable h.1),
      and_iff_right hdigits]

theorem FindsListed.of_names (h : s.FindsListed kind)
    (hvalue : World.Names (s.accounts kind) value) :
    s.refuses (kind.byName value) = none := by
  obtain ⟨number, hmem⟩ := hvalue
  exact h.names _ hmem

theorem FindsListed.of_numbers (h : s.FindsListed kind)
    (hvalue : World.Numbers (s.accounts kind) value) :
    s.refuses (kind.byNumber (Text.digitsValue value)) = none := by
  obtain ⟨-, name, hmem⟩ := hvalue
  exact h.numbers _ hmem

end System

namespace Builtin

theorem result_ask_account {s : System} {kind : Probe} {q : Question}
    (hkind : kind ∈ [Probe.user, .group])
    (description : Text) (answer : Bool) (hne : q.value ≠ []) (hnull : .char '\x00' ∉ q.value) :
    ((Matcher.predicate (predicate s.probes kind) description).ask q).result = .ok answer ↔
      (¬ q.value.DigitsOnly ∧ s.refuses (kind.byName q.value) = none ∧
          (answer = true ↔ World.Names (s.accounts kind) q.value)) ∨
        (World.Readable q.value ∧ s.refuses (kind.byNumber (Text.digitsValue q.value)) = none ∧
          (answer = true ↔ World.Numbers (s.accounts kind) q.value)) := by
  have hsensible : (Lookup.probe kind q.value).isSensible = true := by
    have hempty : q.value.isEmpty = false := List.isEmpty_eq_false_iff.mpr hne
    rcases List.mem_pair.mp hkind with rfl | rfl <;> exact congrArg not hempty
  rw [Matcher.result_ask_predicate, run_predicate, if_pos hsensible, result_consult]
  exact System.result_ask hkind answer hnull

/-- The types `user` and `group` accept a text with another character than digits if it names an
account, and a numeral of not too many digits if it denotes the number of one. Their inversions
accept the others of these texts that the system does not refuse to look up, so that a text of
digits that cannot be read is accepted by neither. All names and all numbers of accounts are known
in this way, apart from the names of digits alone that denote the number of no account. -/
theorem accounts_known_by_form (s : System) (r : Registry) (kind : Probe)
    (hkind : kind ∈ [Probe.user, .group])
    (hlisted : s.FindsListed kind) (x : Alternative) (hx : x.WellFormed)
    (hname : x.name = kind.typeName)
    (htype : r.lookup x.name = (types s.probes).get? x.name)
    (hnone : r.lookup x.inverted.name = none)
    (value : Text) (hne : value ≠ []) (hnull : .char '\x00' ∉ value) :
    let accepts (x : Alternative) : Bool := (Expression.compile r x.spelled).accepts (some value)
    let named := World.Names (s.accounts kind) value
    let numbered := World.Numbers (s.accounts kind) value
    (accepts x = true ↔ (¬ value.DigitsOnly ∧ named) ∨ numbered) ∧
    (accepts x.inverted = true ↔
      (¬ value.DigitsOnly ∧ ¬ named ∧ s.refuses (kind.byName value) = none) ∨
        (World.Readable value ∧ ¬ numbered ∧
          s.refuses (kind.byNumber (Text.digitsValue value)) = none)) ∧
    (¬ (accepts x = true ↔ named ∨ numbered) ↔ value.DigitsOnly ∧ named ∧ ¬ numbered) := by
  intro accepts named numbered
  have hnot : x.isOptional = false := by
    rw [Alternative.isOptional_eq_false_iff]
    rintro rfl
    rcases List.mem_pair.mp hkind with rfl | rfl <;> exact absurd hname (by decide)
  obtain ⟨description, hget⟩ := get?_typeName s.probes kind
  rw [hname, hget, ← hname] at htype
  have hask (answer : Bool) :
      ((Matcher.predicate (predicate s.probes kind) description).ask (x.question value)).result =
      .ok answer ↔
        (¬ value.DigitsOnly ∧ s.refuses (kind.byName value) = none ∧ (answer = true ↔ named)) ∨
          (World.Readable value ∧ s.refuses (kind.byNumber (Text.digitsValue value)) = none ∧
            (answer = true ↔ numbered)) :=
    result_ask_account hkind description answer hne hnull
  have haccepts : accepts x = true ↔ (¬ value.DigitsOnly ∧ named) ∨ numbered := by
    -- What is listed can be read and is not refused.
    have hfound : s.refuses (kind.byName value) = none ∧ named ↔ named :=
      and_iff_right_of_imp hlisted.of_names
    have hnumber : World.Readable value ∧
        s.refuses (kind.byNumber (Text.digitsValue value)) = none ∧ numbered ↔ numbered :=
      ⟨fun h => h.2.2, fun h => ⟨h.1, hlisted.of_numbers h, h⟩⟩
    rw [Expression.accepts_type hx hnot htype, hask, eq_self, true_iff, true_iff, hfound, hnumber]
  refine ⟨haccepts, ?_, ?_⟩
  · rw [Expression.accepts_inversion hx htype hnone, hask]
    simp only [Bool.false_eq_true, false_iff, and_comm (a := s.refuses _ = none)]
  · rw [haccepts]
    tauto

/-- Twelve in Arabic digits is the number of the group, and a digit in front of a letter begins a
name. A superscript is neither accepted nor refused, and neither is a number that is refused for its
size. -/
theorem group_of_number_in_other_digits :
    let s : System := ⟨⟨[], [], [], [("wheel", 12), ("²", 3)]⟩, fun l =>
      if l = ⟨"getgrgid", "4294967296"⟩ then
        some (.raised "OverflowError" "gid is less than minimum") else none⟩
    let r := Registry.new 0 (types s.probes) []
    let accepts (name value : Text) : Bool := (Expression.compile r name).accepts (some value)
    s.FindsListed .group ∧ accepts "group" "١٢" = true ∧ accepts "nogroup" "1a" = true ∧
      accepts "group" "²" = false ∧ accepts "nogroup" "²" = false ∧
      accepts "nogroup" "4294967295" = true ∧ accepts "nogroup" "4294967296" = false := by
  intro s r accepts
  have hlisted : s.FindsListed .group := ⟨by decide, by decide⟩
  have hx : (⟨"group", none⟩ : Alternative).WellFormed := ⟨⟨List.cons_ne_nil _ _, by decide⟩, nofun⟩
  have hvalue (value : Text) (hne : value ≠ []) (hnull : .char '\x00' ∉ value) :=
    accounts_known_by_form s r .group (by decide) hlisted ⟨"group", none⟩ hx rfl rfl rfl
      value hne hnull
  obtain ⟨hnumber, -⟩ := hvalue "١٢" (List.cons_ne_nil _ _) (by decide)
  obtain ⟨-, hname, -⟩ := hvalue "1a" (List.cons_ne_nil _ _) (by decide)
  obtain ⟨hyes, hno, -⟩ := hvalue "²" (List.cons_ne_nil _ _) (by decide)
  obtain ⟨-, hsmall, -⟩ := hvalue "4294967295" (List.cons_ne_nil _ _) (by decide)
  obtain ⟨-, hlarge, -⟩ := hvalue "4294967296" (List.cons_ne_nil _ _) (by decide)
  refine ⟨hlisted, hnumber.mpr (by decide), hname.mpr (by decide), ?_, ?_,
    hsmall.mpr (by decide), ?_⟩
  · exact Bool.eq_false_iff.mpr (fun h => absurd (hyes.mp h) (by decide))
  · exact Bool.eq_false_iff.mpr (fun h => absurd (hno.mp h) (by decide))
  · exact Bool.eq_false_iff.mpr (fun h => absurd (hlarge.mp h) (by decide))

/-- Two users have names of digits alone, of which one is no numeral and the other one the number of
no user. Neither is accepted. -/
theorem user_refuses_names_of_digits :
    let w : World := ⟨[], [], [("²", 5), ("42", 7)], []⟩
    let r := Registry.new 0 (types w.probes) []
    ∀ value ∈ (["²", "42"] : List Text), World.Names w.users value ∧
      (Expression.compile r "user").accepts (some value) = false := by
  decide +kernel

end Builtin

end TreeSpec
