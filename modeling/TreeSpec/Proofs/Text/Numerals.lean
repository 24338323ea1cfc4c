import Mathlib.Algebra.Order.Ring.Nat
import Mathlib.Data.List.TakeWhile
import Mathlib.Tactic.Ring
import TreeSpec.Text.Numeral

/-!
# Numerals

Digits of any script denote a number by their places. An integer is read from digits with or without
a minus sign in front, and reading it fails only if there are too many digits.
-/

namespace TreeSpec

set_option autoImplicit false

/-- Digits of any script, one at least. -/
def Text.Numeral (t : Text) : Prop := t ≠ [] ∧ ∀ c ∈ t, Text.isDigit c = true

/-- The text is a numeral, with or without a minus sign in front. Its digits and the integer that it
denotes are given with it. -/
inductive Text.Integer : (t digits : Text) → Int → Prop where
  | natural {ds : Text} (h : ds.Numeral) : Text.Integer ds ds (Text.digitsValue ds)
  | negative {ds : Text} (h : ds.Numeral) :
      Text.Integer (.char '-' :: ds) ds (-(Text.digitsValue ds : Int))

namespace Text

/-- The value of a digit; other characters count as zero. -/
def digitValue (c : CodePoint) : Nat := (digitValue? c).getD 0

section Values

variable {c : CodePoint} {cs : Text}

theorem digitValue_lt (c : CodePoint) : digitValue c < 10 := by
  unfold digitValue
  cases h : digitValue? c with
  | none => decide
  | some d => exact digitValue?_lt h

theorem digitsValue_eq_foldl (cs : Text) :
    digitsValue cs = cs.foldl (fun n c => 10 * n + digitValue c) 0 := rfl

theorem foldl_digitValue (cs : Text) (n : Nat) : cs.foldl (fun n c => 10 * n + digitValue c) n =
    n * 10 ^ cs.length + digitsValue cs := by
  induction cs generalizing n with
  | nil => exact (Nat.mul_one n).symm
  | cons c cs ih =>
    rw [digitsValue_eq_foldl, List.foldl_cons, List.foldl_cons, ih, ih, List.length_cons]
    ring

theorem digitsValue_cons (c : CodePoint) (cs : Text) :
    digitsValue (c :: cs) = digitValue c * 10 ^ cs.length + digitsValue cs := by
  rw [digitsValue_eq_foldl, List.foldl_cons, foldl_digitValue, Nat.mul_zero, Nat.zero_add]

theorem digitsValue_lt (cs : Text) : digitsValue cs < 10 ^ cs.length := by
  induction cs with
  | nil => exact Nat.one_pos
  | cons c cs ih =>
    have hc : digitValue c * 10 ^ cs.length ≤ 9 * 10 ^ cs.length :=
      Nat.mul_le_mul_right _ (Nat.le_of_lt_succ (digitValue_lt c))
    rw [digitsValue_cons, List.length_cons, pow_succ']
    omega

/-- A text that starts with another digit than zero denotes a number of as many digits. -/
theorem le_digitsValue_cons (h : digitValue c ≠ 0) : 10 ^ cs.length ≤ digitsValue (c :: cs) := by
  rw [digitsValue_cons]
  have hc := Nat.mul_le_mul_right (10 ^ cs.length) (Nat.one_le_iff_ne_zero.mpr h)
  omega

end Values

section Ascii

variable {c : CodePoint}

theorem digitValue?_of_ascii (h : '0' ≤ c) (h' : c ≤ '9') : digitValue? c = some c.digit := by
  have hlow : 0x30 ≤ c.toNat := h
  have hhigh : c.toNat ≤ 0x39 := h'
  have hrun : inDigitRun c 0x30 = true := by
    unfold inDigitRun
    rw [Bool.and_eq_true, decide_eq_true_eq, decide_eq_true_eq]
    omega
  have hfind : digitZeros.find? (inDigitRun c) = some 0x30 := List.find?_cons_of_pos hrun
  unfold digitValue?
  rw [hfind]
  rfl

theorem isDigit_of_ascii (h : '0' ≤ c) (h' : c ≤ '9') : isDigit c = true := by
  rw [← isSome_digitValue?, digitValue?_of_ascii h h']
  rfl

theorem digitValue_of_ascii (h : '0' ≤ c) (h' : c ≤ '9') : digitValue c = c.toNat - 0x30 := by
  unfold digitValue
  rw [digitValue?_of_ascii h h']
  rfl

end Ascii

section Reading

variable {t ds : Text} {i : Int}

theorem not_numeral_minus (cs : Text) : ¬ Text.Numeral (.char '-' :: cs) := by
  intro h
  have hminus : isDigit (.char '-') = false := by decide
  rw [h.2 _ List.mem_cons_self] at hminus
  cases hminus

theorem readNatural_of_numeral (text : Text) (h : ds.Numeral) : readNatural text ds =
    if maxDigits < ds.length then .error (.numeralTooLong ds.length) else .ok (digitsValue ds) := by
  have htake : ds.takeWhile isDigit = ds := by
    rw [List.takeWhile_eq_self_iff]
    exact h.2
  have hempty : ds.isEmpty = false := by
    rw [List.isEmpty_eq_false_iff]
    exact h.1
  unfold readNatural
  simp only [htake, hempty, Bool.false_or, decide_eq_true_eq, Nat.lt_irrefl, if_false]

/-- Only numerals are read, and only those of not too many digits. -/
theorem readNatural_eq_ok_iff {text : Text} {n : Nat} :
    readNatural text ds = .ok n ↔ ds.Numeral ∧ ds.length ≤ maxDigits ∧ digitsValue ds = n := by
  constructor
  · intro h
    have hdigits : ds.Numeral := by
      unfold readNatural at h
      simp only at h
      split at h
      · cases h
      · split at h
        · cases h
        · next hbad =>
          rw [Bool.or_eq_true, not_or, List.isEmpty_iff, decide_eq_true_eq, Nat.not_lt] at hbad
          obtain ⟨hne, hlength⟩ := hbad
          have htake : ds.takeWhile isDigit = ds :=
            (List.takeWhile_prefix isDigit).eq_of_length
              (Nat.le_antisymm (List.takeWhile_prefix _).length_le hlength)
          rw [htake] at hne
          exact ⟨hne, List.takeWhile_eq_self_iff.mp htake⟩
    rw [readNatural_of_numeral text hdigits] at h
    split at h
    · cases h
    · next hlength => exact ⟨hdigits, Nat.le_of_not_lt hlength, Except.ok.inj h⟩
  · rintro ⟨hdigits, hlength, rfl⟩
    rw [readNatural_of_numeral text hdigits, if_neg (Nat.not_lt.mpr hlength)]

/-- Without a minus sign in front an integer is read as a numeral. -/
theorem readInteger_of_head_ne (h : t.head? ≠ some (.char '-')) :
    readInteger t = (readNatural t t).map Int.ofNat := by
  unfold readInteger
  split
  · exact absurd rfl h
  · rfl

theorem readInteger_of_numeral (h : ds.Numeral) :
    readInteger ds = (readNatural ds ds).map Int.ofNat := by
  apply readInteger_of_head_ne
  intro hhead
  obtain ⟨cs, rfl⟩ := List.head?_eq_some_iff.mp hhead
  exact not_numeral_minus cs h

/-- An integer is read unless it has too many digits. -/
theorem readInteger_of_integer (h : t.Integer ds i) : readInteger t =
    if maxDigits < ds.length then .error (.numeralTooLong ds.length) else .ok i := by
  cases h with
  | natural hds =>
    rw [readInteger_of_numeral hds, readNatural_of_numeral t hds]
    split <;> rfl
  | negative hds =>
    have hread : readInteger (.char '-' :: ds) =
        (readNatural (.char '-' :: ds) ds).map fun n => -(n : Int) := rfl
    rw [hread, readNatural_of_numeral _ hds]
    split <;> rfl

/-- An integer without a minus sign is a numeral. -/
theorem Integer.numeral_of_not_minus (h : t.Integer ds i) (hminus : .char '-' ∉ t) : t.Numeral := by
  cases h with
  | natural h => exact h
  | negative => exact absurd List.mem_cons_self hminus

theorem Integer.unique {ds' : Text} {i' : Int} (h : t.Integer ds i) (h' : t.Integer ds' i') :
    i = i' := by
  cases h with
  | natural h =>
    cases h' with
    | natural => rfl
    | negative => exact absurd h (not_numeral_minus _)
  | negative h =>
    cases h' with
    | natural h' => exact absurd h' (not_numeral_minus _)
    | negative => rfl

end Reading

end Text

end TreeSpec
