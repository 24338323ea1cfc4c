import TreeSpec.Proofs.Registry.Views
import TreeSpec.Proofs.Text.Numerals

/-!
# Decimals

A decimal is a numeral in ASCII without leading zeros. There is just one for each number: the digits
of the number to base ten.
-/

namespace TreeSpec

set_option autoImplicit false

/-- All characters are characters of ASCII. -/
def Text.Ascii (t : Text) : Prop := ∀ c ∈ t, c.toNat < 0x80

instance : DecidablePred Text.Ascii :=
  fun t => inferInstanceAs (Decidable (∀ c ∈ t, c.toNat < 0x80))

/-- A numeral in ASCII without leading zeros. -/
structure Text.Decimal (t : Text) : Prop where
  nonempty : t ≠ []
  digits : ∀ c ∈ t, '0' ≤ c ∧ c ≤ '9'
  noLeadingZero : t.head? = some (.char '0') → t = "0"

/-- A numeral in ASCII without leading zeros that denotes a number up to the bound. -/
structure Text.DecimalUpTo (bound : Nat) (t : Text) : Prop extends Text.Decimal t where
  le : Text.digitsValue t ≤ bound

instance (bound : Nat) : DecidablePred (Text.DecimalUpTo bound) := fun t =>
  decidable_of_iff ((t ≠ [] ∧ (∀ c ∈ t, '0' ≤ c ∧ c ≤ '9') ∧
    (t.head? = some (.char '0') → t = "0")) ∧
      Text.digitsValue t ≤ bound)
    ⟨fun h => ⟨⟨h.1.1, h.1.2.1, h.1.2.2⟩, h.2⟩,
      fun h => ⟨⟨h.nonempty, h.digits, h.noLeadingZero⟩, h.le⟩⟩

namespace Text

/-- The digits of a number to base ten. -/
def decimal (n : Nat) : Text := ofChars (Nat.toDigits 10 n)

variable {t cs : Text} {c : CodePoint} {n : Nat}

theorem Ascii.append {u : Text} : (t ++ u).Ascii ↔ t.Ascii ∧ u.Ascii := List.forall_mem_append

/-- The digits of ASCII come first among those of all scripts. -/
theorem isDigit_ascii_iff (hc : c.toNat < 0x80) : isDigit c = true ↔ '0' ≤ c ∧ c ≤ '9' := by
  constructor
  · intro h
    obtain ⟨z, hz, hrun⟩ := List.any_eq_true.mp h
    unfold inDigitRun at hrun
    rw [Bool.and_eq_true, decide_eq_true_eq, decide_eq_true_eq] at hrun
    have hothers : ∀ z ∈ digitZeros, z = 0x30 ∨ 0x80 ≤ z := by decide
    rcases hothers z hz with rfl | hhigh
    · exact ⟨hrun.1, Nat.le_of_lt_succ hrun.2⟩
    · omega
  · intro h
    exact isDigit_of_ascii h.1 h.2

theorem digitChar_digitValue (h : '0' ≤ c ∧ c ≤ '9') :
    .char (Nat.digitChar (digitValue c)) = c := by
  have hlow : 0x30 ≤ c.toNat := h.1
  have hvalue : digitValue c = c.toNat - 0x30 := digitValue_of_ascii h.1 h.2
  have hchar : (Nat.digitChar (digitValue c)).toNat = 0x30 + digitValue c :=
    Nat.toNat_digitChar_of_lt_ten (digitValue_lt c)
  apply CodePoint.toNat_injective
  rw [CodePoint.toNat, hchar]
  omega

theorem decimal_digitValue (h : '0' ≤ c ∧ c ≤ '9') : decimal (digitValue c) = [c] := by
  unfold decimal
  rw [Nat.toDigits_of_lt_base (digitValue_lt c)]
  exact congrArg (fun d => [d]) (digitChar_digitValue h)

/-- Digits after those of a number are the digits of a greater one. -/
theorem decimal_append (hn : 0 < n) (hcs : ∀ c ∈ cs, '0' ≤ c ∧ c ≤ '9') :
    decimal n ++ cs = decimal (cs.foldl (fun n c => 10 * n + digitValue c) n) := by
  induction cs generalizing n with
  | nil => exact List.append_nil _
  | cons c cs ih =>
    obtain ⟨hc, hcs⟩ := List.forall_mem_cons.mp hcs
    have hnext : decimal n ++ [c] = decimal (10 * n + digitValue c) := by
      rw [← decimal_digitValue hc]
      unfold decimal
      rw [← Nat.toDigits_append_toDigits (by decide) hn (digitValue_lt c)]
      exact List.map_append.symm
    calc
      decimal n ++ c :: cs = decimal n ++ [c] ++ cs := by
        rw [List.append_assoc, List.singleton_append]
      _ = decimal (10 * n + digitValue c) ++ cs := by rw [hnext]
      _ = decimal ((c :: cs).foldl (fun n c => 10 * n + digitValue c) n) := ih (by omega) hcs

/-- A decimal consists of the digits of the number that it denotes. -/
theorem Decimal.eq_decimal (h : t.Decimal) : t = decimal (digitsValue t) := by
  obtain ⟨c, cs, rfl⟩ := List.exists_cons_of_ne_nil h.nonempty
  obtain ⟨hc, hcs⟩ := List.forall_mem_cons.mp h.digits
  by_cases hzero : c = '0'
  · subst hzero
    rw [h.noLeadingZero rfl]
    decide
  · have hpos : 0 < digitValue c := by
      have hlow : 0x30 ≤ c.toNat := hc.1
      have hne : c.toNat ≠ 0x30 := fun heq => hzero (CodePoint.toNat_injective heq)
      rw [digitValue_of_ascii hc.1 hc.2]
      omega
    have happend := decimal_append hpos hcs
    rw [decimal_digitValue hc, List.singleton_append] at happend
    rw [digitsValue_eq_foldl, List.foldl_cons, Nat.mul_zero, Nat.zero_add]
    exact happend

end Text

end TreeSpec
