import TreeSpec.Builtin.Types
import TreeSpec.Proofs.Pattern.Texts
import TreeSpec.Proofs.Registry.Negation
import TreeSpec.Proofs.Registry.Views
import TreeSpec.Proofs.Spec.Arguments
import TreeSpec.Proofs.Text.Numerals

/-!
# Numbers

The type `range` takes the integers between its two bounds, and gives up on numerals that are too
long to be read. The type `port` describes the numbers up to 65535 digit by digit. On numerals
without leading zeros the two agree.
-/

namespace TreeSpec

set_option autoImplicit false

namespace Builtin

/-! ## Digits in patterns -/

section Digits

variable {t : Text} {c d : CodePoint}

theorem contains_digit : (CharSet.of [.category .digit]).contains c = Text.isDigit c := by
  rw [CharSet.contains_of]
  exact Bool.or_false _

theorem mem_texts_digits : t ∈ digit.plus.texts ↔ t.Numeral := by
  unfold digit
  simp only [Regex.mem_texts_plus_set, contains_digit]
  exact Iff.rfl

theorem search_int : int.search t = true ↔ ∃ ds i, t.Integer ds i := by
  have hwhole : int.search t = true ↔ t ∈ (lit '-').optional.texts * digit.plus.texts :=
    Regex.foundIn_whole rfl t
  have hminus (u : Text) : u ∈ (lit '-').texts ↔ u = "-" := by
    rw [Regex.texts_lit]
    rfl
  rw [hwhole, Language.mem_mul]
  simp only [Regex.mem_texts_optional, hminus, mem_texts_digits]
  constructor
  · rintro ⟨_, rfl | rfl, ds, hds, rfl⟩
    · exact ⟨ds, _, .natural hds⟩
    · exact ⟨ds, _, .negative hds⟩
  · rintro ⟨ds, i, h⟩
    cases h with
    | natural h => exact ⟨[], .inl rfl, t, h, rfl⟩
    | negative h => exact ⟨_, .inr rfl, ds, h, rfl⟩

end Digits

/-! ## Ranges -/

section Range

variable {q : Question} {low high ds : Text} {i : Int}

/-- Of a question nothing is read but the value and the arguments. -/
theorem withinBounds_congr {q' : Question} (hvalue : q.value = q'.value)
    (hargs : q.parsedArgs = q'.parsedArgs) :
    withinBounds q = withinBounds q' := by
  unfold withinBounds
  rw [hvalue, hargs]

/-- Two bounds are given, and an integer is compared with them. -/
structure Comparison (q : Question) (low high ds : Text) (i : Int) : Prop where
  args : q.parsedArgs = [low, high]
  low : low.Numeral
  high : high.Numeral
  value : q.value.Integer ds i

theorem withinBounds_of_comparison (h : Comparison q low high ds i) : withinBounds q =
    if maxDigits < low.length then .error (.numeralTooLong low.length)
    else if maxDigits < ds.length then .error (.numeralTooLong ds.length)
    else if (Text.digitsValue low : Int) ≤ i then
      if maxDigits < high.length then .error (.numeralTooLong high.length)
      else .ok (decide (i ≤ Text.digitsValue high))
    else .ok false := by
  have hsearch : (int.search q.value && int.search low && int.search high) = true := by
    rw [Bool.and_eq_true, Bool.and_eq_true, search_int, search_int, search_int]
    exact ⟨⟨⟨ds, i, h.value⟩, ⟨low, _, .natural h.low⟩⟩, ⟨high, _, .natural h.high⟩⟩
  unfold withinBounds
  rw [h.args]
  simp only [hsearch, if_true, Text.readInteger_of_integer h.value,
    Text.readInteger_of_integer (.natural h.low), Text.readInteger_of_integer (.natural h.high)]
  split
  · rfl
  · split
    · rfl
    · show (if _ then _ else _) = _
      split
      · split <;> rfl
      · rfl

theorem Comparison.withinBounds_eq_true_iff (h : Comparison q low high ds i) :
    withinBounds q = .ok true ↔
    low.length ≤ maxDigits ∧ ds.length ≤ maxDigits ∧ high.length ≤ maxDigits ∧
      (Text.digitsValue low : Int) ≤ i ∧ i ≤ Text.digitsValue high := by
  rw [withinBounds_of_comparison h]
  split_ifs <;> simp <;> omega

theorem Comparison.withinBounds_fails_iff (h : Comparison q low high ds i) :
    (∃ e, withinBounds q = .error e) ↔ maxDigits < low.length ∨ maxDigits < ds.length ∨
      (Text.digitsValue low : Int) ≤ i ∧ maxDigits < high.length := by
  rw [withinBounds_of_comparison h]
  split_ifs <;> simp <;> omega

/-- Without two bounds, or without an integer, the answer is no. -/
theorem exists_comparison (hminus : ∀ piece ∈ q.parsedArgs, .char '-' ∉ piece)
    (h : withinBounds q ≠ .ok false) : ∃ low high ds i, Comparison q low high ds i := by
  unfold withinBounds at h
  split at h
  · next low high hargs =>
    rw [hargs] at hminus
    split at h
    · next hsearch =>
      rw [Bool.and_eq_true, Bool.and_eq_true, search_int, search_int, search_int] at hsearch
      obtain ⟨⟨⟨ds, i, hvalue⟩, ⟨_, _, hlow⟩⟩, ⟨_, _, hhigh⟩⟩ := hsearch
      have hlow' := hlow.numeral_of_not_minus (hminus low List.mem_cons_self)
      have hhigh' :=
        hhigh.numeral_of_not_minus (hminus high (List.mem_cons_of_mem _ List.mem_cons_self))
      exact ⟨low, high, ds, i, hargs, hlow', hhigh', hvalue⟩
    · exact absurd rfl h
  · exact absurd rfl h

/-- A bound is never negative, as a minus sign separates arguments. -/
theorem minus_not_mem (x : Alternative) (value : Text) :
    ∀ piece ∈ (x.question value).parsedArgs, .char '-' ∉ piece := by
  intro piece hpiece hmem
  cases not_isArgSeparator_of_mem_splitArgs hpiece hmem

theorem withinBounds_eq_true_iff (hminus : ∀ piece ∈ q.parsedArgs, .char '-' ∉ piece) :
    withinBounds q = .ok true ↔ ∃ low high ds i, Comparison q low high ds i ∧
      low.length ≤ maxDigits ∧ ds.length ≤ maxDigits ∧ high.length ≤ maxDigits ∧
      (Text.digitsValue low : Int) ≤ i ∧ i ≤ Text.digitsValue high := by
  constructor
  · intro hresult
    obtain ⟨low, high, ds, i, h⟩ := exists_comparison hminus (by rw [hresult]; simp)
    exact ⟨low, high, ds, i, h, h.withinBounds_eq_true_iff.mp hresult⟩
  · rintro ⟨low, high, ds, i, h, hbounds⟩
    exact h.withinBounds_eq_true_iff.mpr hbounds

theorem withinBounds_fails_iff (hminus : ∀ piece ∈ q.parsedArgs, .char '-' ∉ piece) :
    (∃ e, withinBounds q = .error e) ↔ ∃ low high ds i, Comparison q low high ds i ∧
      (maxDigits < low.length ∨ maxDigits < ds.length ∨
        (Text.digitsValue low : Int) ≤ i ∧ maxDigits < high.length) := by
  constructor
  · rintro ⟨e, he⟩
    obtain ⟨low, high, ds, i, h⟩ := exists_comparison hminus (by rw [he]; simp)
    exact ⟨low, high, ds, i, h, h.withinBounds_fails_iff.mp ⟨e, he⟩⟩
  · rintro ⟨low, high, ds, i, h, hfault⟩
    exact h.withinBounds_fails_iff.mpr hfault

variable {r : Registry} {probes : Probes} {a : Text}

theorem wellFormed_range (ha : ∀ c ∈ a, Token.endsBlock c = false) :
    (⟨"range", some a⟩ : Alternative).WellFormed := by
  have hname : ∀ c ∈ ("range" : Text), Text.isWord c = true := by decide
  refine ⟨⟨List.cons_ne_nil _ _, hname⟩, ?_⟩
  intro args hargs
  obtain rfl := Option.some.inj hargs
  exact ha

theorem lookup_range (h : r.lookup "range" = (types probes).get? "range") :
    ∃ description, r.lookup "range" = some (.predicate range description) := ⟨_, h⟩

theorem result_run_range (q : Question) : (range.run q).result = withinBounds q := rfl

theorem result_ask_range (description : Text) (q : Question) :
    ((Matcher.predicate range description).ask q).result = withinBounds q := by
  rw [Matcher.result_ask_predicate, result_run_range]

theorem accepts_range (h : r.lookup "range" = (types probes).get? "range")
    (ha : ∀ c ∈ a, Token.endsBlock c = false) (value : Text) :
    (Expression.compile r (⟨"range", some a⟩ : Alternative).spelled).accepts (some value) = true ↔
      withinBounds ((⟨"range", some a⟩ : Alternative).question value) = .ok true := by
  obtain ⟨description, hlookup⟩ := lookup_range h
  rw [Expression.accepts_type (wellFormed_range ha) rfl hlookup, result_ask_range]

/-- The type `range` accepts just the integers between its two bounds, if all three numerals can be
read. Its inversion accepts the other values, unless reading a numeral failed: that of the lower
bound, that of the value, or that of the upper bound where the lower one holds. No negative number
lies in a range. -/
theorem range_is_interval (r : Registry) (probes : Probes) (a value : Text)
    (hrange : r.lookup "range" = (types probes).get? "range") (hno : r.lookup "norange" = none)
    (ha : ∀ c ∈ a, Token.endsBlock c = false) :
    let x : Alternative := ⟨"range", some a⟩
    let q : Question := x.question value
    ((Expression.compile r x.spelled).accepts (some value) = true ↔
      ∃ low high ds i, Comparison q low high ds i ∧
        low.length ≤ maxDigits ∧ ds.length ≤ maxDigits ∧ high.length ≤ maxDigits ∧
        (Text.digitsValue low : Int) ≤ i ∧ i ≤ Text.digitsValue high) ∧
    ((Expression.compile r x.inverted.spelled).accepts (some value) = true ↔
      (Expression.compile r x.spelled).accepts (some value) = false ∧
        ¬ ∃ e, (range.run q).result = .error e) ∧
    ((∃ e, (range.run q).result = .error e) ↔ ∃ low high ds i, Comparison q low high ds i ∧
      (maxDigits < low.length ∨ maxDigits < ds.length ∨
        (Text.digitsValue low : Int) ≤ i ∧ maxDigits < high.length)) ∧
    ∀ ds i, value.Integer ds i → i < 0 →
      (Expression.compile r x.spelled).accepts (some value) = false := by
  intro x q
  have hminus : ∀ piece ∈ q.parsedArgs, .char '-' ∉ piece := minus_not_mem x value
  have haccepts :
      (Expression.compile r x.spelled).accepts (some value) = true ↔ withinBounds q = .ok true :=
    accepts_range hrange ha value
  have hinterval := haccepts.trans (withinBounds_eq_true_iff hminus)
  refine ⟨hinterval, ?_, withinBounds_fails_iff hminus, ?_⟩
  · obtain ⟨description, hlookup⟩ := lookup_range hrange
    have hinverted := Expression.accepts_inversion (wellFormed_range ha) hlookup hno value
    rw [result_ask_range] at hinverted
    rw [hinverted, result_run_range, ← Bool.not_eq_true, haccepts]
    -- What comes of a comparison is an answer or a failure.
    cases withinBounds q with
    | error e => simp
    | ok answer => cases answer <;> simp
  · intro ds i hvalue hneg
    rw [← Bool.not_eq_true, hinterval]
    rintro ⟨low, high, ds', i', h, -, -, -, hlow, -⟩
    have hsame := hvalue.unique h.value
    omega

/-- A minus sign before zero is no matter. Neither the range nor its inversion accepts a numeral of
4301 digits. -/
theorem range_of_numeral_too_long :
    let r := Registry.new 0 (types World.empty.probes) []
    let accepts (spec value : Text) := (Expression.compile r spec).accepts (some value)
    let long : Text := List.replicate 4301 (.char '7')
    accepts "range( 0-09)" "-0" = true ∧ accepts "norange( 0-09)" "-1" = true ∧
      accepts "range( 0-09)" long = false ∧ accepts "norange( 0-09)" long = false := by
  intro r accepts long
  have hrange : r.lookup "range" = (types World.empty.probes).get? "range" := rfl
  have hargs : ∀ c ∈ (" 0-09" : Text), Token.endsBlock c = false := by decide
  have hranges (value : Text) :=
    range_is_interval r World.empty.probes " 0-09" value hrange rfl hargs
  have hnumeral : ∀ t ∈ (["0", "09", "1"] : List Text), t.Numeral := by
    unfold Text.Numeral
    decide
  have hlow := hnumeral "0" (by decide)
  have hhigh := hnumeral "09" (by decide)
  have hone := hnumeral "1" (by decide)
  have hlong : long.Integer long (Text.digitsValue long) := by
    refine .natural ⟨List.cons_ne_nil _ _, fun c hc => ?_⟩
    rw [List.eq_of_mem_replicate hc]
    decide
  have hfails := (hranges long).2.2.1.mpr ⟨"0", "09", long, _, ⟨by decide, hlow, hhigh, hlong⟩,
    .inr (.inl (by rw [List.length_replicate]; decide))⟩
  refine ⟨?_, ?_, ?_, ?_⟩
  · apply (hranges "-0").1.mpr
    exact ⟨"0", "09", "0", _, ⟨by decide, hlow, hhigh, .negative hlow⟩, by decide⟩
  · obtain ⟨-, hinversion, -, hnegative⟩ := hranges "-1"
    apply hinversion.mpr
    refine ⟨hnegative "1" _ (.negative hone) (by decide), ?_⟩
    intro h
    obtain ⟨e, he⟩ := h
    cases he
  · rw [← Bool.not_eq_true]
    intro h
    obtain ⟨e, he⟩ := hfails
    rw [result_run_range, (accepts_range hrange hargs long).mp h] at he
    cases he
  · exact Bool.eq_false_iff.mpr fun h => ((hranges long).2.1.mp h).2 hfails

end Range

/-! ## Ports -/

section Port

variable {t u : Text} {c d : CodePoint} {i : SetItem} {items : List SetItem}

/-- At each place of the text is a character that the item for that place holds. -/
def Fits (t : Text) (items : List SetItem) : Prop :=
  List.Forall₂ (fun c i => i.contains c = true) t items

/-- The greatest digit of an item that holds nothing but digits. -/
def greatestDigit? : SetItem → Option CodePoint
  | .char c => if '0' ≤ c ∧ c ≤ '9' then some c else none
  | .range first last => if '0' ≤ first ∧ last ≤ '9' then some last else none
  | .category .digit => some '9'
  | .category _ | .exceptCategory _ => none

theorem le_greatestDigit (h : greatestDigit? i = some d) (hc : i.contains c = true) :
    Text.isDigit c = true ∧ Text.digitValue c ≤ Text.digitValue d := by
  unfold greatestDigit? at h
  split at h
  · next e =>
    split at h
    · next he =>
      cases h
      obtain rfl : c = d := of_decide_eq_true hc
      exact ⟨Text.isDigit_of_ascii he.1 he.2, Nat.le_refl _⟩
    · cases h
  · next first last =>
    split at h
    · next he =>
      cases h
      rw [SetItem.contains, Bool.and_eq_true, decide_eq_true_eq, decide_eq_true_eq] at hc
      have hlow : '0' ≤ c := Nat.le_trans he.1 hc.1
      have hhigh : c ≤ '9' := Nat.le_trans hc.2 he.2
      refine ⟨Text.isDigit_of_ascii hlow hhigh, ?_⟩
      rw [Text.digitValue_of_ascii hlow hhigh,
        Text.digitValue_of_ascii (Nat.le_trans hlow hc.2) he.2]
      exact Nat.sub_le_sub_right hc.2 _
    · cases h
  · cases h
    exact ⟨hc, Nat.le_of_lt_succ (Text.digitValue_lt c)⟩
  · cases h
  · cases h

/-- A numeral is at most the number of the greatest digits that its places allow. -/
theorem digitsValue_le_greatest (ht : Fits t items) (hu : items.mapM greatestDigit? = some u) :
    (∀ c ∈ t, Text.isDigit c = true) ∧ t.length = u.length ∧
    Text.digitsValue t ≤ Text.digitsValue u := by
  unfold Fits at ht
  induction ht generalizing u with
  | nil =>
    cases hu
    exact ⟨fun _ hc => absurd hc List.not_mem_nil, rfl, Nat.le_refl _⟩
  | cons hc _ ih =>
    rw [List.mapM_cons] at hu
    obtain ⟨d, hd, hu⟩ := Option.bind_eq_some_iff.mp hu
    obtain ⟨ds, hds, hu⟩ := Option.bind_eq_some_iff.mp hu
    cases hu
    obtain ⟨hdigit, hle⟩ := le_greatestDigit hd hc
    obtain ⟨hdigits, hlength, hrest⟩ := ih hds
    refine ⟨List.forall_mem_cons.mpr ⟨hdigit, hdigits⟩, congrArg (· + 1) hlength, ?_⟩
    rw [Text.digitsValue_cons, Text.digitsValue_cons, hlength]
    exact Nat.add_le_add (Nat.mul_le_mul_right _ hle) hrest

/-- What the places of a port of five digits allow. -/
def fiveDigits : List (List SetItem) :=
  let any : SetItem := .category .digit
  [[.char '6', .char '5', .char '5', .char '3', .range '0' '5'],
    [.char '6', .char '5', .char '5', .range '0' '2', any],
    [.char '6', .char '5', .range '0' '4', any, any], [.char '6', .range '0' '4', any, any, any],
    [.range '1' '5', any, any, any, any]]

theorem mem_texts_iff_fits {r : Regex} (h : r.classes? = some (items.map fun i => .of [i])) :
    t ∈ r.texts ↔ Fits t items := by
  rw [Regex.mem_texts_of_classes? h, Fits]
  simp only [List.forall₂_map_right_iff, CharSet.contains_of, List.any_cons, List.any_nil,
    Bool.or_false]

theorem search_port : port.search t = true ↔
    (∃ items ∈ fiveDigits, Fits t items) ∨
      1 ≤ t.length ∧ t.length ≤ 4 ∧ ∀ c ∈ t, Text.isDigit c = true := by
  have hforms : port.search t = true ↔ _ :=
    (Regex.foundIn_whole rfl t).trans (Regex.mem_texts_choice (List.cons_ne_nil _ _))
  have hshort : t ∈ (digit.between 1 4).texts ↔
      1 ≤ t.length ∧ t.length ≤ 4 ∧ ∀ c ∈ t, Text.isDigit c = true := by
    unfold digit
    rw [Regex.mem_texts_between_set (by decide)]
    simp only [contains_digit]
  rw [hforms, ← hshort]
  simp only [List.exists_mem_cons_iff, List.not_mem_nil, false_and, exists_false, or_false,
    fiveDigits, or_assoc]
  exact or_congr (mem_texts_iff_fits rfl)
    (or_congr (mem_texts_iff_fits rfl) (or_congr (mem_texts_iff_fits rfl)
    (or_congr (mem_texts_iff_fits rfl) (or_congr (mem_texts_iff_fits rfl) Iff.rfl))))

/-- A port is a numeral that denotes a number up to 65535. -/
theorem le_of_search_port (h : port.search t = true) :
    t.Numeral ∧ t.length ≤ 5 ∧ Text.digitsValue t ≤ 65535 := by
  have hgreatest : ∀ items ∈ fiveDigits, ∃ u, items.mapM greatestDigit? = some u ∧
      u.length = 5 ∧ Text.digitsValue u ≤ 65535 := by
    simp only [fiveDigits, List.forall_mem_cons]
    exact ⟨⟨"65535", by decide⟩, ⟨"65529", by decide⟩, ⟨"65499", by decide⟩,
      ⟨"64999", by decide⟩, ⟨"59999", by decide⟩, fun _ h => absurd h List.not_mem_nil⟩
  rcases search_port.mp h with ⟨items, hitems, ht⟩ | ⟨hlow, hhigh, hdigits⟩
  · obtain ⟨u, hu, hlength, hle⟩ := hgreatest items hitems
    obtain ⟨hdigits, hsame, hbound⟩ := digitsValue_le_greatest ht hu
    have hne : t ≠ [] := List.ne_nil_of_length_pos (by omega)
    exact ⟨⟨hne, hdigits⟩, by omega, Nat.le_trans hbound hle⟩
  · have hlt := Text.digitsValue_lt t
    have hpow : 10 ^ t.length ≤ 10 ^ 4 := Nat.pow_le_pow_right (by decide) hhigh
    have hne : t ≠ [] := List.ne_nil_of_length_pos hlow
    exact ⟨⟨hne, hdigits⟩, by omega, by omega⟩

theorem contains_of_toNat (h : c.toNat = d.toNat) : (SetItem.char d).contains c = true :=
  decide_eq_true (CodePoint.toNat_injective h)

theorem contains_of_between {first last : CodePoint} (h : first.toNat ≤ c.toNat)
    (h' : c.toNat ≤ last.toNat) :
    (SetItem.range first last).contains c = true := by
  rw [SetItem.contains, Bool.and_eq_true, decide_eq_true_eq, decide_eq_true_eq]
  exact ⟨h, h'⟩

/-- A numeral in ASCII without leading zeros is a port if it denotes a number up to 65535. -/
theorem search_port_of_ascii (hne : t ≠ []) (hascii : ∀ c ∈ t, '0' ≤ c ∧ c ≤ '9')
    (hzero : t.head? ≠ some (.char '0') ∨ t = "0") (hle : Text.digitsValue t ≤ 65535) :
    port.search t = true := by
  have hdigits : ∀ c ∈ t, Text.isDigit c = true :=
    fun c hc => Text.isDigit_of_ascii (hascii c hc).1 (hascii c hc).2
  rw [search_port]
  by_cases hshort : t.length ≤ 4
  · exact .inr ⟨List.length_pos_iff.mpr hne, hshort, hdigits⟩
  left
  have hhead : t.head? ≠ some (.char '0') := by
    rcases hzero with h | rfl
    · exact h
    · exact absurd (show List.length ("0" : Text) ≤ 4 by decide) hshort
  obtain ⟨a, t, rfl⟩ := List.exists_cons_of_ne_nil hne
  obtain ⟨ha, hrest⟩ := List.forall_mem_cons.mp hascii
  -- The first digit is not zero, so the number has five digits.
  have hfirst : a.toNat ≠ 0x30 := fun h => hhead (congrArg some (CodePoint.toNat_injective h))
  have hlow : 0x30 ≤ a.toNat := ha.1
  have hvalue : Text.digitValue a ≠ 0 := by
    rw [Text.digitValue_of_ascii ha.1 ha.2]
    omega
  have hlength : t.length = 4 := by
    rw [List.length_cons] at hshort
    have hpow := Nat.le_trans (Text.le_digitsValue_cons hvalue) hle
    have hlt : t.length < 5 := (Nat.pow_lt_pow_iff_right (a := 10) (by decide)).mp (by omega)
    omega
  obtain ⟨b, c, d, e, rfl⟩ : ∃ b c d e, t = [b, c, d, e] := by
    match t, hlength with
    | [b, c, d, e], _ => exact ⟨b, c, d, e, rfl⟩
  simp only [List.forall_mem_cons] at hrest
  obtain ⟨hb, hc, hd, he, -⟩ := hrest
  have hsum : 10 * (10 * (10 * (10 * (a.toNat - 0x30) + (b.toNat - 0x30)) + (c.toNat - 0x30)) +
      (d.toNat - 0x30)) + (e.toNat - 0x30) ≤ 65535 := by
    simpa [Text.digitsValue_eq_foldl, Text.digitValue_of_ascii, ha, hb, hc, hd, he] using hle
  have hb' : 0x30 ≤ b.toNat := hb.1
  have hc' : 0x30 ≤ c.toNat := hc.1
  have hd' : 0x30 ≤ d.toNat := hd.1
  have he' : 0x30 ≤ e.toNat := he.1
  -- The digits are below those of 65535 at the first place where they differ from them.
  have hplace : a.toNat ≤ 0x35 ∨
      a.toNat = 0x36 ∧ (b.toNat ≤ 0x34 ∨ b.toNat = 0x35 ∧ (c.toNat ≤ 0x34 ∨
      c.toNat = 0x35 ∧ (d.toNat ≤ 0x32 ∨ d.toNat = 0x33 ∧ e.toNat ≤ 0x35))) := by
    omega
  have hany : ∀ x : CodePoint, '0' ≤ x ∧ x ≤ '9' → (SetItem.category .digit).contains x = true :=
    fun _ hx => Text.isDigit_of_ascii hx.1 hx.2
  unfold fiveDigits Fits
  simp only [List.exists_mem_cons_iff, List.not_mem_nil, false_and, exists_false, or_false,
    List.forall₂_cons, List.forall₂_nil_right_iff, and_true]
  rcases hplace with h | ⟨h₁, h | ⟨h₂, h | ⟨h₃, h | ⟨h₄, h⟩⟩⟩⟩
  · have hone : 0x31 ≤ a.toNat := by omega
    exact .inr
      (.inr (.inr (.inr ⟨contains_of_between hone h, hany b hb, hany c hc, hany d hd, hany e he⟩)))
  · exact .inr
      (.inr (.inr (.inl ⟨contains_of_toNat h₁, contains_of_between hb.1 h, hany c hc, hany d hd,
        hany e he⟩)))
  · exact .inr (.inr (.inl ⟨contains_of_toNat h₁, contains_of_toNat h₂,
      contains_of_between hc.1 h, hany d hd, hany e he⟩))
  · exact .inr (.inl ⟨contains_of_toNat h₁, contains_of_toNat h₂, contains_of_toNat h₃,
      contains_of_between hd.1 h, hany e he⟩)
  · exact .inl ⟨contains_of_toNat h₁, contains_of_toNat h₂, contains_of_toNat h₃,
      contains_of_toNat h₄, contains_of_between he.1 h⟩

/-- Between these bounds lie the integers up to 65535, numerals with leading zeros included. -/
theorem withinBounds_of_ports (value : Text) :
    withinBounds ((⟨"range", some "0-65535"⟩ : Alternative).question value) = .ok true ↔
      ∃ ds i, value.Integer ds i ∧ ds.length ≤ maxDigits ∧ 0 ≤ i ∧ i ≤ 65535 := by
  have hargs : splitArgs (some "0-65535") = (["0", "65535"] : List Text) := by decide
  have hlow : ("0" : Text).Numeral := ⟨List.cons_ne_nil _ _, by decide⟩
  have hhigh : ("65535" : Text).Numeral := ⟨List.cons_ne_nil _ _, by decide⟩
  have hleast : Text.digitsValue "0" = 0 := by decide
  have hgreatest : Text.digitsValue "65535" = 65535 := by decide
  rw [withinBounds_eq_true_iff (minus_not_mem _ value)]
  constructor
  · rintro ⟨low, high, ds, i, h, -, hlength, -, hbounds⟩
    obtain ⟨rfl, rfl⟩ : low = "0" ∧ high = "65535" := by
      simpa only [List.cons.injEq, and_true] using h.args.symm.trans hargs
    rw [hleast, hgreatest] at hbounds
    exact ⟨ds, i, h.value, hlength, hbounds⟩
  · rintro ⟨ds, i, hvalue, hlength, hbounds⟩
    refine ⟨"0", "65535", ds, i, ⟨hargs, hlow, hhigh, hvalue⟩, by decide, hlength, by decide, ?_⟩
    rw [hleast, hgreatest]
    exact hbounds

/-- A port lies in the range from 0 to 65535. Conversely, of the numerals in ASCII that have no
leading zeros those in the range are ports. -/
theorem port_agrees_with_range (r : Registry) (probes : Probes) (value : Text)
    (hport : r.lookup "port" = (types probes).get? "port")
    (hrange : r.lookup "range" = (types probes).get? "range") :
    let accepts (spec : Text) : Bool := (Expression.compile r spec).accepts (some value)
    (accepts "port" = true → accepts "range(0-65535)" = true) ∧
    ((∀ c ∈ value, '0' ≤ c ∧ c ≤ '9') → value.head? ≠ some (.char '0') ∨ value = "0" →
      accepts "range(0-65535)" = true → accepts "port" = true) := by
  intro accepts
  have haccepts : accepts "port" = true ↔ port.search value = true :=
    Expression.accepts_pattern ⟨List.cons_ne_nil _ _, by decide⟩ (by decide) hport value
  have hbounds : accepts "range(0-65535)" = true ↔ _ :=
    (accepts_range hrange (by decide) value).trans (withinBounds_of_ports value)
  rw [haccepts, hbounds]
  constructor
  · intro h
    obtain ⟨hnumeral, hlength, hle⟩ := le_of_search_port h
    exact ⟨value, _, .natural hnumeral, Nat.le_trans hlength (by decide), Int.natCast_nonneg _,
      Int.ofNat_le.mpr hle⟩
  · rintro hascii hzero ⟨ds, i, hvalue, -, -, hle⟩
    cases hvalue with
    | natural h => exact search_port_of_ascii h.1 hascii hzero (Int.ofNat_le.mp hle)
    | negative => exact absurd (hascii _ List.mem_cons_self) (by decide)

/-- A port in digits of two scripts, and the greatest one in ASCII. -/
theorem range_of_port_in_other_digits :
    let r := Registry.new 0 (types World.empty.probes) []
    let accepts (spec value : Text) := (Expression.compile r spec).accepts (some value)
    accepts "range(0-65535)" "6552٩" = true ∧ accepts "port" "65535" = true := by
  intro r accepts
  have hrange : r.lookup "range" = (types World.empty.probes).get? "range" := rfl
  have hports (value : Text) := port_agrees_with_range r World.empty.probes value rfl hrange
  have hother : accepts "port" "6552٩" = true := by
    refine (Expression.accepts_pattern ⟨List.cons_ne_nil _ _, by decide⟩ (by decide) rfl _).mpr ?_
    exact search_port.mpr (.inl ⟨_, .tail _ (.head _),
      .cons (by decide) (.cons (by decide) (.cons (by decide)
      (.cons (by decide) (.cons (by decide) .nil))))⟩)
  have hgreatest : accepts "range(0-65535)" "65535" = true := by
    refine (accepts_range hrange (by decide) _).mpr ((withinBounds_of_ports _).mpr ?_)
    exact ⟨"65535", _, .natural ⟨List.cons_ne_nil _ _, by decide⟩, by decide⟩
  exact ⟨(hports _).1 hother, (hports _).2 (by decide) (.inl (by decide)) hgreatest⟩

end Port

end Builtin

end TreeSpec
