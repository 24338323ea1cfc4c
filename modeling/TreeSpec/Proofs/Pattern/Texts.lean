import Mathlib.Computability.Language
import Mathlib.Data.List.Forall2
import TreeSpec.Builtin.Patterns
import TreeSpec.Pattern.Language

/-!
# Texts of a regular expression

An expression without conditions describes a language: what lies between the two ends of a match
does not depend on where the match stands. A pattern that holds on to both ends of a text is found
in the texts that the parts between the ends describe, and in no others.
-/

namespace TreeSpec

set_option autoImplicit false

namespace Cursor

/-- The text from one place to another. -/
def Spans : Cursor → Text → Cursor → Prop
  | c, [], d => d = c
  | c, ch :: t, e => ∃ d, c.next? = some (ch, d) ∧ d.Spans t e

variable {c d e : Cursor} {t u : Text}

theorem spans_append : c.Spans (t ++ u) e ↔ ∃ d, c.Spans t d ∧ d.Spans u e := by
  induction t generalizing c with
  | nil =>
    constructor
    · intro h
      exact ⟨c, rfl, h⟩
    · rintro ⟨d, rfl, h⟩
      exact h
  | cons ch t ih =>
    constructor
    · rintro ⟨d, hd, h⟩
      obtain ⟨d', hd', h⟩ := ih.mp h
      exact ⟨d', ⟨d, hd, hd'⟩, h⟩
    · rintro ⟨d', ⟨d, hd, hd'⟩, h⟩
      exact ⟨d, hd, ih.mpr ⟨d', hd', h⟩⟩

theorem spans_between {left right : Text} : (between left right).Spans t d ↔
    ∃ after, right = t ++ after ∧ d = between (left ++ t) after := by
  induction t generalizing left right with
  | nil =>
    constructor
    · rintro rfl
      exact ⟨right, rfl, by rw [List.append_nil]⟩
    · rintro ⟨after, rfl, rfl⟩
      rw [List.append_nil]
      rfl
  | cons ch t ih =>
    constructor
    · rintro ⟨e, he, h⟩
      cases right with
      | nil => cases he
      | cons ch' right =>
        rw [next?_between_cons] at he
        cases he
        obtain ⟨after, rfl, rfl⟩ := ih.mp h
        exact ⟨after, rfl, by rw [List.append_assoc, List.singleton_append]⟩
    · rintro ⟨after, rfl, rfl⟩
      refine ⟨_, next?_between_cons left ch (t ++ after), ih.mpr ⟨after, rfl, ?_⟩⟩
      rw [List.append_assoc, List.singleton_append]

end Cursor

namespace Regex

/-- The expression sets no condition on places. -/
def isFree : Regex → Bool
  | empty | set _ => true
  | anchor _ => false
  | seq first second | alt first second => first.isFree && second.isFree
  | times body _ _ => body.isFree

/-- The texts that an expression without conditions describes. -/
def texts : Regex → Language CodePoint
  | empty => 1
  | set s => {t | ∃ c, s.contains c = true ∧ t = [c]}
  | anchor _ => 0
  | seq first second => first.texts * second.texts
  | alt first second => first.texts + second.texts
  | times body low more => {t | ∃ n, (∀ k ∈ more, n ≤ k) ∧ t ∈ body.texts ^ (low + n)}

section Matches

variable {r : Regex} {c d : Cursor}

theorem turns_iff_spans {R : Cursor → Cursor → Prop} {l : Language CodePoint}
    (h : ∀ c d, R c d ↔ ∃ t ∈ l, c.Spans t d) (n : Nat) (c d : Cursor) :
    Turns R n c d ↔ ∃ t ∈ l ^ n, c.Spans t d := by
  induction n generalizing c with
  | zero =>
    rw [Turns.zero_iff, pow_zero]
    constructor
    · rintro rfl
      exact ⟨[], rfl, rfl⟩
    · rintro ⟨t, rfl, ht⟩
      exact ht
  | succ n ih =>
    rw [Turns.succ_iff, pow_succ']
    constructor
    · rintro ⟨e, hturn, hmore⟩
      obtain ⟨t, ht, hce⟩ := (h c e).mp hturn
      obtain ⟨u, hu, hed⟩ := (ih e).mp hmore
      exact ⟨t ++ u, Language.append_mem_mul ht hu, Cursor.spans_append.mpr ⟨e, hce, hed⟩⟩
    · rintro ⟨_, ⟨t, ht, u, hu, rfl⟩, hcd⟩
      obtain ⟨e, hce, hed⟩ := Cursor.spans_append.mp hcd
      exact ⟨e, (h c e).mpr ⟨t, ht, hce⟩, (ih e).mpr ⟨u, hu, hed⟩⟩

/-- The matches of an expression without conditions are the places that one of its texts lies
between. -/
theorem matches_iff_spans (hfree : r.isFree = true) (c d : Cursor) :
    r.Matches c d ↔ ∃ t ∈ r.texts, c.Spans t d := by
  induction r generalizing c d with
  | empty =>
    constructor
    · rintro rfl
      exact ⟨[], rfl, rfl⟩
    · rintro ⟨t, rfl, ht⟩
      exact ht
  | set s =>
    constructor
    · rintro ⟨ch, hnext, hch⟩
      exact ⟨[ch], ⟨ch, hch, rfl⟩, d, hnext, rfl⟩
    · rintro ⟨_, ⟨ch, hch, rfl⟩, e, hnext, rfl⟩
      exact ⟨ch, hnext, hch⟩
  | anchor a => cases hfree
  | seq r s ihr ihs =>
    obtain ⟨hr, hs⟩ := (Bool.and_eq_true ..).mp hfree
    constructor
    · rintro ⟨e, hce, hed⟩
      obtain ⟨t, ht, hce⟩ := (ihr hr c e).mp hce
      obtain ⟨u, hu, hed⟩ := (ihs hs e d).mp hed
      exact ⟨t ++ u, Language.append_mem_mul ht hu, Cursor.spans_append.mpr ⟨e, hce, hed⟩⟩
    · rintro ⟨_, ⟨t, ht, u, hu, rfl⟩, hcd⟩
      obtain ⟨e, hce, hed⟩ := Cursor.spans_append.mp hcd
      exact ⟨e, (ihr hr c e).mpr ⟨t, ht, hce⟩, (ihs hs e d).mpr ⟨u, hu, hed⟩⟩
  | alt r s ihr ihs =>
    obtain ⟨hr, hs⟩ := (Bool.and_eq_true ..).mp hfree
    have hmem : ∀ t, t ∈ (alt r s).texts ↔ t ∈ r.texts ∨ t ∈ s.texts := fun _ => Iff.rfl
    simp only [Matches, ihr hr, ihs hs, hmem, or_and_right, exists_or]
  | times r low more ih =>
    constructor
    · rintro ⟨n, hn, hturns⟩
      obtain ⟨t, ht, hcd⟩ := (turns_iff_spans (ih hfree) _ c d).mp hturns
      exact ⟨t, ⟨n, hn, ht⟩, hcd⟩
    · rintro ⟨t, ⟨n, hn, ht⟩, hcd⟩
      exact ⟨n, hn, (turns_iff_spans (ih hfree) _ c d).mpr ⟨t, ht, hcd⟩⟩

/-- An expression without conditions is found in the texts that have one of its texts somewhere in
them. -/
theorem foundIn_iff_occurs (hfree : r.isFree = true) (text : Text) :
    r.foundIn text = true ↔ ∃ t ∈ r.texts, t <:+: text := by
  rw [foundIn_iff]
  simp only [matches_iff_spans hfree]
  constructor
  · rintro ⟨skipped, _, rfl, d, t, ht, hspans⟩
    obtain ⟨after, rfl, -⟩ := Cursor.spans_between.mp hspans
    exact ⟨t, ht, skipped, after, List.append_assoc ..⟩
  · rintro ⟨t, ht, skipped, after, rfl⟩
    exact ⟨skipped, t ++ after, List.append_assoc .., _, t, ht,
      Cursor.spans_between.mpr ⟨after, rfl, rfl⟩⟩

theorem matches_concat_cons {rs : List Regex} :
    (concat (r :: rs)).Matches c d ↔ ∃ e, r.Matches c e ∧ (concat rs).Matches e d := by
  cases rs with
  | nil =>
    constructor
    · intro h
      exact ⟨d, h, rfl⟩
    · rintro ⟨e, h, rfl⟩
      exact h
  | cons s rs => exact Iff.rfl

theorem matches_concat_append {rs ss : List Regex} :
    (concat (rs ++ ss)).Matches c d ↔ ∃ e, (concat rs).Matches c e ∧ (concat ss).Matches e d := by
  induction rs generalizing c with
  | nil =>
    constructor
    · intro h
      exact ⟨c, rfl, h⟩
    · rintro ⟨e, rfl, h⟩
      exact h
  | cons r rs ih =>
    simp only [List.cons_append, matches_concat_cons, ih]
    constructor
    · rintro ⟨e, hr, e', hrs, hss⟩
      exact ⟨e', ⟨e, hr, hrs⟩, hss⟩
    · rintro ⟨e', ⟨e, hr, hrs⟩, hss⟩
      exact ⟨e, hr, e', hrs, hss⟩

/-- The parts of a pattern that holds on to both ends describe the whole text in which it is
found. -/
theorem foundIn_whole {parts : List Regex} (hfree : (concat parts).isFree = true) (text : Text) :
    (Builtin.whole parts).foundIn text = true ↔ text ∈ (concat parts).texts := by
  have hmatches : ∀ c d, (Builtin.whole parts).Matches c d ↔
      c.before.isNone = true ∧ (∃ t ∈ (concat parts).texts, c.Spans t d) ∧
      d.rest.isEmpty = true := by
    intro c d
    unfold Builtin.whole
    rw [List.cons_append, matches_concat_cons]
    simp only [matches_concat_append, matches_iff_spans hfree]
    constructor
    · rintro ⟨_, ⟨rfl, hstart⟩, e, hparts, rfl, hend⟩
      exact ⟨hstart, hparts, hend⟩
    · rintro ⟨hstart, hparts, hend⟩
      exact ⟨c, ⟨rfl, hstart⟩, d, hparts, rfl, hend⟩
  rw [foundIn_iff]
  constructor
  · rintro ⟨skipped, rest, rfl, d, h⟩
    obtain ⟨hstart, ⟨t, ht, hspans⟩, hend⟩ := (hmatches _ _).mp h
    obtain ⟨after, rfl, rfl⟩ := Cursor.spans_between.mp hspans
    obtain rfl := List.getLast?_eq_none_iff.mp (Option.isNone_iff_eq_none.mp hstart)
    obtain rfl := List.isEmpty_iff.mp hend
    rw [List.nil_append, List.append_nil]
    exact ht
  · intro h
    have hspans : (Cursor.between [] text).Spans text (.between ([] ++ text) []) :=
      Cursor.spans_between.mpr ⟨[], (List.append_nil text).symm, rfl⟩
    exact ⟨[], text, rfl, _, (hmatches _ _).mpr ⟨rfl, ⟨text, h, hspans⟩, rfl⟩⟩

end Matches

section Texts

variable {r : Regex} {rs : List Regex} {s : CharSet} {t : Text} {m n : Nat}

theorem texts_concat_cons : (concat (r :: rs)).texts = r.texts * (concat rs).texts := by
  cases rs with
  | nil => exact (mul_one r.texts).symm
  | cons => rfl

theorem texts_concat_pair {r' : Regex} : (concat [r, r']).texts = r.texts * r'.texts := rfl

theorem texts_concat_append {ss : List Regex} :
    (concat (rs ++ ss)).texts = (concat rs).texts * (concat ss).texts := by
  induction rs with
  | nil => exact (one_mul (concat ss).texts).symm
  | cons r rs ih => rw [List.cons_append, texts_concat_cons, texts_concat_cons, ih, mul_assoc]

theorem mem_texts_choice (hne : rs ≠ []) : t ∈ (choice rs).texts ↔ ∃ r ∈ rs, t ∈ r.texts := by
  induction rs with
  | nil => exact absurd rfl hne
  | cons r rs ih =>
    rw [List.exists_mem_cons_iff]
    cases rs with
    | nil => simp [choice]
    | cons s rs => exact or_congr_right (ih (List.cons_ne_nil s rs))

theorem mem_texts_optional : t ∈ r.optional.texts ↔ t = [] ∨ t ∈ r.texts := by
  constructor
  · rintro ⟨n, hn, ht⟩
    rcases Nat.le_one_iff_eq_zero_or_eq_one.mp (hn 1 rfl) with rfl | rfl
    · exact .inl ht
    · rw [Nat.zero_add, pow_one] at ht
      exact .inr ht
  · rintro (rfl | ht)
    · exact ⟨0, fun _ _ => Nat.zero_le _, rfl⟩
    · refine ⟨1, fun k hk => le_of_eq (Option.some.inj hk), ?_⟩
      rw [Nat.zero_add, pow_one]
      exact ht

theorem mem_texts_plus : t ∈ r.plus.texts ↔ ∃ k, 1 ≤ k ∧ t ∈ r.texts ^ k := by
  constructor
  · rintro ⟨n, -, ht⟩
    exact ⟨1 + n, Nat.le_add_right 1 n, ht⟩
  · rintro ⟨k, hk, ht⟩
    refine ⟨k - 1, ?_, ?_⟩
    · intro more hmore
      cases hmore
    · rw [Nat.add_sub_cancel' hk]
      exact ht

theorem texts_exactly : (r.exactly n).texts = r.texts ^ n := by
  ext t
  constructor
  · rintro ⟨k, hk, ht⟩
    rw [Nat.le_zero.mp (hk 0 rfl)] at ht
    exact ht
  · intro ht
    exact ⟨0, fun _ _ => Nat.zero_le _, ht⟩

theorem mem_texts_between (h : m ≤ n) :
    t ∈ (r.between m n).texts ↔ ∃ k, m ≤ k ∧ k ≤ n ∧ t ∈ r.texts ^ k := by
  constructor
  · rintro ⟨k, hk, ht⟩
    have hle : k ≤ n - m := hk (n - m) rfl
    exact ⟨m + k, Nat.le_add_right m k, by omega, ht⟩
  · rintro ⟨k, hmk, hkn, ht⟩
    refine ⟨k - m, ?_, ?_⟩
    · intro more hmore
      obtain rfl : n - m = more := Option.some.inj hmore
      omega
    · rw [Nat.add_sub_cancel' hmk]
      exact ht

theorem texts_between_one (r : Regex) : (r.between 1 1).texts = r.texts := by
  have hexactly : (r.between 1 1).texts = r.texts ^ 1 := texts_exactly
  rw [hexactly, pow_one]

/-! ### Characters -/

theorem mem_texts_set_pow :
    t ∈ (set s).texts ^ n ↔ t.length = n ∧ ∀ c ∈ t, s.contains c = true := by
  induction n generalizing t with
  | zero =>
    rw [pow_zero, Language.mem_one, List.length_eq_zero_iff]
    constructor
    · rintro rfl
      exact ⟨rfl, fun _ hc => absurd hc List.not_mem_nil⟩
    · exact And.left
  | succ n ih =>
    rw [pow_succ']
    constructor
    · rintro ⟨_, ⟨c, hc, rfl⟩, u, hu, rfl⟩
      obtain ⟨hlength, hall⟩ := ih.mp hu
      exact ⟨congrArg (· + 1) hlength, List.forall_mem_cons.mpr ⟨hc, hall⟩⟩
    · rintro ⟨hlength, hall⟩
      obtain ⟨c, u, rfl⟩ := List.exists_cons_of_length_eq_add_one hlength
      obtain ⟨hc, hu⟩ := List.forall_mem_cons.mp hall
      have hset : [c] ∈ (set s).texts := ⟨c, hc, rfl⟩
      exact Language.append_mem_mul hset (ih.mpr ⟨Nat.succ.inj hlength, hu⟩)

theorem mem_texts_plus_set :
    t ∈ (set s).plus.texts ↔ t ≠ [] ∧ ∀ c ∈ t, s.contains c = true := by
  simp only [mem_texts_plus, mem_texts_set_pow]
  constructor
  · rintro ⟨k, hk, hlength, hall⟩
    exact ⟨List.ne_nil_of_length_pos (by omega), hall⟩
  · rintro ⟨hne, hall⟩
    exact ⟨t.length, List.length_pos_iff.mpr hne, rfl, hall⟩

theorem mem_texts_star : t ∈ (Regex.star r).texts ↔ ∃ k, t ∈ r.texts ^ k := by
  constructor
  · intro h
    obtain ⟨n, -, ht⟩ := h
    exact ⟨0 + n, ht⟩
  · intro h
    obtain ⟨k, ht⟩ := h
    refine ⟨k, nofun, ?_⟩
    rw [Nat.zero_add]
    exact ht

theorem mem_texts_star_set : t ∈ (Regex.star (set s)).texts ↔ ∀ c ∈ t, s.contains c = true := by
  simp only [mem_texts_star, mem_texts_set_pow, exists_eq_left']

theorem mem_texts_between_set (h : m ≤ n) : t ∈ ((set s).between m n).texts ↔
    m ≤ t.length ∧ t.length ≤ n ∧ ∀ c ∈ t, s.contains c = true := by
  simp only [mem_texts_between h, mem_texts_set_pow]
  constructor
  · rintro ⟨k, hmk, hkn, rfl, hall⟩
    exact ⟨hmk, hkn, hall⟩
  · rintro ⟨hm, hn, hall⟩
    exact ⟨t.length, hm, hn, rfl, hall⟩

/-- The sets of an expression that describes texts of one length, character by character. -/
def classes? : Regex → Option (List CharSet)
  | empty => some []
  | set s => some [s]
  | seq first second => do return (← first.classes?) ++ (← second.classes?)
  | times body n (some 0) => do return (List.replicate n (← body.classes?)).flatten
  | anchor _ | alt _ _ | times _ _ _ => none

section

variable {l l' : Language CodePoint} {R : CodePoint → CharSet → Prop} {ss us : List CharSet}

theorem mem_mul_iff_forall₂ (h : ∀ t, t ∈ l ↔ List.Forall₂ R t ss)
    (h' : ∀ t, t ∈ l' ↔ List.Forall₂ R t us) :
    t ∈ l * l' ↔ List.Forall₂ R t (ss ++ us) := by
  constructor
  · rintro ⟨v, hv, w, hw, rfl⟩
    exact List.rel_append ((h v).mp hv) ((h' w).mp hw)
  · intro ht
    have hv := (h _).mpr (List.forall₂_take_append t ss us ht)
    have hw := (h' _).mpr (List.forall₂_drop_append t ss us ht)
    exact ⟨_, hv, _, hw, List.take_append_drop ss.length t⟩

theorem mem_pow_iff_forall₂ (h : ∀ t, t ∈ l ↔ List.Forall₂ R t ss) (n : Nat) :
    t ∈ l ^ n ↔ List.Forall₂ R t (List.replicate n ss).flatten := by
  induction n generalizing t with
  | zero =>
    rw [List.replicate_zero, List.flatten_nil, List.forall₂_nil_right_iff]
    rfl
  | succ n ih =>
    rw [List.replicate_succ, List.flatten_cons, pow_succ']
    exact mem_mul_iff_forall₂ h (fun _ => ih)

end

/-- The texts that have at each place a character of the set for that place. -/
theorem mem_texts_of_classes? {ss : List CharSet} (h : r.classes? = some ss) :
    t ∈ r.texts ↔ List.Forall₂ (fun c s => s.contains c = true) t ss := by
  induction r generalizing ss t with
  | empty =>
    cases h
    rw [List.forall₂_nil_right_iff]
    rfl
  | set s =>
    cases h
    simp only [List.forall₂_cons_right_iff, List.forall₂_nil_right_iff]
    constructor
    · rintro ⟨c, hc, rfl⟩
      exact ⟨c, [], hc, rfl, rfl⟩
    · rintro ⟨c, _, hc, rfl, rfl⟩
      exact ⟨c, hc, rfl⟩
  | anchor | alt => cases h
  | seq first second ihf ihs =>
    obtain ⟨fs, hf, h⟩ := Option.bind_eq_some_iff.mp h
    obtain ⟨gs, hs, h⟩ := Option.bind_eq_some_iff.mp h
    cases h
    exact mem_mul_iff_forall₂ (fun _ => ihf hf) (fun _ => ihs hs)
  | times body n more ih =>
    obtain rfl : more = some 0 := by
      unfold classes? at h
      split at h <;> simp_all
    obtain ⟨fs, hf, h⟩ := Option.bind_eq_some_iff.mp h
    cases h
    have htexts : (times body n (some 0)).texts = body.texts ^ n := texts_exactly
    rw [htexts]
    exact mem_pow_iff_forall₂ (fun _ => ih hf) n

/-! ### Separators -/

theorem texts_lit (c : CodePoint) : (Builtin.lit c).texts = {[c]} := by
  ext t
  constructor
  · rintro ⟨d, hd, rfl⟩
    rw [CharSet.contains_of] at hd
    obtain rfl : d = c := by simpa [SetItem.contains] using hd
    rfl
  · rintro rfl
    refine ⟨c, ?_, rfl⟩
    rw [CharSet.contains_of]
    simp [SetItem.contains]

/-- One text of a language and as many more as wanted, each with a separator in front, are texts of
the language with separators between them. -/
theorem mem_mul_pow_iff_joined (l : Language CodePoint) (separator : Text) (n : Nat) (t : Text) :
    t ∈ l * ({separator} * l) ^ n ↔
      ∃ parts : List Text, parts.length = n + 1 ∧ (∀ p ∈ parts, p ∈ l) ∧
      t = Text.joined separator parts := by
  induction n generalizing t with
  | zero =>
    rw [pow_zero, mul_one]
    constructor
    · intro ht
      exact ⟨[t], rfl, List.forall_mem_singleton.mpr ht, List.intercalate_singleton.symm⟩
    · rintro ⟨parts, hlength, hparts, rfl⟩
      obtain ⟨p, rfl⟩ := List.length_eq_one_iff.mp hlength
      rw [Text.joined, List.intercalate_singleton]
      exact hparts p List.mem_cons_self
  | succ n ih =>
    rw [pow_succ', mul_assoc, Language.mem_mul]
    constructor
    · rintro ⟨p, hp, _, ⟨_, rfl, u, hu, rfl⟩, rfl⟩
      obtain ⟨parts, hlength, hparts, rfl⟩ := (ih u).mp hu
      have hne : parts ≠ [] := List.ne_nil_of_length_eq_add_one hlength
      refine ⟨p :: parts, congrArg (· + 1) hlength, List.forall_mem_cons.mpr ⟨hp, hparts⟩, ?_⟩
      exact (List.append_assoc ..).symm.trans (List.intercalate_cons_of_ne_nil hne).symm
    · rintro ⟨parts, hlength, hparts, rfl⟩
      obtain ⟨p, parts, rfl⟩ := List.exists_cons_of_length_eq_add_one hlength
      have hrest : parts.length = n + 1 := Nat.succ.inj hlength
      have hne : parts ≠ [] := List.ne_nil_of_length_eq_add_one hrest
      obtain ⟨hp, hparts⟩ := List.forall_mem_cons.mp hparts
      have hu := (ih _).mpr ⟨parts, hrest, hparts, rfl⟩
      refine ⟨p, hp, _, Language.append_mem_mul (Set.mem_singleton separator) hu, ?_⟩
      rw [Text.joined, Text.joined, List.intercalate_cons_of_ne_nil hne, List.append_assoc]

/-- Texts of a language with a separator after each of them. -/
theorem mem_pow_iff_flatMap (l : Language CodePoint) (separator : Text) (n : Nat) (t : Text) :
    t ∈ (l * {separator}) ^ n ↔
      ∃ parts : List Text, parts.length = n ∧ (∀ p ∈ parts, p ∈ l) ∧
      t = parts.flatMap (· ++ separator) := by
  induction n generalizing t with
  | zero =>
    rw [pow_zero, Language.mem_one]
    constructor
    · intro h
      exact ⟨[], rfl, fun _ hp => absurd hp List.not_mem_nil, h⟩
    · intro h
      obtain ⟨parts, hlength, -, rfl⟩ := h
      rw [List.length_eq_zero_iff.mp hlength]
      rfl
  | succ n ih =>
    rw [pow_succ', Language.mem_mul]
    constructor
    · intro h
      obtain ⟨_, ⟨p, hp, _, rfl, rfl⟩, u, hu, rfl⟩ := h
      obtain ⟨parts, hlength, hparts, rfl⟩ := (ih u).mp hu
      exact ⟨p :: parts, congrArg (· + 1) hlength, List.forall_mem_cons.mpr ⟨hp, hparts⟩, rfl⟩
    · intro h
      obtain ⟨parts, hlength, hparts, rfl⟩ := h
      obtain ⟨p, parts, rfl⟩ := List.exists_cons_of_length_eq_add_one hlength
      obtain ⟨hp, hparts⟩ := List.forall_mem_cons.mp hparts
      have hu := (ih _).mpr ⟨parts, Nat.succ.inj hlength, hparts, rfl⟩
      exact ⟨_, Language.append_mem_mul hp (Set.mem_singleton separator), _, hu, rfl⟩

end Texts

end Regex

end TreeSpec
