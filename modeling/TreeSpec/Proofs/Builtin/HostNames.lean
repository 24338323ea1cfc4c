import TreeSpec.Builtin.Types
import TreeSpec.Proofs.Pattern.Texts
import TreeSpec.Proofs.Registry.Negation

/-!
# Host names

A host name consists of labels with dots between them: letters, digits and hyphens, with a hyphen
neither first nor last. The last label starts with a letter, and one more dot may follow it. The
pattern finds the labels wherever the dots are, as no label has a dot in it.
-/

namespace TreeSpec

set_option autoImplicit false

namespace Text

/-- A letter of ASCII. -/
def IsLetter (c : CodePoint) : Prop := ('A' ≤ c ∧ c ≤ 'Z') ∨ ('a' ≤ c ∧ c ≤ 'z')

/-- A letter or a digit of ASCII. -/
def IsAlnum (c : CodePoint) : Prop := IsLetter c ∨ ('0' ≤ c ∧ c ≤ '9')

/-- Letters, digits and inner hyphens. -/
structure HostLabel (l : Text) : Prop where
  nonempty : l ≠ []
  chars : ∀ c ∈ l, IsAlnum c ∨ c = '-'
  first : l.head? ≠ some (.char '-')
  last : l.getLast? ≠ some (.char '-')

/-- Labels with dots between them, the last of which starts with a letter. -/
structure HostName (t : Text) : Prop where
  nonempty : t ≠ []
  labels : ∀ l ∈ t.splitOn (.char '.'), HostLabel l
  top : ∀ l ∈ (t.splitOn (.char '.')).getLast?, ∃ c ∈ l.head?, IsLetter c

/-- The text without the dot at its end, if there is one. -/
def withoutFinalDot (t : Text) : Text := if t.getLast? = some (.char '.') then t.dropLast else t

instance : DecidablePred IsLetter := fun c =>
  inferInstanceAs (Decidable (('A' ≤ c ∧ c ≤ 'Z') ∨ ('a' ≤ c ∧ c ≤ 'z')))

instance : DecidablePred IsAlnum :=
  fun c => inferInstanceAs (Decidable (IsLetter c ∨ ('0' ≤ c ∧ c ≤ '9')))

instance : DecidablePred HostLabel := fun l =>
  decidable_of_iff (l ≠ [] ∧ (∀ c ∈ l, IsAlnum c ∨ c = '-') ∧ l.head? ≠ some (.char '-') ∧
      l.getLast? ≠ some (.char '-'))
    ⟨fun h => ⟨h.1, h.2.1, h.2.2.1, h.2.2.2⟩, fun h => ⟨h.nonempty, h.chars, h.first, h.last⟩⟩

variable {t l : Text} {ls : List Text}

theorem IsAlnum.ne_hyphen {c : CodePoint} (h : IsAlnum c) : c ≠ '-' := by
  rintro rfl
  revert h
  decide

theorem HostLabel.dot_not_mem (h : l.HostLabel) : .char '.' ∉ l := by
  intro hdot
  have hchar := h.chars _ hdot
  revert hchar
  decide

theorem HostLabel.isAlnum_of_head? (h : l.HostLabel) {c : CodePoint} (hc : l.head? = some c) :
    IsAlnum c := by
  rcases h.chars c (List.mem_of_mem_head? hc) with halnum | rfl
  · exact halnum
  · exact absurd hc h.first

theorem joined_append_singleton (separator : Text) :
    joined separator (ls ++ [l]) = ls.flatMap (· ++ separator) ++ l := by
  unfold joined
  induction ls with
  | nil => exact List.intercalate_singleton
  | cons p ls ih =>
    have hne : ls ++ [l] ≠ [] := List.append_ne_nil_of_right_ne_nil ls (List.cons_ne_nil l [])
    rw [List.cons_append, List.intercalate_cons_of_ne_nil hne, ih, List.flatMap_cons,
      List.append_assoc, List.append_assoc, List.append_assoc]

/-- A host name is made of its labels. -/
theorem hostName_iff : t.HostName ↔ ∃ (ls : List Text) (l : Text), (∀ p ∈ ls, p.HostLabel) ∧
    (l.HostLabel ∧ ∃ c ∈ l.head?, IsLetter c) ∧ t = ls.flatMap (· ++ ("." : Text)) ++ l := by
  simp only [← joined_append_singleton]
  constructor
  · intro h
    have hjoined : joined "." (t.splitOn (.char '.')) = t := List.intercalate_splitOn _
    rcases List.eq_nil_or_concat (t.splitOn (.char '.')) with hnil | ⟨ls, l, hsplit⟩
    · rw [hnil] at hjoined
      exact absurd hjoined.symm h.nonempty
    · rw [List.concat_eq_append] at hsplit
      have hlabels := h.labels
      have htop := h.top
      rw [hsplit] at hlabels htop
      rw [List.getLast?_concat] at htop
      obtain ⟨hls, hl⟩ := List.forall_mem_append.mp hlabels
      exact ⟨ls, l, hls, ⟨hl l List.mem_cons_self, htop l rfl⟩, (hsplit ▸ hjoined).symm⟩
  · intro h
    obtain ⟨ls, l, hls, ⟨hl, htop⟩, rfl⟩ := h
    have hlabels : ∀ p ∈ ls ++ [l], p.HostLabel :=
      List.forall_mem_append.mpr ⟨hls, List.forall_mem_singleton.mpr hl⟩
    have hne : ls ++ [l] ≠ [] := List.append_ne_nil_of_right_ne_nil ls (List.cons_ne_nil l [])
    have hsplit : (joined "." (ls ++ [l])).splitOn (.char '.') = ls ++ [l] :=
      List.splitOn_intercalate _ (fun p hp => (hlabels p hp).dot_not_mem) hne
    refine ⟨?_, ?_, ?_⟩
    · rw [joined_append_singleton]
      exact List.append_ne_nil_of_right_ne_nil _ hl.nonempty
    · rw [hsplit]
      exact hlabels
    · rw [hsplit, List.getLast?_concat]
      intro l' hl'
      cases hl'
      exact htop

/-- A host name does not end in a dot. -/
theorem HostName.getLast?_ne (h : t.HostName) : t.getLast? ≠ some (.char '.') := by
  obtain ⟨ls, l, -, ⟨hl, -⟩, rfl⟩ := hostName_iff.mp h
  intro hdot
  rw [List.getLast?_append_of_ne_nil _ hl.nonempty] at hdot
  exact hl.dot_not_mem (List.mem_of_getLast? hdot)

/-- A dot may follow a host name. -/
theorem hostName_withoutFinalDot :
    t.withoutFinalDot.HostName ↔ t.HostName ∨ ∃ w : Text, w.HostName ∧ t = w ++ "." := by
  unfold withoutFinalDot
  split
  · next hdot =>
    obtain ⟨w, rfl⟩ := List.getLast?_eq_some_iff.mp hdot
    rw [List.dropLast_concat]
    constructor
    · intro h
      exact .inr ⟨w, h, rfl⟩
    · intro h
      rcases h with h | ⟨w', h, heq⟩
      · exact absurd hdot h.getLast?_ne
      · rw [List.append_cancel_right heq]
        exact h
  · next hdot =>
    constructor
    · exact .inl
    · intro h
      rcases h with h | ⟨w, h, rfl⟩
      · exact h
      · exact absurd List.getLast?_concat hdot

end Text

namespace Builtin

variable {t : Text} {s : CharSet} {c : CodePoint}

theorem contains_letters :
    (CharSet.of [.range 'A' 'Z', .range 'a' 'z']).contains c = true ↔ Text.IsLetter c := by
  simp [SetItem.contains, Text.IsLetter]

theorem contains_alnum : (CharSet.of alnum).contains c = true ↔ Text.IsAlnum c := by
  simp [SetItem.contains, alnum, Text.IsAlnum, Text.IsLetter, or_assoc]

theorem contains_inner :
    (CharSet.of (alnum ++ [.char '-'])).contains c = true ↔ Text.IsAlnum c ∨ c = '-' := by
  simp [SetItem.contains, alnum, Text.IsAlnum, Text.IsLetter, or_assoc]

theorem mem_texts_labelTail : t ∈ labelTail.texts ↔
    t = [] ∨ ∃ (u : Text) (c : CodePoint), (∀ d ∈ u, Text.IsAlnum d ∨ d = '-') ∧ Text.IsAlnum c ∧
    t = u ++ [c] := by
  unfold labelTail
  rw [Regex.mem_texts_optional, Regex.texts_concat_pair, Language.mem_mul]
  simp only [Regex.mem_texts_star_set, contains_inner]
  refine or_congr_right ?_
  constructor
  · intro h
    obtain ⟨u, hu, _, ⟨c, hc, rfl⟩, rfl⟩ := h
    exact ⟨u, c, hu, contains_alnum.mp hc, rfl⟩
  · intro h
    obtain ⟨u, c, hu, hc, rfl⟩ := h
    exact ⟨u, hu, [c], ⟨c, contains_alnum.mpr hc, rfl⟩, rfl⟩

/-- A first character and what may follow it are a label. -/
theorem mem_texts_label (hs : ∀ c, s.contains c = true → Text.IsAlnum c) :
    t ∈ (Regex.concat [.set s, labelTail]).texts ↔
    t.HostLabel ∧ ∃ c ∈ t.head?, s.contains c = true := by
  rw [Regex.texts_concat_pair, Language.mem_mul]
  constructor
  · intro h
    obtain ⟨_, ⟨c, hc, rfl⟩, u, hu, rfl⟩ := h
    have halnum := hs c hc
    have hfirst : c ≠ '-' := halnum.ne_hyphen
    refine ⟨?_, c, rfl, hc⟩
    rcases mem_texts_labelTail.mp hu with rfl | ⟨v, d, hv, hd, rfl⟩
    · exact ⟨List.cons_ne_nil c [], List.forall_mem_singleton.mpr (.inl halnum),
        fun h => hfirst (Option.some.inj h), fun h => hfirst (Option.some.inj h)⟩
    · refine ⟨List.cons_ne_nil c _, ?_, fun h => hfirst (Option.some.inj h), ?_⟩
      · rw [List.singleton_append, List.forall_mem_cons, List.forall_mem_append,
          List.forall_mem_singleton]
        exact ⟨.inl halnum, hv, .inl hd⟩
      · rw [← List.append_assoc, List.getLast?_concat]
        exact fun h => hd.ne_hyphen (Option.some.inj h)
  · intro h
    obtain ⟨hlabel, c, hhead, hc⟩ := h
    obtain ⟨u, rfl⟩ := List.head?_eq_some_iff.mp hhead
    refine ⟨[c], ⟨c, hc, rfl⟩, u, mem_texts_labelTail.mpr ?_, rfl⟩
    rcases List.eq_nil_or_concat u with rfl | ⟨v, d, rfl⟩
    · exact .inl rfl
    · obtain ⟨-, hrest⟩ := List.forall_mem_cons.mp hlabel.chars
      rw [List.concat_eq_append] at hrest ⊢
      obtain ⟨hv, hd⟩ := List.forall_mem_append.mp hrest
      have hlast := hlabel.last
      rw [List.concat_eq_append, ← List.cons_append, List.getLast?_concat] at hlast
      have hne : d ≠ '-' := fun h => hlast (congrArg some h)
      exact .inr ⟨v, d, hv, (hd d List.mem_cons_self).resolve_right hne, rfl⟩

/-- The parts of the pattern without the dot that may be at the end. -/
def hostLabels : List Regex :=
  [.star (.concat [.set (.of alnum), labelTail, lit '.']),
    .set (.of [.range 'A' 'Z', .range 'a' 'z']), labelTail]

theorem mem_texts_hostLabels : t ∈ (Regex.concat hostLabels).texts ↔ t.HostName := by
  have hlabel (p : Text) :
      p ∈ (Regex.concat [.set (.of alnum), labelTail]).texts ↔ p.HostLabel := by
    rw [mem_texts_label fun c => contains_alnum.mp, and_iff_left_iff_imp]
    intro hp
    obtain ⟨c, hc⟩ := Option.isSome_iff_exists.mp (List.isSome_head?.mpr hp.nonempty)
    exact ⟨c, hc, contains_alnum.mpr (hp.isAlnum_of_head? hc)⟩
  have htop (p : Text) :
      p ∈ (Regex.concat [.set (.of [.range 'A' 'Z', .range 'a' 'z']), labelTail]).texts ↔
      p.HostLabel ∧ ∃ c ∈ p.head?, Text.IsLetter c := by
    rw [mem_texts_label fun c hc => .inl (contains_letters.mp hc)]
    simp only [contains_letters]
  have hdotted : (Regex.concat [.set (.of alnum), labelTail, lit '.']).texts =
      (Regex.concat [.set (.of alnum), labelTail]).texts * {("." : Text)} := by
    have hsplit : (Regex.concat ([.set (.of alnum), labelTail] ++ [lit '.'])).texts = _ :=
      Regex.texts_concat_append
    exact hsplit.trans (congrArg _ (Regex.texts_lit '.'))
  rw [hostLabels, Regex.texts_concat_cons, Language.mem_mul, Text.hostName_iff]
  simp only [Regex.mem_texts_star, hdotted, Regex.mem_pow_iff_flatMap, hlabel, htop]
  constructor
  · intro h
    obtain ⟨_, ⟨_, ls, -, hls, rfl⟩, l, hl, rfl⟩ := h
    exact ⟨ls, l, hls, hl, rfl⟩
  · intro h
    obtain ⟨ls, l, hls, hl, rfl⟩ := h
    exact ⟨_, ⟨_, ls, rfl, hls, rfl⟩, l, hl, rfl⟩

theorem search_hostname : hostname.search t = true ↔ t.withoutFinalDot.HostName := by
  have hparts :
      hostname.search t = true ↔ t ∈ (Regex.concat (hostLabels ++ [(lit '.').optional])).texts :=
    Regex.foundIn_whole rfl t
  have hdot (u : Text) : u ∈ (Regex.concat [(lit '.').optional]).texts ↔ u = [] ∨ u = "." := by
    have hone : Regex.concat [(lit '.').optional] = (lit '.').optional := rfl
    rw [hone, Regex.mem_texts_optional, Regex.texts_lit]
    rfl
  rw [hparts, Regex.texts_concat_append, Language.mem_mul, Text.hostName_withoutFinalDot]
  simp only [mem_texts_hostLabels, hdot]
  constructor
  · intro h
    obtain ⟨w, hw, _, rfl | rfl, rfl⟩ := h
    · rw [List.append_nil]
      exact .inl hw
    · exact .inr ⟨w, hw, rfl⟩
  · intro h
    rcases h with h | ⟨w, hw, rfl⟩
    · exact ⟨t, h, [], .inl rfl, List.append_nil t⟩
    · exact ⟨w, hw, _, .inr rfl, rfl⟩

/-- The type `hostname` accepts labels with dots between them, the last of which starts with a
letter. One more dot may be at the end. -/
theorem hostname_is_labels (r : Registry) (probes : Probes) (value : Text)
    (hhostname : r.lookup "hostname" = (types probes).get? "hostname") :
    (Expression.compile r "hostname").accepts (some value) = true ↔
    value.withoutFinalDot.HostName := by
  have hname : ("hostname" : Text).Name := ⟨List.cons_ne_nil _ _, by decide +kernel⟩
  rw [Expression.accepts_pattern hname (by decide) hhostname]
  exact search_hostname

/-- Labels that start with a digit or have a hyphen in them, before a dot at the end, and a text of
one dot. -/
theorem hostname_of_labels_and_dot :
    let r := Registry.new 0 (types World.empty.probes) []
    let accepts (value : Text) : Bool := (Expression.compile r "hostname").accepts (some value)
    accepts "3-com.b." = true ∧ accepts "." = false := by
  intro r accepts
  have hhostname (value : Text) := hostname_is_labels r World.empty.probes value rfl
  constructor
  · apply (hhostname _).mpr
    apply Text.hostName_iff.mpr
    exact ⟨["3-com"], "b", by decide, ⟨by decide, 'b', rfl, by decide⟩, rfl⟩
  · rw [← Bool.not_eq_true, hhostname]
    intro h
    exact h.nonempty rfl

end Builtin

end TreeSpec
