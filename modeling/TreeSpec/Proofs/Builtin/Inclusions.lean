import TreeSpec.Proofs.Builtin.HostNames
import TreeSpec.Proofs.Builtin.Numbers
import TreeSpec.Proofs.Builtin.Probes
import TreeSpec.Proofs.Builtin.Quads
import TreeSpec.Proofs.Pattern.Counts

/-!
# Which builtin types include or exclude others

Some builtin types accept whatever another one accepts, and of some no two accept the same value.
For the most part this is about two patterns. One pattern lies within another as all its characters
fit there, and two patterns are apart as some character has to occur in the texts of the one that
occurs too rarely in those of the other.
-/

namespace TreeSpec

set_option autoImplicit false

namespace Pattern

/-- Where the first pattern is found, the second one is found too. -/
def Within (p p' : Pattern) : Prop := ∀ t, p.search t = true → p'.search t = true

/-- The two patterns are not found in the same text. -/
def Apart (p p' : Pattern) : Prop := ∀ t, p.search t = true → p'.search t = false

variable {p p' : Pattern} {parts parts' : List Regex} {c : CodePoint} {t : Text} {m : Nat}

theorem search_whole (hbody : p.body = Builtin.whole parts)
    (hfree : (Regex.concat parts).isFree = true) :
    p.search t = true ↔ t ∈ (Regex.concat parts).texts := by
  unfold search
  rw [hbody]
  exact Regex.foundIn_whole hfree t

/-- A character that one pattern asks for more often than the other has room for keeps the two
apart. -/
theorem apart_of_counts (hbody : p.body = Builtin.whole parts)
    (hfree : (Regex.concat parts).isFree = true)
    (hbody' : p'.body = Builtin.whole parts') (hfree' : (Regex.concat parts').isFree = true)
    (hm : (Regex.concat parts).most? c = some m) (hlt : m < (Regex.concat parts').least c) :
    p.Apart p' := by
  intro t ht
  rw [← Bool.not_eq_true, search_whole hbody' hfree']
  exact Regex.not_mem_of_counts hm hlt ((search_whole hbody hfree).mp ht)

theorem Apart.symm (h : p.Apart p') : p'.Apart p := by
  intro t ht
  rw [← Bool.not_eq_true]
  intro ht'
  rw [h t ht'] at ht
  cases ht

end Pattern

namespace Builtin

/-! ## Patterns within others -/

section Within

variable {p : Pattern} {parts : List Regex} {t : Text} {c : CodePoint}

theorem isWord_of_isAlnum (h : Text.IsAlnum c) : Text.isWord c = true := by
  have hletter (range : Nat × Nat) (hrange : range ∈ Text.letterRanges)
      (hmem : range.1 ≤ c.toNat ∧ c.toNat ≤ range.2) : Text.isWord c = true := by
    unfold Text.isWord
    rw [Text.inRanges_iff.mpr ⟨range, hrange, hmem⟩, Bool.or_true]
  rcases h with (h | h) | h
  · exact hletter (0x41, 0x5A) (by decide) h
  · exact hletter (0x61, 0x7A) (by decide) h
  · exact Text.isWord_of_isDigit (Text.isDigit_of_ascii h.1 h.2)

theorem search_name : name.search t = true ↔ t ≠ [] ∧ ∀ c ∈ t, Text.isWord c = true ∨ c = '-' := by
  have hset (c : CodePoint) : (CharSet.of [.category .word, .char '-']).contains c = true ↔
      Text.isWord c = true ∨ c = '-' := by
    simp [SetItem.contains, Category.contains]
  have hwhole :
      name.search t = true ↔ t ∈ (Regex.plus (.set (.of [.category .word, .char '-']))).texts :=
    Regex.foundIn_whole rfl t
  rw [hwhole, Regex.mem_texts_plus_set]
  simp only [hset]

theorem search_line : line.search t = true ↔ .char '\n' ∉ t ∧ .char '\r' ∉ t := by
  have hset (c : CodePoint) : (CharSet.except [.char '\n', .char '\r']).contains c = true ↔
      c ≠ '\n' ∧ c ≠ '\r' := by
    simp [SetItem.contains]
  have hwhole :
      line.search t = true ↔ t ∈ (Regex.star (.set (.except [.char '\n', .char '\r']))).texts :=
    Regex.foundIn_whole rfl t
  rw [hwhole, Regex.mem_texts_star_set]
  simp only [hset]
  constructor
  · intro h
    exact ⟨fun hmem => (h _ hmem).1 rfl, fun hmem => (h _ hmem).2 rfl⟩
  · intro h c hc
    exact ⟨fun heq => h.1 (heq ▸ hc), fun heq => h.2 (heq ▸ hc)⟩

theorem search_text (t : Text) : text.search t = true := by
  have hset (c : CodePoint) : (CharSet.except []).contains c = true := by
    rw [CharSet.contains_except]
    rfl
  have hmem : t ∈ (Regex.star anyChar).texts := Regex.mem_texts_star_set.mpr fun c _ => hset c
  exact (Regex.foundIn_whole rfl t).mpr hmem

/-- An expression without room for a line break describes single lines. -/
theorem within_line (hbody : p.body = whole parts) (hfree : (Regex.concat parts).isFree = true)
    (hn : (Regex.concat parts).most? '\n' = some 0)
    (hr : (Regex.concat parts).most? '\r' = some 0) :
    p.Within line := by
  intro t ht
  have hmem := (Pattern.search_whole hbody hfree).mp ht
  exact search_line.mpr ⟨Regex.not_mem_of_most hn hmem, Regex.not_mem_of_most hr hmem⟩

theorem search_oct : oct.search t = true ↔ t ≠ [] ∧ ∀ c ∈ t, '0' ≤ c ∧ c ≤ '7' := by
  have hset (c : CodePoint) :
      (CharSet.of [.range '0' '7']).contains c = true ↔ '0' ≤ c ∧ c ≤ '7' := by
    simp [SetItem.contains]
  have hwhole : oct.search t = true ↔ t ∈ (Regex.plus (.set (.of [.range '0' '7']))).texts :=
    Regex.foundIn_whole rfl t
  rw [hwhole, Regex.mem_texts_plus_set]
  simp only [hset]

theorem le_nine_of_octal (h : c ≤ '7') : c ≤ '9' := Nat.le_trans h (by decide)

theorem oct_within_int : oct.Within int := by
  intro t ht
  obtain ⟨hne, hdigits⟩ := search_oct.mp ht
  have hnumeral : t.Numeral :=
    ⟨hne, fun c hc => Text.isDigit_of_ascii (hdigits c hc).1 (le_nine_of_octal (hdigits c hc).2)⟩
  exact search_int.mpr ⟨t, _, .natural hnumeral⟩

theorem contains_hexDigit :
    (CharSet.of [.range '0' '9', .range 'a' 'f', .range 'A' 'F']).contains c = true ↔
    ('0' ≤ c ∧ c ≤ '9') ∨ ('a' ≤ c ∧ c ≤ 'f') ∨ ('A' ≤ c ∧ c ≤ 'F') := by
  simp [SetItem.contains]

theorem oct_within_hex : oct.Within hex := by
  intro t ht
  obtain ⟨hne, hdigits⟩ := search_oct.mp ht
  have hplus : t ∈ hexDigit.plus.texts := by
    apply Regex.mem_texts_plus_set.mpr
    refine ⟨hne, fun c hc => contains_hexDigit.mpr ?_⟩
    exact .inl ⟨(hdigits c hc).1, le_nine_of_octal (hdigits c hc).2⟩
  apply (Pattern.search_whole rfl rfl).mpr
  exact ⟨[], Regex.mem_texts_optional.mpr (.inl rfl), t, hplus, rfl⟩

theorem port_within_int : port.Within int := by
  intro t ht
  obtain ⟨hnumeral, -, -⟩ := le_of_search_port ht
  exact search_int.mpr ⟨t, _, .natural hnumeral⟩

theorem int_within_number : int.Within number := by
  intro t ht
  obtain ⟨ds, i, h⟩ := search_int.mp ht
  have hfraction : [] ∈ (Regex.concat [among ".,", digit.plus]).optional.texts :=
    Regex.mem_texts_optional.mpr (.inl rfl)
  apply (Pattern.search_whole rfl rfl).mpr
  cases h with
  | natural h =>
    exact ⟨[], Regex.mem_texts_optional.mpr (.inl rfl), t,
      ⟨t, mem_texts_digits.mpr h, [], hfraction, List.append_nil t⟩, rfl⟩
  | negative h =>
    have hsign : ("-" : Text) ∈ (among "-+").optional.texts :=
      Regex.mem_texts_optional.mpr (.inr ⟨'-', by decide, rfl⟩)
    exact ⟨_, hsign, ds, ⟨ds, mem_texts_digits.mpr h, [], hfraction, List.append_nil ds⟩, rfl⟩

theorem int_within_name : int.Within name := by
  intro t ht
  obtain ⟨ds, i, h⟩ := search_int.mp ht
  have hword : ds.Numeral → ∀ c ∈ ds, Text.isWord c = true ∨ c = '-' :=
    fun h c hc => .inl (Text.isWord_of_isDigit (h.2 c hc))
  cases h with
  | natural h => exact search_name.mpr ⟨h.1, hword h⟩
  | negative h =>
    exact search_name.mpr ⟨List.cons_ne_nil _ _, List.forall_mem_cons.mpr ⟨.inr rfl, hword h⟩⟩

theorem hex_within_name : hex.Within name := by
  intro t ht
  have hmem :
      t ∈ (Regex.concat [(Regex.concat [lit '0', among "xX"]).optional, hexDigit.plus]).texts :=
    (Pattern.search_whole rfl rfl).mp ht
  obtain ⟨sign, hsign, ds, hds, rfl⟩ := hmem
  obtain ⟨hne, hdigits⟩ := Regex.mem_texts_plus_set.mp hds
  have hdigit : ∀ c ∈ ds, Text.isWord c = true := by
    intro c hc
    apply isWord_of_isAlnum
    rcases contains_hexDigit.mp (hdigits c hc) with h | h | h
    · exact .inr h
    · exact .inl (.inr ⟨h.1, Nat.le_trans h.2 (by decide)⟩)
    · exact .inl (.inl ⟨h.1, Nat.le_trans h.2 (by decide)⟩)
  have hmark : ∀ c ∈ sign, Text.isWord c = true := by
    rcases Regex.mem_texts_optional.mp hsign with rfl | ⟨_, ⟨a, ha, rfl⟩, _, ⟨b, hb, rfl⟩, rfl⟩
    · exact fun _ hc => absurd hc List.not_mem_nil
    · have ha' : a = '0' := by simpa [SetItem.contains] using ha
      have hb' : b ∈ ("xX" : Text) := by simpa [SetItem.contains] using hb
      subst ha'
      have hmarks : ∀ b ∈ ("xX" : Text), ∀ c ∈ ([.char '0', b] : Text), Text.isWord c = true := by
        decide
      exact hmarks b hb'
  refine search_name.mpr ⟨List.append_ne_nil_of_right_ne_nil _ hne, ?_⟩
  intro c hc
  exact .inl ((List.mem_append.mp hc).elim (hmark c) (hdigit c))

end Within

/-! ## Patterns that are apart -/

section Apart

variable {p : Pattern} {parts : List Regex} {t : Text}

def letters : Text := "ABCDEFGHIJKLMNOPQRSTUVWXYZabcdefghijklmnopqrstuvwxyz"

theorem mem_letters {c : CodePoint} (h : Text.IsLetter c) : c ∈ letters := by
  have hall : ∀ n < 0x80, ('A'.toNat ≤ n ∧ n ≤ 'Z'.toNat) ∨ ('a'.toNat ≤ n ∧ n ≤ 'z'.toNat) →
      ∃ d ∈ letters, d.toNat = n := by decide
  have hlt : c.toNat < 0x80 := by
    rcases h with h | h
    · exact Nat.lt_of_le_of_lt h.2 (by decide)
    · exact Nat.lt_of_le_of_lt h.2 (by decide)
  obtain ⟨d, hd, hsame⟩ := hall _ hlt h
  rwa [← CodePoint.toNat_injective hsame]

/-- The last label of a host name starts with a letter. -/
theorem exists_letter_of_search_hostname (h : hostname.search t = true) :
    ∃ c ∈ t, Text.IsLetter c := by
  have hname : ∀ w : Text, w.HostName → ∃ c ∈ w, Text.IsLetter c := by
    intro w hw
    obtain ⟨ls, l, -, ⟨-, c, hc, hletter⟩, rfl⟩ := Text.hostName_iff.mp hw
    exact ⟨c, List.mem_append_right _ (List.mem_of_mem_head? hc), hletter⟩
  rcases Text.hostName_withoutFinalDot.mp (search_hostname.mp h) with hw | ⟨w, hw, rfl⟩
  · exact hname t hw
  · obtain ⟨c, hc, hletter⟩ := hname w hw
    exact ⟨c, List.mem_append_left _ hc, hletter⟩

theorem hostname_apart (hbody : p.body = whole parts) (hfree : (Regex.concat parts).isFree = true)
    (hletters : ∀ c ∈ letters, (Regex.concat parts).most? c = some 0) : hostname.Apart p := by
  intro t ht
  obtain ⟨c, hc, hletter⟩ := exists_letter_of_search_hostname ht
  rw [← Bool.not_eq_true, Pattern.search_whole hbody hfree]
  exact fun hmem => Regex.not_mem_of_most (hletters c (mem_letters hletter)) hmem hc

end Apart

/-! ## Types -/

section Types

variable {r : Registry} {probes : Probes} {x : Alternative} {m : Matcher} {p p' : Pattern}
  {type type' description description' value : Text}

/-- What the first type accepts the second one accepts, whatever their arguments are. -/
def inclusions : List (Text × Text) :=
  [("oct", "hex"), ("oct", "int"), ("port", "int"), ("range", "int"), ("int", "number"),
    ("int", "word"), ("hex", "word"), ("word", "line"), ("number", "line"), ("uri", "line"),
    ("hostname", "line"), ("ipv4", "line"), ("cidrv4", "line"), ("ipv6", "line"),
    ("cidrv6", "line"), ("resolvablehost", "hostname")]

/-- No value is accepted by both types. -/
def exclusions : List (Text × Text) :=
  [("hostname", "ipv4"), ("hostname", "ipv6"), ("ipv4", "ipv6"), ("hostname", "int"),
    ("ipv4", "number")]

/-- The matcher of the builtin type says yes to the value. -/
def Takes (probes : Probes) (x : Alternative) (value : Text) : Prop :=
  ∃ m, (types probes).get? x.name = some m ∧ (m.ask (x.question value)).result = .ok true

theorem takes_iff (h : (types probes).get? x.name = some m) :
    Takes probes x value ↔ (m.ask (x.question value)).result = .ok true := by
  unfold Takes
  rw [h]
  simp only [Option.some.injEq, exists_eq_left']

theorem takes_pattern (h : (types probes).get? x.name = some (.pattern p description)) :
    Takes probes x value ↔ p.search value = true := by
  have hask :
      ((Matcher.pattern p description).ask (x.question value)).result = .ok (p.search value) := rfl
  rw [takes_iff h, hask, Except.ok.injEq]

theorem takes_within (h : (types probes).get? type = some (.pattern p description))
    (h' : (types probes).get? type' = some (.pattern p' description')) (hwithin : p.Within p')
    (args args' : Option Text) (value : Text) (htakes : Takes probes ⟨type, args⟩ value) :
    Takes probes ⟨type', args'⟩ value :=
  (takes_pattern h').mpr (hwithin value ((takes_pattern h).mp htakes))

theorem not_takes_apart (h : (types probes).get? type = some (.pattern p description))
    (h' : (types probes).get? type' = some (.pattern p' description')) (hapart : p.Apart p')
    (args args' : Option Text) (value : Text) (htakes : Takes probes ⟨type, args⟩ value) :
    ¬ Takes probes ⟨type', args'⟩ value := by
  rw [takes_pattern h', Bool.not_eq_true]
  exact hapart value ((takes_pattern h).mp htakes)

theorem int_of_range (args args' : Option Text) (value : Text)
    (h : Takes probes ⟨"range", args⟩ value) :
    Takes probes ⟨"int", args'⟩ value := by
  obtain ⟨description, hrange⟩ : ∃ d, (types probes).get? "range" = some (.predicate range d) :=
    ⟨_, rfl⟩
  rw [takes_iff hrange, result_ask_range, withinBounds_eq_true_iff (minus_not_mem _ value)] at h
  obtain ⟨low, high, ds, i, hcomparison, -⟩ := h
  exact (takes_pattern rfl).mpr (search_int.mpr ⟨ds, i, hcomparison.value⟩)

theorem hostname_of_resolvableHost (args args' : Option Text) (value : Text)
    (h : Takes probes ⟨"resolvablehost", args⟩ value) : Takes probes ⟨"hostname", args'⟩ value := by
  obtain ⟨description, hhost⟩ := get?_typeName probes .host
  have hrun := (takes_iff hhost).mp h
  rw [Matcher.result_ask_predicate, run_predicate] at hrun
  split at hrun
  · next hsensible => exact (takes_pattern rfl).mpr hsensible
  · cases hrun

theorem takes_of_inclusion : ∀ n ∈ inclusions, ∀ (args args' : Option Text) (value : Text),
    Takes probes ⟨n.1, args⟩ value → Takes probes ⟨n.2, args'⟩ value := by
  have hline {type description : Text} {p : Pattern} {parts : List Regex}
      (h : (types probes).get? type = some (.pattern p description)) (hbody : p.body = whole parts)
      (hfree : (Regex.concat parts).isFree = true)
      (hbreaks : ∀ c ∈ ("\n\r" : Text), (Regex.concat parts).most? c = some 0)
      (args args' : Option Text)
      (value : Text) : Takes probes ⟨type, args⟩ value → Takes probes ⟨"line", args'⟩ value :=
    takes_within h rfl (within_line hbody hfree (hbreaks _ (by decide)) (hbreaks _ (by decide)))
      args args' value
  simp only [inclusions, List.forall_mem_cons]
  refine ⟨takes_within rfl rfl oct_within_hex, takes_within rfl rfl oct_within_int,
    takes_within rfl rfl port_within_int, int_of_range, takes_within rfl rfl int_within_number,
    takes_within rfl rfl int_within_name, takes_within rfl rfl hex_within_name, ?_, ?_, ?_, ?_,
    ?_, ?_, ?_, ?_,
    hostname_of_resolvableHost, nofun⟩
  all_goals exact hline rfl rfl rfl (by decide +kernel)

theorem not_takes_of_exclusion : ∀ n ∈ exclusions, ∀ (args args' : Option Text) (value : Text),
    Takes probes ⟨n.1, args⟩ value → ¬ Takes probes ⟨n.2, args'⟩ value := by
  have hint : hostname.Apart int := hostname_apart rfl rfl (by decide)
  have hipv4 : hostname.Apart ipv4 := hostname_apart rfl rfl (by decide)
  -- An address of groups has a colon in it, a quad has three dots, and a number has at most one.
  have hipv6 : hostname.Apart ipv6 :=
    Pattern.apart_of_counts (c := ':') (m := 0) rfl rfl rfl rfl rfl (by decide)
  have hipv4_ipv6 : ipv4.Apart ipv6 :=
    Pattern.apart_of_counts (c := ':') (m := 0) rfl rfl rfl rfl rfl (by decide)
  have hnumber : number.Apart ipv4 :=
    Pattern.apart_of_counts (c := '.') (m := 1) rfl rfl rfl rfl rfl (by decide)
  simp only [exclusions, List.forall_mem_cons]
  exact ⟨not_takes_apart rfl rfl hipv4, not_takes_apart rfl rfl hipv6,
    not_takes_apart rfl rfl hipv4_ipv6, not_takes_apart rfl rfl hint,
    not_takes_apart rfl rfl hnumber.symm, nofun⟩

theorem mem_keys_of_related : ∀ n ∈ inclusions ++ exclusions,
    n.1 ∈ (types probes).keys ∧ n.2 ∈ (types probes).keys := by
  -- Which names there are does not depend on the probes.
  have hkeys : (types probes).keys = (types World.empty.probes).keys := by
    simp only [types, Dictionary.keys, List.map_cons, List.map_nil]
  rw [hkeys]
  decide

theorem accepts_iff_takes (htypes : ∀ name ∈ (types probes).keys,
      r.lookup name = (types probes).get? name)
    (hx : x.WellFormed) (hmem : x.name ∈ (types probes).keys) :
    (Expression.compile r x.spelled).accepts (some value) = true ↔ Takes probes x value := by
  obtain ⟨m, hm⟩ := Option.isSome_iff_exists.mp ((Dictionary.isSome_get? _ _).mpr hmem)
  have hnot : x.isOptional = false := by
    rw [← Bool.not_eq_true, Alternative.isOptional_iff]
    rintro rfl
    cases hm
  rw [Expression.accepts_type hx hnot ((htypes _ hmem).trans hm), takes_iff hm]

/-- Which builtin types accept whatever another one accepts, and which of them accept no value that
another one accepts. The type `text` accepts everything, so that every type is included in it, and
its inversion nothing. -/
theorem types_include_and_exclude (r : Registry) (probes : Probes) (value : Text)
    (htypes : ∀ name ∈ (types probes).keys, r.lookup name = (types probes).get? name)
    (hnotext : r.lookup "notext" = none) :
    let accepts (x : Alternative) : Bool := (Expression.compile r x.spelled).accepts (some value)
    (∀ x y : Alternative, x.WellFormed → y.WellFormed → (x.name, y.name) ∈ inclusions →
      accepts x = true → accepts y = true) ∧
    (∀ x : Alternative, x.WellFormed → x.name = "text" → accepts x = true ∧
      accepts x.inverted = false) ∧
    ∀ x y : Alternative, x.WellFormed → y.WellFormed → (x.name, y.name) ∈ exclusions →
      ¬ (accepts x = true ∧ accepts y = true) := by
  intro accepts
  have haccepts {x : Alternative} (hx : x.WellFormed) (hmem : x.name ∈ (types probes).keys) :
      accepts x = true ↔ Takes probes x value := accepts_iff_takes htypes hx hmem
  refine ⟨?_, ?_, ?_⟩
  · intro x y hx hy hmem
    obtain ⟨hxkey, hykey⟩ := mem_keys_of_related _ (List.mem_append_left _ hmem)
    rw [haccepts hx hxkey, haccepts hy hykey]
    exact takes_of_inclusion _ hmem x.rawArgs y.rawArgs value
  · rintro ⟨_, args⟩ hx rfl
    have hkey : ("text" : Text) ∈ (types probes).keys := (Dictionary.isSome_get? _ _).mp rfl
    refine ⟨(haccepts hx hkey).mpr ((takes_pattern rfl).mpr (search_text value)), ?_⟩
    have hinverted := Expression.accepts_inversion hx (htypes _ hkey) hnotext value
    have hask : ((Matcher.pattern text "Any text, newlines included").ask
        ((⟨"text", args⟩ : Alternative).question value)).result = .ok (text.search value) := rfl
    rw [hask, search_text] at hinverted
    rw [← Bool.not_eq_true, hinverted]
    exact nofun
  · intro x y hx hy hmem
    obtain ⟨hxkey, hykey⟩ := mem_keys_of_related _ (List.mem_append_right _ hmem)
    rw [haccepts hx hxkey, haccepts hy hykey, not_and]
    exact not_takes_of_exclusion _ hmem x.rawArgs y.rawArgs value

theorem lookup_new (builtin : Dictionary Matcher) (name : Text) :
    (Registry.new 0 builtin []).lookup name = builtin.get? name := by
  rw [Registry.lookup_eq]
  rfl

/-- An integer in the digits of another script is a word, whatever arguments the two types have. An
address is no host name, and two lines are a text. -/
theorem types_include_and_exclude_values :
    let r := Registry.new 0 (types World.empty.probes) []
    let accepts (x : Alternative) (value : Text) : Bool :=
      (Expression.compile r x.spelled).accepts (some value)
    accepts ⟨"int", none⟩ "-٨" = true ∧ accepts ⟨"word", some "3"⟩ "-٨" = true ∧
      accepts ⟨"ipv4", none⟩ "1.2.3.4" = true ∧ accepts ⟨"hostname", none⟩ "1.2.3.4" = false ∧
      accepts ⟨"text", none⟩ "a\nb" = true ∧ accepts ⟨"notext", none⟩ "a\nb" = false := by
  intro r accepts
  have htypes (name : Text) (_ : name ∈ (types World.empty.probes).keys) :
      r.lookup name = (types World.empty.probes).get? name := lookup_new _ name
  have hvalue (value : Text) := types_include_and_exclude r World.empty.probes value htypes rfl
  have hbare : ∀ name ∈ (["int", "ipv4", "hostname", "text"] : List Text),
      (⟨name, none⟩ : Alternative).WellFormed := by
    intro name hname
    have hword : ∀ n ∈ (["int", "ipv4", "hostname", "text"] : List Text),
        n ≠ [] ∧ ∀ c ∈ n, Text.isWord c = true := by decide
    exact ⟨hword name hname, nofun⟩
  have hargs : (⟨"word", some "3"⟩ : Alternative).WellFormed := by
    refine ⟨⟨List.cons_ne_nil _ _, by decide⟩, ?_⟩
    rintro _ ⟨⟩
    decide
  have hint : accepts ⟨"int", none⟩ "-٨" = true :=
    (accepts_iff_takes htypes (hbare _ (by decide)) (by decide)).mpr
      ((takes_pattern rfl).mpr (by decide))
  have hipv4 : accepts ⟨"ipv4", none⟩ "1.2.3.4" = true :=
    (accepts_iff_takes htypes (hbare _ (by decide)) (by decide)).mpr
      ((takes_pattern rfl).mpr (by decide))
  have hword := (hvalue "-٨").1 _ _ (hbare "int" (by decide)) hargs (by decide) hint
  have htext := (hvalue "a\nb").2.1 _ (hbare "text" (by decide)) rfl
  refine ⟨hint, hword, hipv4, ?_, htext.1, htext.2⟩
  rw [← Bool.not_eq_true]
  intro hhostname
  exact (hvalue "1.2.3.4").2.2 _ _ (hbare "hostname" (by decide))
    (hbare "ipv4" (by decide)) (by decide)
    ⟨hhostname, hipv4⟩

end Types

end Builtin

end TreeSpec
