import TreeSpec.Proofs.Spec.Stream

/-!
# Tokens in their places

Scanning loses nothing: the tokens with blanks between them are the text again, each token at its
position. If a text is not scanned, one character of it starts no token and has only tokens in front
of it.
-/

namespace TreeSpec

set_option autoImplicit false

/-- The text from the position on is made of the tokens, each at its own position, with blanks
between them. -/
inductive Laid : Nat → Text → List Token → Prop where
  | gap {p : Nat} {b : Text} (hb : b.Blank) : Laid p b []
  | token {p : Nat} {b x s : Text} {t : Token} {ts : List Token} (hb : b.Blank)
      (hposition : t.position = p + b.length) (hx : t.lexeme.IsText x) (hparted : Text.Parted x s)
      (hs : Laid (t.position + x.length) s ts) : Laid p (b ++ x ++ s) (t :: ts)

namespace Laid

open Token

variable {p : Nat} {c : CodePoint} {s u rest : Text} {t : Token} {ts before after : List Token}
  {e : SpecError}

theorem length_of_position {b x : Text} (hposition : t.position = p + b.length) :
    t.position + x.length + s.length = p + (b ++ x ++ s).length := by
  simp only [List.length_append]
  omega

/-- Where the tokens end, scanning goes on with the rest of the text. -/
theorem scanFrom_append (h : Laid p s ts) (hparted : Text.Parted s u) :
    scanFrom p (s ++ u) = (scanFrom (p + s.length) u).map (ts ++ ·) := by
  induction h with
  | gap hb =>
    rw [scanFrom_blanks hb]
    cases scanFrom _ u <;> rfl
  | @token p b x s t ts hb hposition hx hsplit _ ih =>
    obtain ⟨hlast, hends⟩ := Text.parted_append_left.mp hparted
    have hends' : s = [] → Text.Parted x u := by
      rintro rfl
      exact (Text.parted_append_left.mp (hends rfl)).1
    have hnext : Text.Parted x (s ++ u) := Text.parted_append_right.mpr ⟨hsplit, hends'⟩
    rw [← length_of_position hposition, List.append_assoc, List.append_assoc, scanFrom_blanks hb,
      scanFrom_lexeme hx hnext, ← hposition, ih hlast]
    cases scanFrom _ u <;> rfl

/-- What is read is laid out in the text up to the end or up to a character that starts no token. -/
theorem of_stream (p : Nat) (s : Text) : ∃ u v ts, s = u ++ v ∧ Laid p u ts ∧
    ((v = [] ∧ stream p s = (ts ++ [⟨.stop, p + u.length⟩], none)) ∨
      ∃ c rest, v = c :: rest ∧ Stuck c rest ∧
        stream p s = (ts, some (.unexpectedCharacter c (p + u.length)))) := by
  fun_induction stream p s with
  | case1 p s e h =>
    obtain ⟨b, c, rest, hb, rfl, hstuck, rfl⟩ := of_next_error h
    exact ⟨b, c :: rest, [], rfl, .gap hb, .inr ⟨c, rest, rfl, hstuck, rfl⟩⟩
  | case2 p s t rest h hstop =>
    obtain ⟨b, hb, hposition, ⟨-, rfl, rfl⟩ | ⟨x, hx, -⟩⟩ := of_next_ok h
    · refine ⟨s, [], [], (List.append_nil s).symm, .gap hb, .inl ⟨rfl, ?_⟩⟩
      rw [← hposition, ← hstop]
      rfl
    · rw [hstop] at hx
      cases hx
  | case3 p s t rest h hstop more ih =>
    obtain ⟨b, hb, hposition, ⟨hend, -⟩ | ⟨x, hx, hparted, rfl⟩⟩ := of_next_ok h
    · exact absurd hend hstop
    · have hafter : p + ((b ++ x ++ rest).length - rest.length) = t.position + x.length := by
        simp only [List.length_append]
        omega
      rw [hafter] at ih
      obtain ⟨u, v, ts, rfl, hlaid, hends⟩ := ih
      refine ⟨b ++ x ++ u, v, t :: ts, (List.append_assoc ..).symm, ?_, ?_⟩
      · exact .token hb hposition hx (Text.parted_append_right.mp hparted).1 hlaid
      · rw [← length_of_position hposition]
        have hmore : more = stream (t.position + x.length) (u ++ v) := congrArg (stream · _) hafter
        rcases hends with ⟨rfl, hstream⟩ | ⟨c, rest, rfl, hstuck, hstream⟩
        · refine .inl ⟨rfl, ?_⟩
          rw [hmore, hstream]
          rfl
        · refine .inr ⟨c, rest, rfl, hstuck, ?_⟩
          rw [hmore, hstream]

theorem scanFrom_eq_ok : scanFrom p s = .ok ts ↔
    ∃ init, ts = init ++ [⟨.stop, p + s.length⟩] ∧ Laid p s init := by
  constructor
  · intro h
    rw [scanFrom_eq_stream] at h
    obtain ⟨u, v, init, rfl, hlaid, ⟨rfl, hstream⟩ | ⟨c, rest, rfl, -, hstream⟩⟩ := of_stream p s
    · rw [hstream] at h
      cases h
      rw [List.append_nil]
      exact ⟨init, rfl, hlaid⟩
    · rw [hstream] at h
      cases h
  · rintro ⟨init, rfl, h⟩
    have hread := h.scanFrom_append (u := []) (fun _ _ _ => nofun)
    rw [List.append_nil, scanFrom_nil] at hread
    exact hread

/-- Scanning fails at a character that starts no token, if there are only tokens in front of it. -/
theorem scanFrom_eq_error :
    scanFrom p s = .error e ↔ ∃ u c rest ts, s = u ++ c :: rest ∧ Laid p u ts ∧
    Stuck c rest ∧ e = .unexpectedCharacter c (p + u.length) := by
  constructor
  · intro h
    rw [scanFrom_eq_stream] at h
    obtain ⟨u, v, ts, rfl, hlaid, ⟨rfl, hstream⟩ | ⟨c, rest, rfl, hstuck, hstream⟩⟩ := of_stream p s
    · rw [hstream] at h
      cases h
    · rw [hstream] at h
      cases h
      exact ⟨u, c, rest, ts, rfl, hlaid, hstuck, rfl⟩
  · rintro ⟨u, c, rest, ts, rfl, hlaid, hstuck, rfl⟩
    rw [hlaid.scanFrom_append hstuck.parted, scanFrom_stuck hstuck]
    rfl

/-- The text is cut where one of its tokens starts. -/
theorem split (h : Laid p s (before ++ t :: after)) : ∃ u x v, s = u ++ x ++ v ∧ Laid p u before ∧
    t.position = p + u.length ∧ t.lexeme.IsText x ∧ Text.Parted u (x ++ v) ∧ Text.Parted x v ∧
    Laid (t.position + x.length) v after := by
  induction before generalizing p s with
  | nil =>
    cases h with
    | @token _ b x s _ _ hb hposition hx hparted hs =>
      exact ⟨b, x, s, rfl, .gap hb, hposition, hx, hb.parted, hparted, hs⟩
  | cons first before ih =>
    cases h with
    | @token _ b x s _ _ hb hposition hx hparted hs =>
      obtain ⟨u, y, v, rfl, hu, hplace, hy, hsplit, hnext, hv⟩ := ih hs
      rw [List.append_assoc u] at hparted
      obtain ⟨hleft, hright⟩ := Text.parted_append_right.mp hparted
      refine ⟨b ++ x ++ u, y, v, ?_, .token hb hposition hx hleft hu, ?_, hy, ?_, hnext, hv⟩
      · simp only [List.append_assoc]
      · rw [hplace, length_of_position hposition]
      · apply Text.parted_append_left.mpr
        refine ⟨hsplit, fun hu => Text.parted_append_left.mpr ⟨hright hu, fun hx' => ?_⟩⟩
        exact absurd hx' hx.ne_nil

theorem position_bounds (h : Laid p s ts) :
    ∀ t ∈ ts, p ≤ t.position ∧ t.position < p + s.length := by
  intro t ht
  obtain ⟨before, after, rfl⟩ := List.append_of_mem ht
  obtain ⟨u, x, v, rfl, -, hposition, hx, -⟩ := h.split
  have := hx.length_pos
  simp only [List.length_append]
  omega

theorem increasing (h : Laid p s ts) : ts.Pairwise (·.position < ·.position) := by
  induction h with
  | gap => exact .nil
  | token _ _ hx _ hs ih =>
    refine List.pairwise_cons.mpr ⟨fun t ht => ?_, ih⟩
    have := hx.length_pos
    have := (hs.position_bounds t ht).1
    omega

end Laid

namespace Token

/-- The text up to the position is scanned, and the character there starts no token. -/
def StopsAt (s : Text) (p : Nat) (c : CodePoint) : Prop :=
  (∃ ts, scan (s.take p) = .ok ts) ∧ ∃ rest, s.drop p = c :: rest ∧ Stuck c rest

theorem StopsAt.lt_length {s : Text} {p : Nat} {c : CodePoint} (h : StopsAt s p c) :
    p < s.length := by
  obtain ⟨-, rest, hdrop, -⟩ := h
  have := congrArg List.length hdrop
  simp only [List.length_drop, List.length_cons] at this
  omega

theorem stopsAt_iff {s : Text} {p : Nat} {c : CodePoint} :
    StopsAt s p c ↔ scan s = .error (.unexpectedCharacter c p) := by
  unfold scan
  rw [Laid.scanFrom_eq_error]
  constructor
  · intro h
    have hp : p ≤ s.length := Nat.le_of_lt h.lt_length
    obtain ⟨⟨ts, hts⟩, rest, hdrop, hstuck⟩ := h
    obtain ⟨init, -, hlaid⟩ := Laid.scanFrom_eq_ok.mp hts
    refine ⟨s.take p, c, rest, init, ?_, hlaid, hstuck, ?_⟩
    · rw [← hdrop, List.take_append_drop]
    · rw [List.length_take, Nat.zero_add, Nat.min_eq_left hp]
  · rintro ⟨u, c', rest, ts, rfl, hlaid, hstuck, heq⟩
    rw [Nat.zero_add] at heq
    cases heq
    have hscan : ∃ us, scanFrom 0 u = .ok us := ⟨_, Laid.scanFrom_eq_ok.mpr ⟨ts, rfl, hlaid⟩⟩
    refine ⟨?_, rest, List.drop_left, hstuck⟩
    rw [List.take_left]
    exact hscan

/-- The tokens that are read before an error are those of the text in front of it. -/
theorem stream_of_scan_error {s : Text} {e : SpecError} (h : scan s = .error e) :
    ∃ before, stream 0 s = (before, some e) ∧
      scan (s.take e.position) = .ok (before ++ [⟨.stop, e.position⟩]) := by
  unfold scan at h
  rw [scanFrom_eq_stream] at h
  obtain ⟨u, v, ts, rfl, hlaid, ⟨rfl, hstream⟩ | ⟨c, rest, rfl, -, hstream⟩⟩ := Laid.of_stream 0 s
  · rw [hstream] at h
    cases h
  · rw [hstream] at h
    cases h
    refine ⟨ts, hstream, ?_⟩
    rw [SpecError.position, Nat.zero_add, List.take_left]
    exact Laid.scanFrom_eq_ok.mpr ⟨ts, by rw [Nat.zero_add], hlaid⟩

/-- A text that is scanned is made of the tokens with blanks between them, and each token stands at
its own position with no word character of a name left out on either side. Otherwise there is one
position with only tokens in front of it and a character that starts no token, and this is where
scanning stops, after the tokens of the text in front. -/
theorem scan_loses_nothing (s : Text) :
    (∀ ts, scan s = .ok ts → ts.Pairwise (·.position < ·.position) ∧
      ∃ init, ts = init ++ [⟨.stop, s.length⟩] ∧ Laid 0 s init ∧
        ∀ t ∈ init, t.lexeme ≠ .stop ∧ ∃ u x v, s = u ++ x ++ v ∧ t.position = u.length ∧
          t.lexeme.IsText x ∧ Text.Parted u x ∧ Text.Parted x v) ∧
    (∀ e, scan s = .error e ↔ ∃ p c, e = .unexpectedCharacter c p ∧ p < s.length ∧ StopsAt s p c) ∧
    (∀ p q c d, StopsAt s p c → StopsAt s q d → p = q) ∧
    ∀ e, scan s = .error e → ∃ before, stream 0 s = (before, some e) ∧
      scan (s.take e.position) = .ok (before ++ [⟨.stop, e.position⟩]) := by
  refine ⟨?_, ?_, ?_, fun e => stream_of_scan_error⟩
  · intro ts hscan
    obtain ⟨init, rfl, hlaid⟩ := Laid.scanFrom_eq_ok.mp hscan
    rw [Nat.zero_add]
    refine ⟨?_, init, rfl, hlaid, ?_⟩
    · apply List.pairwise_append.mpr
      refine ⟨hlaid.increasing, List.pairwise_singleton .., ?_⟩
      intro t ht stop hstop
      rw [List.mem_singleton.mp hstop]
      have hlt := (hlaid.position_bounds t ht).2
      rw [Nat.zero_add] at hlt
      exact hlt
    · intro t ht
      obtain ⟨before, after, rfl⟩ := List.append_of_mem ht
      obtain ⟨u, x, v, rfl, -, hposition, hx, hleft, hright, -⟩ := hlaid.split
      rw [Nat.zero_add] at hposition
      refine ⟨?_, u, x, v, rfl, hposition, hx, (Text.parted_append_right.mp hleft).1, hright⟩
      intro hstop
      rw [hstop] at hx
      cases hx
  · intro e
    constructor
    · intro hscan
      obtain ⟨u, c, rest, ts, -, -, -, rfl⟩ := Laid.scanFrom_eq_error.mp hscan
      have hstops := stopsAt_iff.mpr hscan
      exact ⟨_, c, rfl, hstops.lt_length, hstops⟩
    · rintro ⟨p, c, rfl, -, hstops⟩
      exact stopsAt_iff.mp hstops
  · intro p q c d hp hq
    have heq := (stopsAt_iff.mp hp).symm.trans (stopsAt_iff.mp hq)
    cases heq
    rfl

/-- A block that is closed only after another parenthesis is no block, and the tokens in front of it
are read. -/
theorem scan_of_block_in_block :
    let s : Text := "a (b)|(c(d)"
    scan s = .error (.unexpectedCharacter '(' 6) ∧
      scan (s.take 6) = .ok [⟨.name "a", 0⟩, ⟨.args "b", 2⟩, ⟨.pipe, 5⟩, ⟨.stop, 6⟩] ∧
      StopsAt s 6 '(' ∧ ∀ q d, StopsAt s q d → q = 6 := by
  intro s
  have hstream : stream 0 s =
      ([⟨.name "a", 0⟩, ⟨.args "b", 2⟩, ⟨.pipe, 5⟩], some (.unexpectedCharacter '(' 6)) := by
    decide +kernel
  have hscan : scan s = .error (.unexpectedCharacter '(' 6) := by
    unfold scan
    rw [scanFrom_eq_stream, hstream]
  obtain ⟨-, herror, hunique, hbefore⟩ := scan_loses_nothing s
  obtain ⟨p, c, heq, -, hstops⟩ := (herror _).mp hscan
  obtain ⟨before, hread, htake⟩ := hbefore _ hscan
  rw [hstream] at hread
  cases heq
  cases hread
  exact ⟨hscan, htake, hstops, fun q d hq => hunique q 6 d '(' hq hstops⟩

end Token

end TreeSpec
