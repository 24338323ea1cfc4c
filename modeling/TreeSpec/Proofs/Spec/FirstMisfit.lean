import TreeSpec.Proofs.Spec.Layout
import TreeSpec.Proofs.Spec.Pipe

/-!
# The first token that does not fit

Reading tokens stops at the first one after which there is no spec any more, whatever follows it.
What is in front of it may still become a spec, and so may all of the text if reading stops at its
end.
-/

namespace TreeSpec

set_option autoImplicit false

namespace Lexeme

variable {l : Lexeme} {text : Text}

theorem name_of_kind (h : l.kind = (name text).kind) : ∃ n, l = .name n := by
  have hargs : ("ARGS" : Text) ≠ "NAME" := by decide
  have hpipe : ("PIPE" : Text) ≠ "NAME" := by decide
  have hstop : ("EOF" : Text) ≠ "NAME" := by decide
  cases l with
  | name n => exact ⟨n, rfl⟩
  | args a => exact absurd h hargs
  | pipe => exact absurd h hpipe
  | stop => exact absurd h hstop

theorem args_of_kind (h : l.kind = (args text).kind) : ∃ a, l = .args a := by
  have hname : ("NAME" : Text) ≠ "ARGS" := by decide
  have hpipe : ("PIPE" : Text) ≠ "ARGS" := by decide
  have hstop : ("EOF" : Text) ≠ "ARGS" := by decide
  cases l with
  | args a => exact ⟨a, rfl⟩
  | name n => exact absurd h hname
  | pipe => exact absurd h hpipe
  | stop => exact absurd h hstop

end Lexeme

namespace Alternative

/-- The lexemes of alternatives that another one follows. -/
def lexemesBefore (xs : List Alternative) : List Lexeme :=
  xs.flatMap fun x => x.lexemes ++ [.pipe]

/-- Reading fails at a token: there is no name where an alternative starts, or the alternative in
front of it goes on with no pipe. -/
inductive FailsAt (before : List Token) (t : Token) : SpecError → Prop where
  | expectedName (xs : List Alternative) (hbefore : before.map (·.lexeme) = lexemesBefore xs)
      (ht : ∀ n, t.lexeme ≠ .name n) : FailsAt before t (.expectedName t.position)
  | unexpectedToken (xs : List Alternative) (x : Alternative) {text : Text}
      (hbefore : before.map (·.lexeme) = lexemesBefore xs ++ x.lexemes)
      (ht : t.lexeme = .name text ∨ (t.lexeme = .args text ∧ x.rawArgs ≠ none)) :
      FailsAt before t (.unexpectedToken text t.position)

variable {x : Alternative} {xs : List Alternative} {own before after ts : List Token} {t : Token}
  {p : Nat} {e : SpecError}

theorem lexemesBefore_cons : lexemesBefore (x :: xs) = x.lexemes ++ .pipe :: lexemesBefore xs := by
  simp [lexemesBefore]

/-- Alternatives with pipes after them are read on their own. -/
theorem readAll_append (h : before.map (·.lexeme) = lexemesBefore xs) :
    readAll (before ++ ts) = (readAll ts).map (xs ++ ·) := by
  induction xs generalizing before with
  | nil =>
    obtain rfl := List.map_eq_nil_iff.mp h
    rw [List.nil_append]
    cases readAll ts <;> rfl
  | cons x xs ih =>
    rw [lexemesBefore_cons] at h
    obtain ⟨own, rest, rfl, hown, hrest⟩ := List.map_eq_append_iff.mp h
    obtain ⟨p, before, rfl, hbefore⟩ := cons_of_map_lexeme hrest
    rw [List.append_assoc, List.cons_append, readAll_own hown, readMore, ih hbefore]
    · cases readAll ts <;> rfl
    · intro _ a q after hpipe
      cases hpipe

theorem FailsAt.cons (hown : own.map (·.lexeme) = x.lexemes) (h : FailsAt before t e) :
    FailsAt (own ++ ⟨.pipe, p⟩ :: before) t e := by
  cases h with
  | expectedName xs hbefore ht =>
    refine .expectedName (x :: xs) ?_ ht
    rw [List.map_append, hown, List.map_cons, hbefore, lexemesBefore_cons]
  | unexpectedToken xs y hbefore ht =>
    refine .unexpectedToken (x :: xs) y ?_ ht
    rw [List.map_append, hown, List.map_cons, hbefore, lexemesBefore_cons, List.append_assoc]
    rfl

mutual

theorem failsAt_of_readAll : ∀ (ts : List Token) {e : SpecError}, readAll ts = .error e →
    ∃ before t after, ts = before ++ t :: after ∧ FailsAt before t e
  | ts, e, h => by
    unfold readAll at h
    split at h
    · next n p a q after =>
      obtain ⟨before, t, rest, rfl, hfails⟩ := failsAt_of_readMore ⟨n, some a⟩
        [⟨.name n, p⟩, ⟨.args a, q⟩] after rfl nofun h
      exact ⟨_, t, rest, rfl, hfails⟩
    · next n p after hnot =>
      obtain ⟨before, t, rest, rfl, hfails⟩ :=
        failsAt_of_readMore ⟨n, none⟩ [⟨.name n, p⟩] after rfl
        (fun _ => hnot) h
      exact ⟨_, t, rest, rfl, hfails⟩
    · next t after hnotargs hnotname =>
      cases h
      refine ⟨[], t, after, rfl, .expectedName [] rfl ?_⟩
      intro n hn
      exact hnotname n t.position (hn ▸ rfl)
    · cases h
  termination_by ts => ts.length

theorem failsAt_of_readMore : ∀ (x : Alternative) (own ts : List Token) {e : SpecError},
    own.map (·.lexeme) = x.lexemes → (x.rawArgs = none → ∀ a q rest, ts ≠ ⟨.args a, q⟩ :: rest) →
    readMore x ts = .error e → ∃ before t after, ts = before ++ t :: after ∧
    FailsAt (own ++ before) t e
  | x, own, ts, e, hown, hts, h => by
    unfold readMore at h
    split at h
    · next p after =>
      obtain ⟨before, t, rest, rfl, hfails⟩ := failsAt_of_readAll after (error_of_map h)
      exact ⟨⟨.pipe, p⟩ :: before, t, rest, rfl, hfails.cons hown⟩
    · next text p after =>
      cases h
      refine ⟨[], _, after, rfl, .unexpectedToken [] x ?_ (.inl rfl)⟩
      rw [List.append_nil, hown]
      rfl
    · next text p after =>
      cases h
      refine ⟨[], _, after, rfl, .unexpectedToken [] x ?_ (.inr ⟨rfl, ?_⟩)⟩
      · rw [List.append_nil, hown]
        rfl
      · intro hnone
        exact hts hnone _ _ _ rfl
    · cases h
    · cases h
  termination_by _ _ ts => ts.length

end

theorem FailsAt.readAll (h : FailsAt before t e) : readAll (before ++ t :: after) = .error e := by
  obtain ⟨l, p⟩ := t
  cases h with
  | expectedName xs hbefore ht =>
    rw [readAll_append hbefore]
    cases l with
    | name n => exact absurd rfl (ht n)
    | args a | pipe | stop => rfl
  | unexpectedToken xs x hbefore ht =>
    obtain ⟨first, own, rfl, hfirst, hown⟩ := List.map_eq_append_iff.mp hbefore
    rw [List.append_assoc, readAll_append hfirst]
    rcases ht with rfl | ⟨rfl, hargs⟩
    · rw [readAll_own hown]
      · rfl
      · intro _ a q rest hname
        cases hname
    · rw [readAll_own hown (fun hnone => absurd hnone hargs)]
      rfl

/-- At a token of the same kind, reading fails as well. -/
theorem FailsAt.of_kind {t' : Token} (h : FailsAt before t e)
    (hkind : t'.lexeme.kind = t.lexeme.kind) :
    ∃ e', FailsAt before t' e' := by
  obtain ⟨l, p⟩ := t
  obtain ⟨l', q⟩ := t'
  cases h with
  | expectedName xs hbefore ht =>
    refine ⟨_, .expectedName xs hbefore ?_⟩
    rintro n rfl
    obtain ⟨m, hm⟩ := Lexeme.name_of_kind hkind.symm
    exact ht m hm
  | unexpectedToken xs x hbefore ht =>
    rcases ht with rfl | ⟨rfl, hargs⟩
    · obtain ⟨m, rfl⟩ := Lexeme.name_of_kind hkind
      exact ⟨_, .unexpectedToken xs x hbefore (.inl rfl)⟩
    · obtain ⟨a, rfl⟩ := Lexeme.args_of_kind hkind
      exact ⟨_, .unexpectedToken xs x hbefore (.inr ⟨rfl, hargs⟩)⟩

theorem readAll_of_parse {s : Text} (h : parse s = .ok xs) :
    ∃ ts, Token.scan s = .ok ts ∧ Alternative.readAll ts = .ok xs := by
  obtain ⟨ts, hscan, hread⟩ := ok_of_bind h
  refine ⟨ts, hscan, ?_⟩
  unfold ofTokens at hread
  split at hread
  · cases hread
  · exact hread

theorem parse_of_readAll {s : Text} (hscan : Token.scan s = .ok ts)
    (hread : Alternative.readAll ts = .ok xs) : parse s = .ok xs := by
  unfold parse
  rw [hscan]
  change ofTokens ts = .ok xs
  unfold ofTokens
  split
  · cases hread
  · exact hread

end Alternative

section Cut

/-- The text is cut where one of its tokens starts: in front of it there are the tokens before. -/
structure CutAt (s : Text) (ts : List Token) (u : Text) (before : List Token) (t : Token) :
    Prop where
  mem : t ∈ ts
  laid : Laid 0 u before
  position : t.position = u.length
  rest : (t.lexeme = .stop ∧ s = u) ∨ ∃ x v, s = u ++ x ++ v ∧ t.lexeme.IsText x ∧ Text.Parted u x

variable {s u x : Text} {l : Lexeme} {before after ts : List Token} {t : Token}

theorem exists_cutAt (h : Token.scan s = .ok (before ++ t :: after)) :
    ∃ u, CutAt s (before ++ t :: after) u before t := by
  have hmem : t ∈ before ++ t :: after := by simp
  obtain ⟨init, heq, hlaid⟩ := Laid.scanFrom_eq_ok.mp h
  rcases List.eq_nil_or_concat after with rfl | ⟨after, last, rfl⟩
  · obtain ⟨rfl, hstop⟩ := List.append_inj' heq rfl
    cases hstop
    exact ⟨s, hmem, hlaid, Nat.zero_add _, .inl ⟨rfl, rfl⟩⟩
  · rw [List.concat_eq_append, ← List.cons_append, ← List.append_assoc] at heq
    obtain ⟨rfl, -⟩ := List.append_inj' heq rfl
    obtain ⟨u, x, v, rfl, hu, hposition, hx, hparted, -⟩ := hlaid.split
    rw [Nat.zero_add] at hposition
    exact ⟨u, hmem, hu, hposition, .inr ⟨x, v, rfl, hx, (Text.parted_append_right.mp hparted).1⟩⟩

theorem CutAt.position_le (h : CutAt s ts u before t) : t.position ≤ s.length := by
  rcases h.rest with ⟨-, rfl⟩ | ⟨x, v, rfl, -⟩
  · exact h.position.le
  · rw [h.position]
    simp only [List.length_append]
    omega

theorem CutAt.take_position (h : CutAt s ts u before t) : s.take t.position = u := by
  rw [h.position]
  rcases h.rest with ⟨-, rfl⟩ | ⟨x, v, rfl, -⟩
  · exact List.take_length
  · rw [List.append_assoc, List.take_left]

/-- Whatever comes after the text of a token, a token of the same kind starts with it. -/
theorem exists_longer (hx : l.IsText x) (w : Text) :
    ∃ (l' : Lexeme) (y v : Text), l'.kind = l.kind ∧ x ++ w = y ++ v ∧ l'.IsText y ∧
    Text.Parted y v := by
  cases l with
  | name n =>
    obtain ⟨rfl, hn⟩ := hx
    refine ⟨.name (x ++ w.takeWhile Text.isWord), _, w.dropWhile Text.isWord, rfl, ?_, ⟨rfl, ?_⟩,
      Text.parted_dropWhile⟩
    · rw [List.append_assoc, List.takeWhile_append_dropWhile]
    · refine ⟨List.append_ne_nil_of_left_ne_nil hn.1 _, ?_⟩
      intro c hc
      rcases List.mem_append.mp hc with hc | hc
      · exact hn.2 c hc
      · exact List.all_eq_true.mp List.all_takeWhile c hc
  | args a => exact ⟨.args a, x, w, rfl, rfl, hx, Token.parted_of_isText hx (fun _ => nofun)⟩
  | pipe => exact ⟨.pipe, x, w, rfl, rfl, hx, Token.parted_of_isText hx (fun _ => nofun)⟩
  | stop => cases hx

theorem Laid.scan_onward (hu : Laid 0 u before) (hx : l.IsText x)
    (hparted : Text.Parted u x) {w : Text}
    (h : Token.scan (u ++ x ++ w) = .ok ts) :
    ∃ t after, ts = before ++ t :: after ∧ t.lexeme.kind = l.kind := by
  have hnext : Text.Parted u (x ++ w) :=
    Text.parted_append_right.mpr ⟨hparted, fun hnil => absurd hnil hx.ne_nil⟩
  obtain ⟨l', y, v, hkind, hcut, hy, hend⟩ := exists_longer hx w
  unfold Token.scan at h
  rw [List.append_assoc, hu.scanFrom_append hnext, hcut, Token.scanFrom_lexeme hy hend] at h
  obtain ⟨all, hall, rfl⟩ := ok_of_map h
  obtain ⟨after, -, rfl⟩ := ok_of_map hall
  exact ⟨_, after, rfl, hkind⟩

end Cut

namespace Alternative

variable {s u x : Text} {l : Lexeme} {a : Alternative} {xs : List Alternative}
  {before ts : List Token}
  {t : Token} {e : SpecError}

/-- A name may follow where an alternative starts. -/
theorem parse_before_name (hu : Laid 0 u before)
    (hbefore : before.map (·.lexeme) = lexemesBefore xs) :
    ∃ w ys, parse (u ++ w) = .ok ys := by
  have hspace : Text.isBlank ' ' = true := by decide
  have hname : (Lexeme.name [.char '_']).IsText [.char '_'] := by
    refine ⟨rfl, List.cons_ne_nil _ _, ?_⟩
    intro c hc
    rw [List.mem_singleton.mp hc]
    exact Text.isWord_underscore
  have hparted : Text.Parted u [.char ' ', .char '_'] := by
    apply Text.parted_of_head?
    intro c hc
    cases hc
    exact Text.not_isWord_of_isBlank hspace
  refine ⟨[.char ' ', .char '_'], xs ++ [⟨[.char '_'], none⟩], ?_⟩
  have hscan : Token.scan (u ++ [.char ' ', .char '_']) =
      .ok (before ++ [⟨.name [.char '_'], 0 + u.length + 1⟩, ⟨.stop, 0 + u.length + 1 + 1⟩]) := by
    unfold Token.scan
    rw [hu.scanFrom_append hparted, Token.scanFrom_blank hspace]
    have hread := Token.scanFrom_lexeme (p := 0 + u.length + 1) (s := []) hname (fun _ _ _ => nofun)
    rw [List.append_nil, Token.scanFrom_nil] at hread
    rw [hread]
    rfl
  apply parse_of_readAll hscan
  rw [readAll_append hbefore]
  rfl

/-- What ends with an alternative is a spec. -/
theorem parse_after_alternative (hu : Laid 0 u before)
    (hbefore : before.map (·.lexeme) = lexemesBefore xs ++ a.lexemes) :
    parse u = .ok (xs ++ [a]) := by
  have hscan := Laid.scanFrom_eq_ok.mpr ⟨before, rfl, hu⟩
  apply parse_of_readAll hscan
  obtain ⟨first, own, rfl, hfirst, hown⟩ := List.map_eq_append_iff.mp hbefore
  rw [List.append_assoc, readAll_append hfirst, readAll_own hown]
  · rfl
  · intro _ b q rest hstop
    cases hstop

theorem FailsAt.viable (h : FailsAt before t e) (hu : Laid 0 u before) :
    ∃ w ys, parse (u ++ w) = .ok ys := by
  cases h with
  | expectedName xs hbefore _ => exact parse_before_name hu hbefore
  | unexpectedToken xs a hbefore _ =>
    refine ⟨[], xs ++ [a], ?_⟩
    rw [List.append_nil]
    exact parse_after_alternative hu hbefore

theorem FailsAt.not_viable (h : FailsAt before t e) (hu : Laid 0 u before) (hx : t.lexeme.IsText x)
    (hparted : Text.Parted u x) (w : Text) (ys : List Alternative) :
    parse (u ++ x ++ w) ≠ .ok ys := by
  intro hparse
  obtain ⟨ts, hscan, hread⟩ := readAll_of_parse hparse
  obtain ⟨t', after, rfl, hkind⟩ := hu.scan_onward hx hparted hscan
  obtain ⟨e', hfails⟩ := h.of_kind hkind
  rw [hfails.readAll] at hread
  cases hread

/-- There is nothing but blanks, or a pipe with blanks after it. -/
def StartsClause (u : Text) : Prop :=
  u.Blank ∨ ∃ v b : Text, b.Blank ∧ u = v ++ .char '|' :: b

theorem parse_blank (h : s.Blank) : parse s = .error (.emptySpec s.length) := by
  have hscan : Token.scan s = .ok [⟨.stop, 0 + s.length⟩] :=
    Laid.scanFrom_eq_ok.mpr ⟨[], rfl, .gap h⟩
  unfold parse
  rw [hscan, Nat.zero_add]
  rfl

theorem not_parse_of_startsClause (h : StartsClause u) : parse u ≠ .ok xs := by
  intro hparse
  rcases h with hblank | ⟨v, b, hblank, rfl⟩
  · rw [parse_blank hblank] at hparse
    cases hparse
  · obtain ⟨ys, zs, -, hzs, -⟩ := parse_append_pipe.mp hparse
    rw [parse_blank hblank] at hzs
    cases hzs

theorem startsClause_of_lexemesBefore (hu : Laid 0 u before)
    (hbefore : before.map (·.lexeme) = lexemesBefore xs) : StartsClause u := by
  rcases List.eq_nil_or_concat xs with rfl | ⟨ys, a, rfl⟩
  · obtain rfl := List.map_eq_nil_iff.mp hbefore
    cases hu with
    | gap hblank => exact .inl hblank
  · have hends : lexemesBefore (ys.concat a) = (lexemesBefore ys ++ a.lexemes) ++ [.pipe] := by
      simp [lexemesBefore]
    rw [hends] at hbefore
    obtain ⟨first, last, rfl, -, hlast⟩ := List.map_eq_append_iff.mp hbefore
    obtain ⟨p, rest, rfl, hrest⟩ := cons_of_map_lexeme hlast
    obtain rfl := List.map_eq_nil_iff.mp hrest
    obtain ⟨v, x, b, rfl, -, -, hx, -, -, hb⟩ := hu.split
    obtain rfl : x = [.char '|'] := hx
    cases hb with
    | gap hblank => exact .inr ⟨v, b, hblank, List.append_assoc ..⟩

/-- A text of tokens that is no spec is blank, or it is cut at the token at which reading fails. -/
theorem exists_failsAt (hscan : Token.scan s = .ok ts) (hparse : parse s = .error e) :
    ∃ u before t e', CutAt s ts u before t ∧ FailsAt before t e' ∧ t.position = e.position ∧
      ((s.Blank ∧ e = .emptySpec e.position) ∨ (¬ s.Blank ∧ e = e')) := by
  have hread : ofTokens ts = .error e := by
    unfold parse at hparse
    rw [hscan] at hparse
    exact hparse
  have hcut : ∀ {before t after}, ts = before ++ t :: after → ∃ u, CutAt s ts u before t := by
    rintro before t after rfl
    exact exists_cutAt hscan
  by_cases hblank : s.Blank
  · have hend : Token.scan s = .ok ([] ++ [⟨.stop, 0 + s.length⟩]) :=
      Laid.scanFrom_eq_ok.mpr ⟨[], rfl, .gap hblank⟩
    have hts : ts = [] ++ [⟨.stop, 0 + s.length⟩] := Except.ok.inj (hscan.symm.trans hend)
    obtain ⟨u, hu⟩ := hcut hts
    rw [parse_blank hblank] at hparse
    cases hparse
    exact ⟨u, [], _, _, hu, .expectedName [] rfl (fun _ => nofun), Nat.zero_add _,
      .inl ⟨hblank, rfl⟩⟩
  · unfold ofTokens at hread
    split at hread
    · next p after =>
      -- Reading ends at once only if the text is blank.
      obtain ⟨u, hu⟩ : ∃ u, CutAt s (⟨.stop, p⟩ :: after) u [] ⟨.stop, p⟩ := hcut rfl
      rcases hu.rest with ⟨-, rfl⟩ | ⟨x, v, -, hx, -⟩
      · cases hu.laid with
        | gap hnone => exact absurd hnone hblank
      · cases hx
    · obtain ⟨before, t, after, hts, hfails⟩ := failsAt_of_readAll _ hread
      obtain ⟨u, hu⟩ := hcut hts
      refine ⟨u, before, t, e, hu, hfails, ?_, .inr ⟨hblank, rfl⟩⟩
      cases hfails <;> rfl

end Alternative

namespace SpecError

variable {e e' : SpecError}

/-- The words of the four kinds are told apart by their twelfth character. -/
def letter : SpecError → Char
  | unexpectedCharacter _ _ => 'c'
  | emptySpec _ => 's'
  | expectedName _ => 'p'
  | unexpectedToken _ _ => 't'

theorem cause_letter (e : SpecError) : e.cause[11]? = some (.char e.letter) := by
  cases e <;> rfl

theorem letter_eq_of_cause (h : e.cause = e'.cause) : e.letter = e'.letter := by
  have hletter := cause_letter e
  rw [h, cause_letter e'] at hletter
  exact (CodePoint.char.inj (Option.some.inj hletter)).symm

/-- The words of an error and its position tell which error it is. -/
theorem eq_of_cause (hcause : e.cause = e'.cause) (hposition : e.position = e'.position) :
    e = e' := by
  have hletter := letter_eq_of_cause hcause
  cases e with
  | emptySpec p =>
    cases e' with
    | emptySpec q => exact congrArg _ hposition
    | expectedName q | unexpectedCharacter c q | unexpectedToken text q => cases hletter
  | expectedName p =>
    cases e' with
    | expectedName q => exact congrArg _ hposition
    | emptySpec q | unexpectedCharacter c q | unexpectedToken text q => cases hletter
  | unexpectedCharacter c p =>
    cases e' with
    | unexpectedCharacter d q =>
      obtain ⟨rfl, -⟩ := List.cons.inj (List.append_cancel_left hcause)
      exact congrArg _ hposition
    | emptySpec q | expectedName q | unexpectedToken text q => cases hletter
  | unexpectedToken text p =>
    cases e' with
    | unexpectedToken other q =>
      obtain rfl := List.append_cancel_left (List.append_cancel_right hcause)
      exact congrArg _ hposition
    | emptySpec q | expectedName q | unexpectedCharacter c q => cases hletter

theorem cause_eq_emptySpec : e.cause = ("Empty type spec" : Text) ↔ e = .emptySpec e.position := by
  constructor
  · intro h
    exact eq_of_cause h rfl
  · intro h
    rw [h]
    rfl

theorem cause_eq_expectedName :
    e.cause = ("Expected type name" : Text) ↔ e = .expectedName e.position := by
  constructor
  · intro h
    exact eq_of_cause h rfl
  · intro h
    rw [h]
    rfl

theorem cause_eq_unexpectedToken {text : Text} :
    e.cause = ("Unexpected token '" : Text) ++ text ++ ("'" : Text) ↔
      e = .unexpectedToken text e.position := by
  constructor
  · intro h
    exact eq_of_cause h rfl
  · intro h
    rw [h]
    rfl

end SpecError

namespace Alternative

variable {s u : Text} {before ts : List Token} {t : Token} {e : SpecError}

/-- Reading fails where an alternative has to start, or at a name or a block that is one too
many. -/
theorem FailsAt.outcome (h : FailsAt before t e) (hu : Laid 0 u before) :
    (StartsClause u ∧ e = .expectedName e.position) ∨ (¬ StartsClause u ∧ ∃ text,
      e = .unexpectedToken text e.position ∧ (t.lexeme = .name text ∨ t.lexeme = .args text)) := by
  cases h with
  | expectedName xs hbefore _ => exact .inl ⟨startsClause_of_lexemesBefore hu hbefore, rfl⟩
  | @unexpectedToken xs a text hbefore ht =>
    refine .inr ⟨?_, text, rfl, ht.imp_right And.left⟩
    intro hstarts
    exact not_parse_of_startsClause hstarts (parse_after_alternative hu hbefore)

/-- Where parsing fails on tokens, the text in front of the position may still become a spec, and
with the next token it may not, whatever follows. If there is no next token, the text is only not
finished. The words of the error say that there is nothing but blanks, that an alternative has to
start there, or which token, a name or a block, is one too many. -/
theorem parse_fails_at_first_misfit (hscan : Token.scan s = .ok ts) (hparse : parse s = .error e) :
    e.position ≤ s.length ∧
    (∃ w xs, parse (s.take e.position ++ w) = .ok xs) ∧
    (e.position < s.length → ∃ t ∈ ts, ∃ x, t.position = e.position ∧ t.lexeme.IsText x ∧
      x <+: s.drop e.position ∧ ∀ w xs, parse (s.take e.position ++ x ++ w) ≠ .ok xs) ∧
    (e.position = s.length → ∃ w xs, parse (s ++ w) = .ok xs) ∧
    (e.cause = ("Empty type spec" : Text) ↔ s.Blank) ∧
    (e.cause = ("Expected type name" : Text) ↔ ¬ s.Blank ∧ StartsClause (s.take e.position)) ∧
    ((∃ text, e.cause = ("Unexpected token '" : Text) ++ text ++ ("'" : Text) ∧ ∃ t ∈ ts,
      t.position = e.position ∧ (t.lexeme = .name text ∨ t.lexeme = .args text)) ↔
        ¬ s.Blank ∧ ¬ StartsClause (s.take e.position)) := by
  obtain ⟨u, before, t, e', hcut, hfails, hposition, hkind⟩ := exists_failsAt hscan hparse
  have htake : s.take e.position = u := by rw [← hposition, hcut.take_position]
  have hviable := hfails.viable hcut.laid
  have houtcome : (s.Blank ∧ e = .emptySpec e.position) ∨
      (¬ s.Blank ∧ StartsClause u ∧ e = .expectedName e.position) ∨
      (¬ s.Blank ∧ ¬ StartsClause u ∧ ∃ text, e = .unexpectedToken text e.position ∧
        (t.lexeme = .name text ∨ t.lexeme = .args text)) := by
    rcases hkind with hempty | ⟨hblank, rfl⟩
    · exact .inl hempty
    · rcases hfails.outcome hcut.laid with ⟨hstarts, he⟩ | ⟨hstarts, text, he, ht⟩
      · exact .inr (.inl ⟨hblank, hstarts, he⟩)
      · exact .inr (.inr ⟨hblank, hstarts, text, he, ht⟩)
  rw [htake]
  refine ⟨hposition ▸ hcut.position_le, hviable, ?_, ?_, ?_, ?_, ?_⟩
  · intro hlt
    rcases hcut.rest with ⟨-, rfl⟩ | ⟨x, v, rfl, hx, hparted⟩
    · rw [← hposition, hcut.position] at hlt
      exact absurd hlt (Nat.lt_irrefl _)
    · refine ⟨t, hcut.mem, x, hposition, hx, ?_, hfails.not_viable hcut.laid hx hparted⟩
      rw [← hposition, hcut.position, List.append_assoc, List.drop_left]
      exact List.prefix_append x v
  · intro hend
    rw [hend, List.take_length] at htake
    rw [htake]
    exact hviable
  · rw [SpecError.cause_eq_emptySpec]
    rcases houtcome with ⟨hblank, he⟩ | ⟨hblank, -, he⟩ | ⟨hblank, -, text, he, -⟩
    · exact iff_of_true he hblank
    · exact iff_of_false (by rw [he]; nofun) hblank
    · exact iff_of_false (by rw [he]; nofun) hblank
  · rw [SpecError.cause_eq_expectedName]
    rcases houtcome with ⟨hblank, he⟩ | ⟨hblank, hstarts, he⟩ | ⟨hblank, hstarts, text, he, -⟩
    · exact iff_of_false (by rw [he]; nofun) (fun h => h.1 hblank)
    · exact iff_of_true he ⟨hblank, hstarts⟩
    · exact iff_of_false (by rw [he]; nofun) (fun h => hstarts h.2)
  · simp only [SpecError.cause_eq_unexpectedToken]
    rcases houtcome with ⟨hblank, he⟩ | ⟨hblank, hstarts, he⟩ | ⟨hblank, hstarts, text, he, ht⟩
    · exact iff_of_false (by rw [he]; nofun) (fun h => h.1 hblank)
    · exact iff_of_false (by rw [he]; nofun) (fun h => h.2 hstarts)
    · exact iff_of_true ⟨text, he, t, hcut.mem, hposition, ht⟩ ⟨hblank, hstarts⟩

/-- A second name without a pipe in front of it is one too many, and the text before it is a
spec. -/
theorem misfit_of_second_name :
    let s : Text := "a(b) c|d"
    parse s = .error (.unexpectedToken "c" 5) ∧ (∃ w xs, parse (s.take 5 ++ w) = .ok xs) ∧
      ∀ w xs, parse (s.take 5 ++ "c" ++ w) ≠ .ok xs := by
  intro s
  have hstream : Token.stream 0 s = ([⟨.name "a", 0⟩, ⟨.args "b", 1⟩, ⟨.name "c", 5⟩, ⟨.pipe, 6⟩,
      ⟨.name "d", 7⟩, ⟨.stop, 8⟩], none) := by
    decide +kernel
  have hscan : Token.scan s = .ok (Token.stream 0 s).1 := by
    unfold Token.scan
    rw [Token.scanFrom_eq_stream, hstream]
  have hparse : parse s = .error (.unexpectedToken "c" 5) := by
    unfold parse
    rw [hscan, hstream]
    rfl
  obtain ⟨-, hviable, hmisfit, -⟩ := parse_fails_at_first_misfit hscan hparse
  obtain ⟨t, ht, x, hposition, hx, -, hnot⟩ := hmisfit (by decide +kernel)
  have hfifth : ∀ t ∈ (Token.stream 0 s).1, t.position = 5 → t = ⟨.name "c", 5⟩ := by decide +kernel
  obtain rfl := hfifth t ht hposition
  obtain ⟨rfl, -⟩ := hx
  exact ⟨hparse, hviable, hnot⟩

end Alternative

end TreeSpec
