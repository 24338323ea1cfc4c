import TreeSpec.Proofs.Spec.Tokens
import TreeSpec.Spec.Alternative

/-!
# The grammar of type specs

The grammar is stated on characters, without tokens. Parsing accepts its texts and no others, and
fails in scanning wherever the text is not a sequence of tokens, whatever the tokens before would
mean.
-/

namespace TreeSpec

set_option autoImplicit false

def Text.Blank (s : Text) : Prop := ∀ c ∈ s, Text.isBlank c = true

/-- A name is a run of word characters, which is not empty. -/
def Text.Name (s : Text) : Prop := s ≠ [] ∧ ∀ c ∈ s, Text.isWord c = true

theorem Text.blank_nil : Text.Blank [] := fun _ hc => absurd hc List.not_mem_nil

theorem Text.Blank.append {s t : Text} (hs : s.Blank) (ht : t.Blank) : Text.Blank (s ++ t) := by
  intro c hc
  rcases List.mem_append.mp hc with hc | hc
  · exact hs c hc
  · exact ht c hc

theorem Text.Blank.not_mem {s : Text} {c : CodePoint} (hs : s.Blank) (hc : Text.isBlank c = false) :
    c ∉ s :=
  fun hmem => absurd (hs c hmem) (ne_true_of_eq_false hc)

theorem Text.Name.not_mem {s : Text} {c : CodePoint} (hs : s.Name) (hc : Text.isWord c = false) :
    c ∉ s :=
  fun hmem => absurd (hs.2 c hmem) (ne_true_of_eq_false hc)

def Lexeme.IsText (l : Lexeme) (t : Text) : Prop :=
  match l with
  | name n => t = n ∧ n.Name
  | args a => t = .char '(' :: (a ++ [.char ')']) ∧ ∀ c ∈ a, Token.endsBlock c = false
  | pipe => t = [.char '|']
  | stop => False

inductive ClauseText : Text → Alternative → Prop where
  | bare {b n d : Text} (hb : b.Blank) (hn : n.Name) (hd : d.Blank) :
      ClauseText (b ++ n ++ d) ⟨n, none⟩
  | block {b n d a e : Text} (hb : b.Blank) (hn : n.Name) (hd : d.Blank)
      (ha : ∀ c ∈ a, Token.endsBlock c = false) (he : e.Blank) :
      ClauseText (b ++ n ++ d ++ .char '(' :: (a ++ .char ')' :: e)) ⟨n, some a⟩

inductive SpecText : Text → List Alternative → Prop where
  | one {s : Text} {x : Alternative} (hs : ClauseText s x) : SpecText s [x]
  | more {s t : Text} {x : Alternative} {xs : List Alternative} (hs : ClauseText s x)
      (ht : SpecText t xs) : SpecText (s ++ .char '|' :: t) (x :: xs)

namespace Alternative

def lexemes (x : Alternative) : List Lexeme :=
  .name x.name :: (x.rawArgs.map Lexeme.args).toList

/-- The lexemes of alternatives that follow another one. -/
def lexemesAfter (xs : List Alternative) : List Lexeme :=
  xs.flatMap fun x => .pipe :: x.lexemes

theorem cons_of_map_lexeme {ts : List Token} {l : Lexeme} {ls : List Lexeme}
    (h : ts.map (·.lexeme) = l :: ls) :
    ∃ p rest, ts = ⟨l, p⟩ :: rest ∧ rest.map (·.lexeme) = ls := by
  obtain ⟨t, rest, rfl, rfl, hrest⟩ := List.map_eq_cons_iff.mp h
  exact ⟨t.position, rest, rfl, hrest⟩

/-- After the last lexeme of an alternative there is a pipe or the end. -/
theorem not_args_of_head (xs : List Alternative) :
    ∀ l ∈ (lexemesAfter xs ++ [Lexeme.stop]).head?, ∀ a, l ≠ Lexeme.args a := by
  intro l hl a hla
  subst hla
  cases xs with
  | nil => cases hl
  | cons y ys => cases hl

/-- A block after the name of an alternative belongs to the alternative. -/
theorem readAll_own {x : Alternative} {own ts : List Token} (hown : own.map (·.lexeme) = x.lexemes)
    (hts : x.rawArgs = none → ∀ a q rest, ts ≠ ⟨.args a, q⟩ :: rest) :
    readAll (own ++ ts) = readMore x ts := by
  obtain ⟨n, args⟩ := x
  obtain ⟨p, rest, rfl, hrest⟩ := cons_of_map_lexeme hown
  cases args with
  | some a =>
    obtain ⟨q, after, rfl, hafter⟩ := cons_of_map_lexeme hrest
    obtain rfl := List.map_eq_nil_iff.mp hafter
    rfl
  | none =>
    obtain rfl := List.map_eq_nil_iff.mp hrest
    rw [List.singleton_append, readAll]
    exact hts rfl

theorem readAll_of_lexemes {x : Alternative} {ls : List Lexeme} {ts : List Token}
    {xs : List Alternative} (h : ts.map (·.lexeme) = x.lexemes ++ ls)
    (hls : ∀ l ∈ ls.head?, ∀ a, l ≠ Lexeme.args a)
    (hmore : ∀ rest, rest.map (·.lexeme) = ls → readMore x rest = .ok xs) :
    readAll ts = .ok xs := by
  obtain ⟨own, rest, rfl, hown, hrest⟩ := List.map_eq_append_iff.mp h
  rw [readAll_own hown]
  · exact hmore rest hrest
  · rintro _ a q after rfl
    have hhead := congrArg List.head? hrest
    exact hls _ hhead.symm a rfl

theorem readMore_of_lexemes (x : Alternative) (xs : List Alternative) {ts : List Token}
    (h : ts.map (·.lexeme) = lexemesAfter xs ++ [.stop]) : readMore x ts = .ok (x :: xs) := by
  induction xs generalizing x ts with
  | nil =>
    obtain ⟨p, rest, rfl, -⟩ := cons_of_map_lexeme h
    rfl
  | cons y ys ih =>
    obtain ⟨p, rest, rfl, hrest⟩ := cons_of_map_lexeme h
    have hread : readAll rest = .ok (y :: ys) := by
      refine readAll_of_lexemes (hrest.trans (List.append_assoc ..)) ?_ ?_
      · exact not_args_of_head ys
      · intro more hmore
        exact ih y hmore
    rw [readMore, hread]
    rfl

mutual

theorem lexemes_of_readAll : ∀ (ts : List Token) {ls : List Lexeme} {xs : List Alternative},
    ts.map (·.lexeme) = ls ++ [.stop] → Lexeme.stop ∉ ls → readAll ts = .ok xs →
      ∃ x rest, xs = x :: rest ∧ ls = x.lexemes ++ lexemesAfter rest
  | ts, ls, xs, hts, hstop, hread => by
    cases ls with
    | nil =>
      obtain ⟨p, rest, rfl, -⟩ := cons_of_map_lexeme hts
      cases hread
    | cons l ls =>
      obtain ⟨p, rest, rfl, hrest⟩ := cons_of_map_lexeme hts
      have hstop' : Lexeme.stop ∉ ls := fun h => hstop (List.mem_cons_of_mem _ h)
      cases l with
      | args a => cases hread
      | pipe => cases hread
      | stop => cases hread
      | name n =>
        -- The token after a name is looked at: it is a block, which belongs to the name, or it is
        -- not.
        unfold readAll at hread
        split at hread
        · next m q a r after heq =>
          cases heq
          cases ls with
          | nil => cases hrest
          | cons l ls =>
            have hargs : Lexeme.args a = l := (List.cons.inj hrest).1
            subst hargs
            have hafter : after.map (·.lexeme) = ls ++ [.stop] := (List.cons.inj hrest).2
            have hstop'' : Lexeme.stop ∉ ls := fun h => hstop' (List.mem_cons_of_mem _ h)
            obtain ⟨more, rfl, rfl⟩ := lexemes_of_readMore _ after hafter hstop'' hread
            exact ⟨_, more, rfl, rfl⟩
        · next m q after hnot heq =>
          cases heq
          obtain ⟨more, rfl, rfl⟩ := lexemes_of_readMore _ _ hrest hstop' hread
          exact ⟨_, more, rfl, rfl⟩
        · cases hread
        · next heq => cases heq
  termination_by ts => ts.length

theorem lexemes_of_readMore : ∀ (x : Alternative) (ts : List Token) {ls : List Lexeme}
    {xs : List Alternative}, ts.map (·.lexeme) = ls ++ [.stop] → Lexeme.stop ∉ ls →
      readMore x ts = .ok xs → ∃ rest, xs = x :: rest ∧ ls = lexemesAfter rest
  | _, ts, ls, xs, hts, hstop, hread => by
    cases ls with
    | nil =>
      obtain ⟨p, rest, rfl, -⟩ := cons_of_map_lexeme hts
      cases hread
      exact ⟨[], rfl, rfl⟩
    | cons l ls =>
      obtain ⟨p, rest, rfl, hrest⟩ := cons_of_map_lexeme hts
      cases l with
      | name n => cases hread
      | args a => cases hread
      | stop => exact absurd List.mem_cons_self hstop
      | pipe =>
        rw [readMore] at hread
        obtain ⟨ys, hys, rfl⟩ := ok_of_map hread
        have hstop' : Lexeme.stop ∉ ls := fun h => hstop (List.mem_cons_of_mem _ h)
        obtain ⟨y, more, rfl, rfl⟩ := lexemes_of_readAll rest hrest hstop' hys
        exact ⟨y :: more, rfl, rfl⟩
  termination_by _ ts => ts.length

end

mutual

theorem not_isLexical_of_readAll : ∀ (ts : List Token) {e : SpecError},
    readAll ts = .error e → e.isLexical = false
  | ts, e, h => by
    unfold readAll at h
    split at h
    · next after => exact not_isLexical_of_readMore _ after h
    · next after _ => exact not_isLexical_of_readMore _ after h
    · cases h
      rfl
    · cases h
  termination_by ts => ts.length

theorem not_isLexical_of_readMore : ∀ (x : Alternative) (ts : List Token) {e : SpecError},
    readMore x ts = .error e → e.isLexical = false
  | x, ts, e, h => by
    unfold readMore at h
    split at h
    · next after => exact not_isLexical_of_readAll after (error_of_map h)
    · cases h
      rfl
    · cases h
      rfl
    · cases h
    · cases h
  termination_by _ ts => ts.length

end

theorem not_isLexical_of_ofTokens {ts : List Token} {e : SpecError} (h : ofTokens ts = .error e) :
    e.isLexical = false := by
  unfold ofTokens at h
  split at h
  · cases h
    rfl
  · exact not_isLexical_of_readAll ts h

theorem parse_eq_ok {s : Text} {xs : List Alternative} :
    parse s = .ok xs ↔
      ∃ x rest, xs = x :: rest ∧ Scanned s (x.lexemes ++ lexemesAfter rest) := by
  unfold parse Token.scan
  constructor
  · intro h
    cases hscan : Token.scanFrom 0 s with
    | error e =>
      rw [hscan] at h
      cases h
    | ok ts =>
      rw [hscan] at h
      obtain ⟨ls, hs, hts⟩ := Scanned.of_scanFrom hscan
      have hread : ofTokens ts = .ok xs := h
      have hstop := hs.stop_not_mem
      unfold ofTokens at hread
      split at hread
      · cases hread
      · obtain ⟨x, rest, rfl, rfl⟩ := lexemes_of_readAll ts hts hstop hread
        exact ⟨x, rest, rfl, hs⟩
  · rintro ⟨x, rest, rfl, hs⟩
    obtain ⟨ts, hscan, hts⟩ := hs.scanFrom 0
    rw [hscan]
    have hread : readAll ts = .ok (x :: rest) := by
      refine readAll_of_lexemes (hts.trans (List.append_assoc ..)) ?_ ?_
      · exact not_args_of_head rest
      · intro more hmore
        exact readMore_of_lexemes x rest hmore
    obtain ⟨p, more, rfl, -⟩ := cons_of_map_lexeme hts
    exact hread

end Alternative

namespace Scanned

variable {s t b n a : Text} {l : Lexeme} {ls : List Lexeme} {x : Alternative}

theorem blanks (hb : b.Blank) (hs : Scanned s ls) : Scanned (b ++ s) ls := by
  induction b with
  | nil => exact hs
  | cons c b ih =>
    have hc := hb c List.mem_cons_self
    exact .blank hc (ih fun d hd => hb d (List.mem_cons_of_mem c hd))

theorem blank_of_nil (h : Scanned s []) : s.Blank := by
  generalize hls : ([] : List Lexeme) = ls at h
  induction h with
  | nil => exact Text.blank_nil
  | blank hc _ ih =>
    intro d hd
    rcases List.mem_cons.mp hd with rfl | hd
    · exact hc
    · exact ih hls d hd
  | pipe | args | name => cases hls

theorem cons_inv (h : Scanned s (l :: ls)) :
    ∃ b t u, s = b ++ t ++ u ∧ b.Blank ∧ l.IsText t ∧ Scanned u ls := by
  generalize hls : l :: ls = all at h
  induction h with
  | nil => cases hls
  | @blank c s all hc _ ih =>
    obtain ⟨b, t, u, rfl, hb, hrest⟩ := ih hls
    refine ⟨c :: b, t, u, rfl, ?_, hrest⟩
    intro d hd
    rcases List.mem_cons.mp hd with rfl | hd
    · exact hc
    · exact hb d hd
  | pipe hs =>
    cases hls
    exact ⟨[], _, _, rfl, Text.blank_nil, rfl, hs⟩
  | @args a s ls ha hs =>
    cases hls
    refine ⟨[], .char '(' :: (a ++ [.char ')']), s, ?_, Text.blank_nil, ⟨rfl, ha⟩, hs⟩
    simp
  | name hne hn _ hs =>
    cases hls
    exact ⟨[], _, _, rfl, Text.blank_nil, ⟨rfl, hne, hn⟩, hs⟩

/-- Neither blanks nor what comes after them go on in a name. -/
theorem head_blanks (hb : b.Blank) (ht : ∀ c ∈ t.head?, Text.isWord c = false) :
    ∀ c ∈ (b ++ t).head?, Text.isWord c = false := by
  cases b with
  | nil => exact ht
  | cons d b =>
    intro c hc
    cases hc
    exact Text.not_isWord_of_isBlank (hb d List.mem_cons_self)

theorem clause (hs : ClauseText s x) (ht : Scanned t ls)
    (hhead : ∀ c ∈ t.head?, Text.isWord c = false) : Scanned (s ++ t) (x.lexemes ++ ls) := by
  cases hs with
  | @bare b n d hb hn hd =>
    have hname := Scanned.name hn.1 hn.2 (head_blanks hd hhead) (blanks hd ht)
    have hall := blanks hb hname
    rw [← List.append_assoc, ← List.append_assoc] at hall
    exact hall
  | @block b n d a e hb hn hd ha he =>
    -- After the name there is a blank or the parenthesis, so the name ends where it should.
    have hargs := blanks hd (Scanned.args ha (blanks he ht))
    have hopen : ∀ c ∈ (d ++ .char '(' :: (a ++ .char ')' :: (e ++ t))).head?,
        Text.isWord c = false := by
      apply head_blanks hd
      intro c hc
      cases hc
      exact Token.open_not_word
    have hall := blanks hb (Scanned.name hn.1 hn.2 hopen hargs)
    simp only [List.append_assoc, List.cons_append] at hall ⊢
    exact hall

theorem of_specText {xs : List Alternative} (h : SpecText s xs) :
    ∃ x rest, xs = x :: rest ∧ Scanned s (x.lexemes ++ Alternative.lexemesAfter rest) := by
  induction h with
  | @one s x hs =>
    refine ⟨x, [], rfl, ?_⟩
    have hall := clause hs .nil (fun c hc => by cases hc)
    rw [List.append_nil] at hall
    exact hall
  | @more s t x xs hs ht ih =>
    obtain ⟨y, rest, rfl, hrest⟩ := ih
    refine ⟨x, y :: rest, rfl, clause hs (.pipe hrest) ?_⟩
    intro c hc
    cases hc
    exact Token.pipe_not_word

end Scanned

namespace ClauseText

variable {s d : Text} {x : Alternative} {ls : List Lexeme}

theorem append_blanks (h : ClauseText s x) (hd : d.Blank) : ClauseText (s ++ d) x := by
  cases h with
  | @bare b n e hb hn he =>
    rw [List.append_assoc]
    exact .bare hb hn (he.append hd)
  | @block b n e a f hb hn he ha hf =>
    have hclause := ClauseText.block hb hn he ha (hf.append hd)
    simp only [List.append_assoc, List.cons_append] at hclause ⊢
    exact hclause

/-- A text whose first lexemes are those of an alternative starts with a clause. -/
theorem of_scanned (h : Scanned s (x.lexemes ++ ls)) :
    ∃ t u, s = t ++ u ∧ ClauseText t x ∧ Scanned u ls := by
  obtain ⟨n, args⟩ := x
  obtain ⟨b, t, u, rfl, hb, ⟨rfl, hn⟩, hu⟩ := Scanned.cons_inv h
  cases args with
  | none =>
    refine ⟨b ++ t, u, rfl, ?_, hu⟩
    have hclause := ClauseText.bare hb hn Text.blank_nil
    rw [List.append_nil] at hclause
    exact hclause
  | some a =>
    obtain ⟨d, v, w, rfl, hd, ⟨rfl, ha⟩, hw⟩ := Scanned.cons_inv hu
    refine ⟨_, w, ?_, .block hb hn hd ha Text.blank_nil, hw⟩
    simp

end ClauseText

theorem SpecText.of_scanned (x : Alternative) (rest : List Alternative) {s : Text}
    (h : Scanned s (x.lexemes ++ Alternative.lexemesAfter rest)) : SpecText s (x :: rest) := by
  obtain ⟨t, u, rfl, ht, hu⟩ := ClauseText.of_scanned h
  clear h
  induction rest generalizing x t u with
  | nil => exact .one (ht.append_blanks hu.blank_of_nil)
  | cons y rest ih =>
    obtain ⟨b, p, v, rfl, hb, rfl, hv⟩ := Scanned.cons_inv hu
    obtain ⟨t', u', rfl, ht', hu'⟩ := ClauseText.of_scanned hv
    have hspec := SpecText.more (ht.append_blanks hb) (ih y t' u' ht' hu')
    simp only [List.append_assoc, List.singleton_append] at hspec ⊢
    exact hspec

namespace Alternative

theorem parse_eq_ok_iff_specText {s : Text} {xs : List Alternative} :
    parse s = .ok xs ↔ SpecText s xs := by
  rw [parse_eq_ok]
  constructor
  · rintro ⟨x, rest, rfl, hs⟩
    exact SpecText.of_scanned x rest hs
  · exact Scanned.of_specText

theorem parse_name {name : Text} (h : name.Name) : parse name = .ok [⟨name, none⟩] := by
  have hclause := ClauseText.bare Text.blank_nil h Text.blank_nil
  rw [List.append_nil, List.nil_append] at hclause
  exact parse_eq_ok_iff_specText.mpr (.one hclause)

/-- An error is one of scanning if the text is not a sequence of tokens, and else one of reading. -/
theorem isLexical_iff_of_parse {s : Text} {e : SpecError} (h : parse s = .error e) :
    e.isLexical = true ↔ ¬ ∃ ls, Scanned s ls := by
  unfold parse Token.scan at h
  cases hscan : Token.scanFrom 0 s with
  | error e' =>
    rw [hscan] at h
    cases h
    refine iff_of_true (Token.isLexical_of_scanFrom hscan) ?_
    rintro ⟨ls, hs⟩
    obtain ⟨ts, hok, -⟩ := hs.scanFrom 0
    rw [hscan] at hok
    cases hok
  | ok ts =>
    rw [hscan] at h
    obtain ⟨ls, hs, -⟩ := Scanned.of_scanFrom hscan
    have hread : e.isLexical = false := not_isLexical_of_ofTokens h
    rw [hread]
    exact iff_of_false Bool.false_ne_true fun hnot => hnot ⟨ls, hs⟩

/-- Parsing gives the alternatives of the grammar, of which a text has one list at most. Otherwise
it fails, in scanning if any part of the text is no token, and in reading the tokens if all parts
are. -/
theorem parse_spec (s : Text) :
    (∀ xs, parse s = .ok xs ↔ SpecText s xs) ∧
    (∀ xs ys, SpecText s xs → SpecText s ys → xs = ys) ∧
    ((∃ e, parse s = .error e ∧ e.isLexical = true) ↔ ¬ ∃ ls, Scanned s ls) ∧
    ((∃ e, parse s = .error e ∧ e.isLexical = false) ↔
      (∃ ls, Scanned s ls) ∧ ¬ ∃ xs, SpecText s xs) := by
  have hscanned : ∀ xs, SpecText s xs → ∃ ls, Scanned s ls := by
    intro xs hxs
    obtain ⟨x, rest, -, hs⟩ := Scanned.of_specText hxs
    exact ⟨_, hs⟩
  refine ⟨fun xs => parse_eq_ok_iff_specText, ?_, ?_, ?_⟩
  · intro xs ys hxs hys
    have hx := parse_eq_ok_iff_specText.mpr hxs
    have hy := parse_eq_ok_iff_specText.mpr hys
    exact Except.ok.inj (hx.symm.trans hy)
  · constructor
    · rintro ⟨e, he, hlexical⟩
      exact (isLexical_iff_of_parse he).mp hlexical
    · intro hnot
      cases hparse : parse s with
      | error e => exact ⟨e, rfl, (isLexical_iff_of_parse hparse).mpr hnot⟩
      | ok xs => exact absurd (hscanned xs (parse_eq_ok_iff_specText.mp hparse)) hnot
  · constructor
    · rintro ⟨e, he, hlexical⟩
      refine ⟨?_, ?_⟩
      · apply Classical.byContradiction
        intro hnot
        have htrue := (isLexical_iff_of_parse he).mpr hnot
        rw [hlexical] at htrue
        cases htrue
      · rintro ⟨xs, hxs⟩
        have hok := parse_eq_ok_iff_specText.mpr hxs
        rw [he] at hok
        cases hok
    · rintro ⟨hls, hnot⟩
      cases hparse : parse s with
      | error e =>
        refine ⟨e, rfl, Bool.eq_false_iff.mpr ?_⟩
        intro hlexical
        exact (isLexical_iff_of_parse hparse).mp hlexical hls
      | ok xs => exact absurd ⟨xs, parse_eq_ok_iff_specText.mp hparse⟩ hnot

/-- An alternative that is missing does not hide the parenthesis after it, which is never closed. -/
theorem parse_of_clause_and_of_open_block :
    parse [.char '_', .char '(', .char ' ', .char ')'] = .ok [⟨[.char '_'], some [.char ' ']⟩] ∧
      ¬ ∃ ls, Scanned [.char '|', .char '('] ls := by
  have hclause : ClauseText [.char '_', .char '(', .char ' ', .char ')']
      ⟨[.char '_'], some [.char ' ']⟩ := by
    refine .block (b := []) (n := [.char '_']) (d := []) (a := [.char ' ']) (e := [])
      Text.blank_nil ⟨List.cons_ne_nil _ _, ?_⟩ Text.blank_nil ?_ Text.blank_nil
    · intro c hc
      rw [List.mem_singleton.mp hc]
      exact Text.isWord_underscore
    · intro c hc
      rw [List.mem_singleton.mp hc]
      decide
  have hopen : parse [.char '|', .char '('] = .error (.unexpectedCharacter (.char '(') 1) := by
    unfold parse Token.scan
    rw [Token.scanFrom_pipe, Token.scanFrom]
    rfl
  exact ⟨((parse_spec _).1 _).mpr (.one hclause), (parse_spec _).2.2.1.mp ⟨_, hopen, rfl⟩⟩

end Alternative

end TreeSpec
