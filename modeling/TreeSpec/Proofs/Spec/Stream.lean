import TreeSpec.Proofs.Spec.Grammar

/-!
# Tokens one after the other

The next token of a text comes after blanks, and what follows it does not go on with it. Scanning
reads one token after the other, and gives all of them if the end is reached and the error
otherwise.
-/

namespace TreeSpec

set_option autoImplicit false

section Parted

/-- No name goes on from the end of the one text into the other one. -/
def Text.Parted (s t : Text) : Prop :=
  ∀ c ∈ s.getLast?, ∀ d ∈ t.head?, Text.isWord c = true → Text.isWord d = false

namespace Text

variable {s t u : Text}

theorem parted_append_left : Parted (s ++ t) u ↔ Parted t u ∧ (t = [] → Parted s u) := by
  cases ht : t.getLast? with
  | none =>
    obtain rfl := List.getLast?_eq_none_iff.mp ht
    simp [Parted]
  | some c =>
    have hne : t ≠ [] := by
      rintro rfl
      cases ht
    simp [Parted, List.getLast?_append, ht, hne]

theorem parted_append_right : Parted s (t ++ u) ↔ Parted s t ∧ (t = [] → Parted s u) := by
  cases t <;> simp [Parted]

theorem parted_of_getLast? (hs : ∀ c ∈ s.getLast?, isWord c = false) : Parted s t := by
  intro c hc d _ hword
  rw [hs c hc] at hword
  cases hword

theorem parted_of_head? (ht : ∀ d ∈ t.head?, isWord d = false) : Parted s t :=
  fun _ _ d hd _ => ht d hd

/-- A run of word characters is taken up to its end. -/
theorem parted_dropWhile : Parted s (t.dropWhile isWord) := by
  apply parted_of_head?
  intro d hd
  have hhead := List.head?_dropWhile_not isWord t
  rw [Option.mem_def.mp hd] at hhead
  exact hhead

theorem Blank.parted (hs : s.Blank) : Parted s t :=
  parted_of_getLast? fun c hc => not_isWord_of_isBlank (hs c (List.mem_of_getLast? hc))

end Text

end Parted

theorem Lexeme.IsText.length_pos {l : Lexeme} {x : Text} (h : l.IsText x) : 0 < x.length := by
  cases l with
  | name n =>
    obtain ⟨rfl, hn⟩ := h
    exact List.length_pos_iff.mpr hn.1
  | args a =>
    obtain ⟨rfl, -⟩ := h
    exact Nat.succ_pos _
  | pipe =>
    obtain rfl : x = [.char '|'] := h
    exact Nat.one_pos
  | stop => cases h

theorem Lexeme.IsText.ne_nil {l : Lexeme} {x : Text} (h : l.IsText x) : x ≠ [] :=
  List.length_pos_iff.mp h.length_pos

namespace Token

/-- The character starts no token in front of the rest of the text: it is a parenthesis whose block
is not closed, or it belongs to no token at all. -/
def Stuck (c : CodePoint) (rest : Text) : Prop :=
  (c = .char '(' ∧ ∀ a b, rest = a ++ .char ')' :: b → ∃ d ∈ a, d = .char '(' ∨ d = .char '|') ∨
    (Text.isBlank c = false ∧ Text.isWord c = false ∧ c ≠ .char '|' ∧ c ≠ .char '(')

/-- The next token with the text after it. -/
def next (position : Nat) : Text → Except SpecError (Token × Text)
  | [] => .ok (⟨.stop, position⟩, [])
  | c :: rest =>
    if Text.isBlank c then next (position + 1) rest
    else if c = '|' then .ok (⟨.pipe, position⟩, rest)
    else if c = '(' then
      match block? rest with
      | some (inner, after) => .ok (⟨.args inner, position⟩, after)
      | none => .error (.unexpectedCharacter c position)
    else if Text.isWord c then
      .ok (⟨.name (c :: rest.takeWhile Text.isWord), position⟩, rest.dropWhile Text.isWord)
    else .error (.unexpectedCharacter c position)

theorem block?_eq_none {s : Text} : block? s = none ↔
    ∀ a b, s = a ++ .char ')' :: b → ∃ d ∈ a, d = .char '(' ∨ d = .char '|' := by
  constructor
  · rintro h a b rfl
    apply Classical.byContradiction
    intro hnot
    -- The block would be closed at the first closing parenthesis.
    obtain ⟨a', b', hcut, ha'⟩ : ∃ a' b', a ++ .char ')' :: b = a' ++ .char ')' :: b' ∧
        ∀ d ∈ a', endsBlock d = false := by
      clear h
      induction a with
      | nil => exact ⟨[], b, rfl, fun _ hd => absurd hd List.not_mem_nil⟩
      | cons d a ih =>
        by_cases hclose : d = .char ')'
        · exact ⟨[], a ++ .char ')' :: b, by rw [hclose]; rfl,
            fun _ hd => absurd hd List.not_mem_nil⟩
        · obtain ⟨a', b', hcut, ha'⟩ :=
            ih fun ⟨e, he, hends⟩ => hnot ⟨e, List.mem_cons_of_mem d he, hends⟩
          refine ⟨d :: a', b', by rw [List.cons_append, hcut]; rfl,
            List.forall_mem_cons.mpr ⟨?_, ha'⟩⟩
          have hd : ¬ (d = .char '(' ∨ d = .char '|') :=
            fun hends => hnot ⟨d, List.mem_cons_self, hends⟩
          rw [not_or] at hd
          simp [endsBlock, hd, hclose]
    rw [hcut, block?_append ha'] at h
    cases h
  · intro h
    cases hblock : block? s with
    | none => rfl
    | some found =>
      obtain ⟨hs, hinner⟩ := of_block? (a := found.1) (s := found.2) hblock
      obtain ⟨d, hd, hends⟩ := h _ _ hs
      have hnot := hinner d hd
      rcases hends with rfl | rfl <;> cases hnot

variable {p : Nat} {c : CodePoint} {b s rest x : Text} {t : Token} {l : Lexeme} {e : SpecError}

theorem close_not_word : Text.isWord ')' = false := by decide +kernel

theorem Stuck.not_isWord (h : Stuck c rest) : Text.isWord c = false := by
  rcases h with ⟨rfl, -⟩ | ⟨-, hword, -⟩
  · exact open_not_word
  · exact hword

theorem Stuck.parted (h : Stuck c rest) : Text.Parted s (c :: rest) := by
  apply Text.parted_of_head?
  intro d hd
  cases hd
  exact h.not_isWord

/-- Only a name goes on in the character after it. -/
theorem parted_of_isText (hl : l.IsText x) (hname : ∀ n, l ≠ .name n) : Text.Parted x s := by
  apply Text.parted_of_getLast?
  cases l with
  | name n => exact absurd rfl (hname n)
  | args a =>
    obtain ⟨rfl, -⟩ := hl
    intro c hc
    rw [← List.cons_append, List.getLast?_append] at hc
    cases hc
    exact close_not_word
  | pipe =>
    obtain rfl : x = [.char '|'] := hl
    intro c hc
    cases hc
    exact pipe_not_word
  | stop => cases hl

theorem scanFrom_blanks (hb : b.Blank) : scanFrom p (b ++ s) = scanFrom (p + b.length) s := by
  induction b generalizing p with
  | nil => rfl
  | cons c b ih =>
    rw [List.cons_append, scanFrom_blank (hb c List.mem_cons_self),
      ih fun d hd => hb d (List.mem_cons_of_mem c hd), List.length_cons]
    congr 1
    omega

theorem scanFrom_lexeme (hl : l.IsText x) (hparted : Text.Parted x s) :
    scanFrom p (x ++ s) = (scanFrom (p + x.length) s).map (⟨l, p⟩ :: ·) := by
  cases l with
  | name n =>
    obtain ⟨rfl, hn⟩ := hl
    apply scanFrom_name hn.1 hn.2
    intro d hd
    exact hparted _ (List.getLast?_eq_some_getLast hn.1) d hd (hn.2 _ (List.getLast_mem hn.1))
  | args a =>
    obtain ⟨rfl, ha⟩ := hl
    have hblock := scanFrom_block (p := p) (s := s) ha
    simpa [Nat.add_assoc] using hblock
  | pipe =>
    obtain rfl : x = [.char '|'] := hl
    exact scanFrom_pipe
  | stop => cases hl

theorem scanFrom_stuck (h : Stuck c rest) :
    scanFrom p (c :: rest) = .error (.unexpectedCharacter c p) := by
  rcases h with ⟨rfl, hopen⟩ | ⟨hblank, hword, hpipe, hopen⟩
  · have hpipe : (.char '(' : CodePoint) ≠ .char '|' := by decide
    rw [scanFrom, open_not_blank, if_neg Bool.false_ne_true, if_neg hpipe, if_pos rfl]
    split
    · next hblock =>
      rw [block?_eq_none.mpr hopen] at hblock
      cases hblock
    · rfl
  · rw [scanFrom, hblank, if_neg Bool.false_ne_true, if_neg hpipe, if_neg hopen, hword,
      if_neg Bool.false_ne_true]

theorem of_next_error (h : next p s = .error e) :
    ∃ (b : Text) (c : CodePoint) (rest : Text), b.Blank ∧ s = b ++ c :: rest ∧ Stuck c rest ∧
      e = .unexpectedCharacter c (p + b.length) := by
  fun_induction next p s with
  | case1 | case3 | case4 | case6 => cases h
  | case2 p c s hc ih =>
    obtain ⟨b, d, rest, hb, rfl, hstuck, rfl⟩ := ih h
    refine ⟨c :: b, d, rest, List.forall_mem_cons.mpr ⟨hc, hb⟩, rfl, hstuck, ?_⟩
    rw [List.length_cons]
    congr 1
    omega
  | case5 p s hblock =>
    cases h
    exact ⟨[], _, s, Text.blank_nil, rfl, .inl ⟨rfl, block?_eq_none.mp hblock⟩, rfl⟩
  | case7 p c s hblank hpipe hopen hword =>
    cases h
    refine ⟨[], c, s, Text.blank_nil, rfl, .inr ⟨?_, ?_, hpipe, hopen⟩, rfl⟩
    · simpa using hblank
    · simpa using hword

theorem of_next_ok (h : next p s = .ok (t, rest)) :
    ∃ b : Text, b.Blank ∧ t.position = p + b.length ∧
      ((t.lexeme = .stop ∧ s = b ∧ rest = []) ∨
        ∃ x, t.lexeme.IsText x ∧ Text.Parted x rest ∧ s = b ++ x ++ rest) := by
  fun_induction next p s with
  | case1 p =>
    cases h
    exact ⟨[], Text.blank_nil, rfl, .inl ⟨rfl, rfl, rfl⟩⟩
  | case2 p c s hc ih =>
    obtain ⟨b, hb, hposition, hread⟩ := ih h
    refine ⟨c :: b, List.forall_mem_cons.mpr ⟨hc, hb⟩, ?_, ?_⟩
    · rw [hposition, List.length_cons]
      omega
    · rcases hread with ⟨hstop, rfl, hrest⟩ | ⟨x, hx, hparted, rfl⟩
      · exact .inl ⟨hstop, rfl, hrest⟩
      · exact .inr ⟨x, hx, hparted, rfl⟩
  | case3 p s hc =>
    cases h
    have hl : Lexeme.pipe.IsText [.char '|'] := rfl
    exact ⟨[], Text.blank_nil, rfl, .inr ⟨_, hl, parted_of_isText hl (fun _ => nofun), rfl⟩⟩
  | case4 p s a after hblock hc hpipe =>
    cases h
    obtain ⟨rfl, ha⟩ := of_block? hblock
    have hl : (Lexeme.args a).IsText (.char '(' :: (a ++ [.char ')'])) := ⟨rfl, ha⟩
    refine ⟨[], Text.blank_nil, rfl, .inr ⟨_, hl, parted_of_isText hl (fun _ => nofun), ?_⟩⟩
    simp
  | case6 p c s hblank hpipe hopen hword =>
    cases h
    refine ⟨[], Text.blank_nil, rfl,
      .inr ⟨c :: s.takeWhile Text.isWord, ⟨rfl, ?_⟩, Text.parted_dropWhile, ?_⟩⟩
    · refine ⟨List.cons_ne_nil _ _, List.forall_mem_cons.mpr ⟨hword, ?_⟩⟩
      exact List.all_eq_true.mp List.all_takeWhile
    · rw [List.nil_append, List.cons_append, List.takeWhile_append_dropWhile]
  | case5 | case7 => cases h

/-- Something is read of the text, unless the end is reached. -/
theorem length_of_next_ok (h : next p s = .ok (t, rest)) (hne : t.lexeme ≠ .stop) :
    rest.length < s.length := by
  obtain ⟨b, -, -, ⟨hstop, -⟩ | ⟨x, hx, -, rfl⟩⟩ := of_next_ok h
  · exact absurd hstop hne
  · have := hx.length_pos
    simp only [List.length_append]
    omega

/-- The tokens that are read one after the other, up to the end or up to the error that is found. -/
def stream (position : Nat) (cs : Text) : List Token × Option SpecError :=
  match _h : next position cs with
  | .error e => ([], some e)
  | .ok (t, rest) =>
    if _hstop : t.lexeme = .stop then ([t], none)
    else
      let more := stream (position + (cs.length - rest.length)) rest
      (t :: more.1, more.2)
termination_by cs.length
decreasing_by exact length_of_next_ok _h _hstop

/-- Scanning gives the tokens that are read, or fails with the error that is found. -/
theorem scanFrom_eq_stream (p : Nat) (s : Text) : scanFrom p s =
    match (stream p s).2 with
    | none => .ok (stream p s).1
    | some e => .error e := by
  fun_induction stream p s with
  | case1 p s e h =>
    obtain ⟨b, c, rest, hb, rfl, hstuck, rfl⟩ := of_next_error h
    rw [scanFrom_blanks hb, scanFrom_stuck hstuck]
  | case2 p s t rest h hstop =>
    obtain ⟨b, hb, hposition, ⟨-, rfl, rfl⟩ | ⟨x, hx, -⟩⟩ := of_next_ok h
    · have hread := scanFrom_blanks (p := p) (s := []) hb
      rw [List.append_nil, scanFrom_nil, ← hposition, ← hstop] at hread
      exact hread
    · rw [hstop] at hx
      cases hx
  | case3 p s t rest h hstop more ih =>
    obtain ⟨b, hb, hposition, ⟨hend, -⟩ | ⟨x, hx, hparted, rfl⟩⟩ := of_next_ok h
    · exact absurd hend hstop
    · have hafter : p + ((b ++ x ++ rest).length - rest.length) = t.position + x.length := by
        simp only [List.length_append]
        omega
      rw [List.append_assoc, scanFrom_blanks hb, scanFrom_lexeme hx hparted, ← hposition,
        ← hafter, ih]
      cases more.2 <;> rfl

end Token

end TreeSpec
