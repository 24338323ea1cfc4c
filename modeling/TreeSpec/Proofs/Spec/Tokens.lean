import TreeSpec.Failure
import TreeSpec.Proofs.Text.Classes
import TreeSpec.Spec.Token

/-!
# What scanning accepts

A text is scanned where it is a sequence of blanks, pipes, argument blocks and names, no name going
on in the character after it. Scanning succeeds on just these texts, and else says which character
starts no token.
-/

namespace TreeSpec

set_option autoImplicit false

/-- An error of scanning, not of reading the tokens. -/
def SpecError.isLexical : SpecError → Bool
  | unexpectedCharacter _ _ => true
  | emptySpec _ | expectedName _ | unexpectedToken _ _ => false

/-- The text is made of the lexemes, with blanks between them. -/
inductive Scanned : Text → List Lexeme → Prop where
  | nil : Scanned [] []
  | blank {c : CodePoint} {s : Text} {ls : List Lexeme} (hc : Text.isBlank c = true)
      (hs : Scanned s ls) : Scanned (c :: s) ls
  | pipe {s : Text} {ls : List Lexeme} (hs : Scanned s ls) : Scanned (.char '|' :: s) (.pipe :: ls)
  | args {a s : Text} {ls : List Lexeme} (ha : ∀ c ∈ a, Token.endsBlock c = false)
      (hs : Scanned s ls) : Scanned (.char '(' :: (a ++ .char ')' :: s)) (.args a :: ls)
  | name {n s : Text} {ls : List Lexeme} (hne : n ≠ []) (hn : ∀ c ∈ n, Text.isWord c = true)
      (hend : ∀ c ∈ s.head?, Text.isWord c = false) (hs : Scanned s ls) :
      Scanned (n ++ s) (.name n :: ls)

namespace Token

theorem pipe_not_blank : Text.isBlank '|' = false := by decide

theorem open_not_blank : Text.isBlank '(' = false := by decide

theorem pipe_not_word : Text.isWord '|' = false := by decide +kernel

theorem open_not_word : Text.isWord '(' = false := by decide +kernel

theorem block?_append {a s : Text} (ha : ∀ c ∈ a, endsBlock c = false) :
    block? (a ++ .char ')' :: s) = some (a, s) := by
  have hin : ∀ c ∈ a, (!endsBlock c) = true := by
    intro c hc
    rw [ha c hc]
    rfl
  have hend : (!endsBlock (.char ')')) = false := by decide
  unfold block?
  rw [List.dropWhile_append_of_pos hin, List.takeWhile_append_of_pos hin]
  simp only [List.dropWhile_cons, List.takeWhile_cons, hend, Bool.false_eq_true, if_false,
    List.append_nil]

theorem of_block? {cs a s : Text} (h : block? cs = some (a, s)) :
    cs = a ++ .char ')' :: s ∧ ∀ c ∈ a, endsBlock c = false := by
  unfold block? at h
  split at h
  · next hrest =>
    cases h
    refine ⟨?_, ?_⟩
    · rw [← hrest]
      exact List.takeWhile_append_dropWhile.symm
    · intro c hc
      have hall := List.all_eq_true.mp List.all_takeWhile c hc
      simpa using hall
  · cases h

variable {p : Nat} {c : CodePoint} {s : Text}

theorem scanFrom_nil : scanFrom p [] = .ok [⟨.stop, p⟩] := by
  rw [scanFrom]

theorem scanFrom_blank (hc : Text.isBlank c = true) :
    scanFrom p (c :: s) = scanFrom (p + 1) s := by
  rw [scanFrom, if_pos hc]

theorem scanFrom_pipe :
    scanFrom p (.char '|' :: s) = (scanFrom (p + 1) s).map (⟨.pipe, p⟩ :: ·) := by
  rw [scanFrom, pipe_not_blank, if_neg Bool.false_ne_true, if_pos rfl]

theorem scanFrom_block {a : Text} (ha : ∀ c ∈ a, endsBlock c = false) :
    scanFrom p (.char '(' :: (a ++ .char ')' :: s)) =
      (scanFrom (p + a.length + 2) s).map (⟨.args a, p⟩ :: ·) := by
  have hpipe : (.char '(' : CodePoint) ≠ .char '|' := by decide
  rw [scanFrom, open_not_blank, if_neg Bool.false_ne_true, if_neg hpipe, if_pos rfl]
  split
  · next hblock =>
    rw [block?_append ha] at hblock
    cases hblock
    rfl
  · next hblock =>
    rw [block?_append ha] at hblock
    cases hblock

theorem takeWhile_dropWhile_of_head {q : CodePoint → Bool} (h : ∀ c ∈ s.head?, q c = false) :
    s.takeWhile q = [] ∧ s.dropWhile q = s := by
  cases s with
  | nil => exact ⟨rfl, rfl⟩
  | cons c s =>
    have hc : q c = false := h c rfl
    exact ⟨List.takeWhile_cons_of_neg (by simp [hc]), List.dropWhile_cons_of_neg (by simp [hc])⟩

theorem scanFrom_name {n : Text} (hne : n ≠ []) (hn : ∀ c ∈ n, Text.isWord c = true)
    (hend : ∀ c ∈ s.head?, Text.isWord c = false) :
    scanFrom p (n ++ s) = (scanFrom (p + n.length) s).map (⟨.name n, p⟩ :: ·) := by
  obtain ⟨c, m, rfl⟩ := List.exists_cons_of_ne_nil hne
  have hc := hn c List.mem_cons_self
  have hm : ∀ d ∈ m, Text.isWord d = true := fun d hd => hn d (List.mem_cons_of_mem c hd)
  have hpipe : c ≠ .char '|' := by
    intro h
    rw [h, pipe_not_word] at hc
    cases hc
  have hopen : c ≠ .char '(' := by
    intro h
    rw [h, open_not_word] at hc
    cases hc
  obtain ⟨htake, hdrop⟩ := takeWhile_dropWhile_of_head hend
  rw [List.cons_append, scanFrom, Text.not_isBlank_of_isWord hc, if_neg Bool.false_ne_true,
    if_neg hpipe, if_neg hopen, if_pos hc, List.takeWhile_append_of_pos hm,
    List.dropWhile_append_of_pos hm, htake, hdrop, List.append_nil, List.length_cons]
  rfl

/-- Only a character that starts no token is in the way of scanning. -/
theorem isLexical_of_scanFrom {e : SpecError} (h : scanFrom p s = .error e) :
    e.isLexical = true := by
  fun_induction scanFrom p s with
  | case1 => cases h
  | case2 p c s hc ih => exact ih h
  | case3 p s hc ih => exact ih (error_of_map h)
  | case4 p s a after hblock hc hpipe ih => exact ih (error_of_map h)
  | case6 p c s hblank hpipe hopen hword more ih => exact ih (error_of_map h)
  | case5 | case7 =>
    cases h
    rfl

end Token

namespace Scanned

open Token

variable {s : Text} {ls : List Lexeme}

theorem stop_not_mem (h : Scanned s ls) : Lexeme.stop ∉ ls := by
  induction h with
  | nil => exact List.not_mem_nil
  | blank _ _ ih => exact ih
  | pipe _ ih | args _ _ ih | name _ _ _ _ ih =>
    intro hmem
    rcases List.mem_cons.mp hmem with heq | hmem
    · cases heq
    · exact ih hmem

theorem scanFrom (h : Scanned s ls) (p : Nat) :
    ∃ ts, Token.scanFrom p s = .ok ts ∧ ts.map (·.lexeme) = ls ++ [.stop] := by
  induction h generalizing p with
  | nil => exact ⟨_, scanFrom_nil, rfl⟩
  | blank hc _ ih =>
    rw [scanFrom_blank hc]
    exact ih (p + 1)
  | pipe _ ih =>
    obtain ⟨ts, hts, hlexemes⟩ := ih (p + 1)
    refine ⟨_, by rw [scanFrom_pipe, hts]; rfl, ?_⟩
    rw [List.map_cons, hlexemes, List.cons_append]
  | @args a s ls ha _ ih =>
    obtain ⟨ts, hts, hlexemes⟩ := ih (p + a.length + 2)
    refine ⟨_, by rw [scanFrom_block ha, hts]; rfl, ?_⟩
    rw [List.map_cons, hlexemes, List.cons_append]
  | @name n s ls hne hn hend _ ih =>
    obtain ⟨ts, hts, hlexemes⟩ := ih (p + n.length)
    refine ⟨_, by rw [scanFrom_name hne hn hend, hts]; rfl, ?_⟩
    rw [List.map_cons, hlexemes, List.cons_append]

theorem of_scanFrom {p : Nat} {ts : List Token} (h : Token.scanFrom p s = .ok ts) :
    ∃ ls, Scanned s ls ∧ ts.map (·.lexeme) = ls ++ [.stop] := by
  fun_induction Token.scanFrom p s generalizing ts with
  | case1 p =>
    cases h
    exact ⟨[], .nil, rfl⟩
  | case2 p c s hc ih =>
    obtain ⟨ls, hs, hts⟩ := ih h
    exact ⟨ls, .blank hc hs, hts⟩
  | case3 p s hc ih =>
    obtain ⟨ts, hok, rfl⟩ := ok_of_map h
    obtain ⟨ls, hs, hts⟩ := ih hok
    exact ⟨_, .pipe hs, by rw [List.map_cons, hts, List.cons_append]⟩
  | case4 p s a after hblock hc hpipe ih =>
    obtain ⟨ts, hok, rfl⟩ := ok_of_map h
    obtain ⟨ls, hs, hts⟩ := ih hok
    obtain ⟨rfl, ha⟩ := of_block? hblock
    exact ⟨_, .args ha hs, by rw [List.map_cons, hts, List.cons_append]⟩
  | case6 p c s hblank hpipe hopen hword more =>
    rename_i ih
    obtain ⟨ts, hok, rfl⟩ := ok_of_map h
    obtain ⟨ls, hs, hts⟩ := ih hok
    have hn : ∀ d ∈ c :: more, Text.isWord d = true := by
      intro d hd
      rcases List.mem_cons.mp hd with rfl | hd
      · exact hword
      · exact List.all_eq_true.mp List.all_takeWhile d hd
    have hend : ∀ d ∈ (s.dropWhile Text.isWord).head?, Text.isWord d = false := by
      intro d hd
      have hhead := List.head?_dropWhile_not Text.isWord s
      rw [Option.mem_def.mp hd] at hhead
      exact hhead
    have hscanned := Scanned.name (List.cons_ne_nil c more) hn hend hs
    rw [List.cons_append, List.takeWhile_append_dropWhile] at hscanned
    exact ⟨_, hscanned, by rw [List.map_cons, hts, List.cons_append]⟩
  | case5 | case7 => cases h

end Scanned

end TreeSpec
