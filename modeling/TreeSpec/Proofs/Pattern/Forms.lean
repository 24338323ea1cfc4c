import TreeSpec.Proofs.Pattern.Texts

/-!
# Sets and forms of a regular expression

Every character of a text comes from one of the sets that the expression names, and any other
character of that set may stand in its place. An expression that repeats nothing without end has
finitely many forms: lists of sets, one for each place. Its texts are those that have at each place
of some form a character of the set for that place.
-/

namespace TreeSpec

set_option autoImplicit false

namespace Regex

/-! ## Sets -/

/-- The sets of characters that an expression names. -/
def sets : Regex → List CharSet
  | empty | anchor _ => []
  | set s => [s]
  | seq first second | alt first second => first.sets ++ second.sets
  | times body _ _ => body.sets

section Sets

/-- Every character of a text belongs to one of the sets, and any other of that set may stand in its
place. -/
def Exchangeable (ss : List CharSet) (l : Language CodePoint) : Prop :=
  ∀ u v c, u ++ c :: v ∈ l → ∃ s ∈ ss, s.contains c = true ∧ ∀ d, s.contains d = true →
    u ++ d :: v ∈ l

variable {ss ss' : List CharSet} {l l' : Language CodePoint}

theorem Exchangeable.mono (h : Exchangeable ss l) (hss : ∀ s ∈ ss, s ∈ ss') :
    Exchangeable ss' l := by
  intro u v c hmem
  obtain ⟨s, hs, hexchange⟩ := h u v c hmem
  exact ⟨s, hss s hs, hexchange⟩

theorem Exchangeable.mul (h : Exchangeable ss l) (h' : Exchangeable ss l') :
    Exchangeable ss (l * l') := by
  intro u v c hmem
  obtain ⟨x, hx, y, hy, heq⟩ := hmem
  -- The character lies in one of the two parts.
  rcases List.append_eq_append_iff.mp heq with ⟨z, hux, rfl⟩ | ⟨z, rfl, hyz⟩
  · subst hux
    obtain ⟨s, hs, hc, hexchange⟩ := h' z v c hy
    refine ⟨s, hs, hc, fun d hd => ?_⟩
    rw [List.append_assoc]
    exact Language.append_mem_mul hx (hexchange d hd)
  · cases z with
    | nil =>
      rw [List.append_nil] at hx
      obtain ⟨s, hs, hc, hexchange⟩ := h' [] v c (by rw [List.nil_append, hyz]; exact hy)
      exact ⟨s, hs, hc, fun d hd => Language.append_mem_mul hx (hexchange d hd)⟩
    | cons e z =>
      obtain ⟨rfl, rfl⟩ := List.cons.inj hyz
      obtain ⟨s, hs, hc, hexchange⟩ := h u z c hx
      refine ⟨s, hs, hc, fun d hd => ?_⟩
      have hmul := Language.append_mem_mul (hexchange d hd) hy
      rwa [List.append_assoc] at hmul

theorem Exchangeable.pow (h : Exchangeable ss l) (n : Nat) : Exchangeable ss (l ^ n) := by
  induction n with
  | zero =>
    intro u v c hmem
    cases List.append_ne_nil_of_right_ne_nil u (List.cons_ne_nil c v) hmem
  | succ n ih =>
    rw [pow_succ']
    exact h.mul ih

theorem exchangeable_texts (r : Regex) : Exchangeable r.sets r.texts := by
  induction r with
  | empty =>
    intro u v c hmem
    cases List.append_ne_nil_of_right_ne_nil u (List.cons_ne_nil c v) hmem
  | set s =>
    intro u v c hmem
    obtain ⟨d, hd, heq⟩ := hmem
    obtain ⟨rfl, heq⟩ : u = [] ∧ c :: v = [d] := by
      cases u with
      | nil => exact ⟨rfl, heq⟩
      | cons _ u => simp at heq
    cases heq
    exact ⟨s, List.mem_cons_self, hd, fun e he => ⟨e, he, rfl⟩⟩
  | anchor a =>
    intro u v c hmem
    cases hmem
  | seq r s ihr ihs =>
    exact (ihr.mono fun _ => List.mem_append_left _).mul (ihs.mono fun _ => List.mem_append_right _)
  | alt r s ihr ihs =>
    intro u v c hmem
    rcases hmem with hmem | hmem
    · obtain ⟨s, hs, hc, hexchange⟩ := ihr u v c hmem
      exact ⟨s, List.mem_append_left _ hs, hc, fun d hd => .inl (hexchange d hd)⟩
    · obtain ⟨s, hs, hc, hexchange⟩ := ihs u v c hmem
      exact ⟨s, List.mem_append_right _ hs, hc, fun d hd => .inr (hexchange d hd)⟩
  | times r low more ih =>
    intro u v c hmem
    obtain ⟨n, hn, hmem⟩ := hmem
    obtain ⟨s, hs, hc, hexchange⟩ := ih.pow (low + n) u v c hmem
    exact ⟨s, hs, hc, fun d hd => ⟨n, hn, hexchange d hd⟩⟩

end Sets

/-! ## Forms -/

/-- At each place of the text is a character of the set for that place. -/
def HasForm (t : Text) (f : List CharSet) : Prop :=
  List.Forall₂ (fun c s => s.contains c = true) t f

instance (t : Text) : DecidablePred (HasForm t) := fun f =>
  inferInstanceAs (Decidable (List.Forall₂ (fun c s => s.contains c = true) t f))

/-- Each of the first forms followed by each of the second ones. -/
def pairings (fs gs : List (List CharSet)) : List (List CharSet) :=
  fs.flatMap fun f => gs.map (f ++ ·)

/-- So many of the forms, one after the other. -/
def rows (fs : List (List CharSet)) : Nat → List (List CharSet)
  | 0 => [[]]
  | n + 1 => pairings fs (rows fs n)

/-- The forms of an expression that repeats nothing without end and sets no condition on places. -/
def forms? : Regex → Option (List (List CharSet))
  | empty => some [[]]
  | set s => some [[s]]
  | seq first second => do return pairings (← first.forms?) (← second.forms?)
  | alt first second => do return (← first.forms?) ++ (← second.forms?)
  | times body low (some more) => do
    let fs ← body.forms?
    return (List.range (more + 1)).flatMap fun n => rows fs (low + n)
  | anchor _ | times _ _ none => none

section Forms

variable {r : Regex} {t : Text} {fs gs : List (List CharSet)} {l l' : Language CodePoint}

theorem hasForm_append {f g : List CharSet} :
    HasForm t (f ++ g) ↔ ∃ u v, HasForm u f ∧ HasForm v g ∧ t = u ++ v := by
  constructor
  · intro h
    exact ⟨_, _, List.forall₂_take_append t f g h, List.forall₂_drop_append t f g h,
      (List.take_append_drop f.length t).symm⟩
  · intro h
    obtain ⟨u, v, hu, hv, rfl⟩ := h
    exact List.rel_append hu hv

theorem mem_mul_iff_hasForm (h : ∀ t, t ∈ l ↔ ∃ f ∈ fs, HasForm t f)
    (h' : ∀ t, t ∈ l' ↔ ∃ g ∈ gs, HasForm t g) :
    t ∈ l * l' ↔ ∃ f ∈ pairings fs gs, HasForm t f := by
  constructor
  · intro ht
    obtain ⟨u, hu, v, hv, rfl⟩ := ht
    obtain ⟨f, hf, huf⟩ := (h u).mp hu
    obtain ⟨g, hg, hvg⟩ := (h' v).mp hv
    refine ⟨f ++ g, ?_, hasForm_append.mpr ⟨u, v, huf, hvg, rfl⟩⟩
    exact List.mem_flatMap.mpr ⟨f, hf, List.mem_map.mpr ⟨g, hg, rfl⟩⟩
  · intro ht
    obtain ⟨_, hfg, ht⟩ := ht
    obtain ⟨f, hf, hfg⟩ := List.mem_flatMap.mp hfg
    obtain ⟨g, hg, rfl⟩ := List.mem_map.mp hfg
    obtain ⟨u, v, huf, hvg, rfl⟩ := hasForm_append.mp ht
    exact Language.append_mem_mul ((h u).mpr ⟨f, hf, huf⟩) ((h' v).mpr ⟨g, hg, hvg⟩)

theorem hasForm_nil : HasForm t [] ↔ t = [] := List.forall₂_nil_right_iff

theorem mem_pow_iff_hasForm (h : ∀ t, t ∈ l ↔ ∃ f ∈ fs, HasForm t f) (n : Nat) :
    t ∈ l ^ n ↔ ∃ f ∈ rows fs n, HasForm t f := by
  induction n generalizing t with
  | zero =>
    simp only [pow_zero, Language.mem_one, rows, List.mem_singleton, exists_eq_left, hasForm_nil]
  | succ n ih =>
    rw [pow_succ']
    exact mem_mul_iff_hasForm h (fun _ => ih)

/-- The texts of an expression are the texts of its forms. -/
theorem mem_texts_of_forms? (h : r.forms? = some fs) : t ∈ r.texts ↔ ∃ f ∈ fs, HasForm t f := by
  induction r generalizing fs t with
  | empty =>
    cases h
    simp only [List.mem_singleton, exists_eq_left, hasForm_nil]
    rfl
  | set s =>
    cases h
    simp only [List.mem_singleton, exists_eq_left, HasForm, List.forall₂_cons_right_iff,
      List.forall₂_nil_right_iff]
    constructor
    · intro h
      obtain ⟨c, hc, rfl⟩ := h
      exact ⟨c, [], hc, rfl, rfl⟩
    · intro h
      obtain ⟨c, _, hc, rfl, rfl⟩ := h
      exact ⟨c, hc, rfl⟩
  | anchor => cases h
  | seq first second ihf ihs =>
    obtain ⟨fs, hf, h⟩ := Option.bind_eq_some_iff.mp h
    obtain ⟨gs, hs, h⟩ := Option.bind_eq_some_iff.mp h
    cases h
    exact mem_mul_iff_hasForm (fun _ => ihf hf) (fun _ => ihs hs)
  | alt first second ihf ihs =>
    obtain ⟨fs, hf, h⟩ := Option.bind_eq_some_iff.mp h
    obtain ⟨gs, hs, h⟩ := Option.bind_eq_some_iff.mp h
    cases h
    have halt : t ∈ (alt first second).texts ↔ t ∈ first.texts ∨ t ∈ second.texts := Iff.rfl
    rw [halt, ihf hf, ihs hs]
    simp only [List.mem_append, or_and_right, exists_or]
  | times body low more ih =>
    cases more with
    | none => cases h
    | some more =>
      obtain ⟨fs, hf, h⟩ := Option.bind_eq_some_iff.mp h
      cases h
      have hpow (n : Nat) : t ∈ body.texts ^ n ↔ ∃ f ∈ rows fs n, HasForm t f :=
        mem_pow_iff_hasForm (fun _ => ih hf) n
      constructor
      · intro ht
        obtain ⟨n, hn, ht⟩ := ht
        obtain ⟨f, hf, ht⟩ := (hpow _).mp ht
        refine ⟨f, List.mem_flatMap.mpr ⟨n, List.mem_range.mpr ?_, hf⟩, ht⟩
        exact Nat.lt_succ_of_le (hn more rfl)
      · intro ht
        obtain ⟨f, hf, ht⟩ := ht
        obtain ⟨n, hn, hf⟩ := List.mem_flatMap.mp hf
        refine ⟨n, ?_, (hpow _).mpr ⟨f, hf, ht⟩⟩
        intro k hk
        cases hk
        exact Nat.le_of_lt_succ (List.mem_range.mp hn)

end Forms

end Regex

end TreeSpec
