import TreeSpec.Pattern.Regex

/-!
# Matches of a regular expression

`Matches r c d` says that the text from cursor `c` to cursor `d` is a match of `r`, whichever way
the choices in `r` go. Running an expression on a set of places gives exactly the ends of the
matches from there, and a text is found to hold a match just if one starts at some place in it.
-/

namespace TreeSpec

set_option autoImplicit false

/-- A number of steps of a relation, one after the other. -/
inductive Turns {α : Type} (R : α → α → Prop) : Nat → α → α → Prop where
  | done (a : α) : Turns R 0 a a
  | again {n : Nat} {a b c : α} (turn : R a b) (more : Turns R n b c) : Turns R (n + 1) a c

namespace Turns

variable {α : Type} {R : α → α → Prop} {a b c : α} {m n : Nat}

theorem zero_iff : Turns R 0 a b ↔ b = a :=
  ⟨fun h => by cases h; rfl, fun h => by cases h; exact .done a⟩

theorem succ_iff : Turns R (n + 1) a c ↔ ∃ b, R a b ∧ Turns R n b c :=
  ⟨fun h => by cases h with | again turn more => exact ⟨_, turn, more⟩,
    fun ⟨_, turn, more⟩ => .again turn more⟩

theorem trans (h : Turns R m a b) (h' : Turns R n b c) : Turns R (m + n) a c := by
  induction h with
  | done => simpa using h'
  | again turn _ ih => rw [Nat.succ_add_eq_add_succ]; exact .again turn (ih h')

theorem add_iff : Turns R (m + n) a c ↔ ∃ b, Turns R m a b ∧ Turns R n b c := by
  constructor
  · intro h
    induction m generalizing a with
    | zero => exact ⟨a, .done a, by simpa using h⟩
    | succ m ih =>
      rw [Nat.succ_add_eq_add_succ] at h
      obtain ⟨x, hx, hrest⟩ := succ_iff.mp h
      obtain ⟨b, hb, hbc⟩ := ih hrest
      exact ⟨b, .again hx hb, hbc⟩
  · rintro ⟨b, h, h'⟩
    exact h.trans h'

theorem preserve {P : α → Prop} (hR : ∀ {x y}, R x y → P x → P y) (h : Turns R n a b) :
    P a → P b := by
  induction h with
  | done => exact id
  | again turn _ ih => exact fun ha => ih (hR turn ha)

end Turns

namespace Regex

/-- The text between two places is a match of the expression. -/
def Matches : Regex → Cursor → Cursor → Prop
  | empty, c, d => d = c
  | set s, c, d => ∃ ch, c.next? = some (ch, d) ∧ s.contains ch = true
  | anchor a, c, d => d = c ∧ a.holds c = true
  | seq first second, c, e => ∃ d, first.Matches c d ∧ second.Matches d e
  | alt first second, c, d => first.Matches c d ∨ second.Matches c d
  | times body low more, c, d =>
    ∃ n, (∀ k ∈ more, n ≤ k) ∧ Turns body.Matches (low + n) c d

theorem Matches.eq_or_left_lt {r : Regex} {c d : Cursor} (h : r.Matches c d) :
    d = c ∨ d.left < c.left := by
  induction r generalizing c d with
  | empty => exact .inl h
  | set s =>
    obtain ⟨ch, hn, -⟩ := h
    exact .inr (Cursor.left_lt_of_next? hn)
  | anchor a => exact .inl h.1
  | seq r s ihr ihs =>
    obtain ⟨e, h₁, h₂⟩ := h
    rcases ihr h₁ with rfl | h₁
    · exact ihs h₂
    · rcases ihs h₂ with rfl | h₂
      · exact .inr h₁
      · exact .inr (Nat.lt_trans h₂ h₁)
  | alt r s ihr ihs => exact h.elim ihr ihs
  | times r low more ih =>
    obtain ⟨n, -, h⟩ := h
    generalize low + n = k at h
    induction h with
    | done => exact .inl rfl
    | again turn _ ihn =>
      rcases ih turn with rfl | h₁
      · exact ihn
      · rcases ihn with rfl | h₂
        · exact .inr h₁
        · exact .inr (Nat.lt_trans h₂ h₁)

theorem Matches.isIn {text : Text} {r : Regex} {c d : Cursor} (h : r.Matches c d)
    (hc : c.IsIn text) : d.IsIn text := by
  induction r generalizing c d with
  | empty => exact h ▸ hc
  | set s =>
    obtain ⟨ch, hn, -⟩ := h
    exact hc.next? hn
  | anchor a => exact h.1 ▸ hc
  | seq r s ihr ihs =>
    obtain ⟨e, h₁, h₂⟩ := h
    exact ihs h₂ (ihr h₁ hc)
  | alt r s ihr ihs => exact h.elim (ihr · hc) (ihs · hc)
  | times r low more ih =>
    obtain ⟨n, -, h⟩ := h
    exact h.preserve (fun turn => ih turn) hc

/-- Turns that stay in place can be left out, so no more of them are needed than there is text. -/
theorem turns_short {R : Cursor → Cursor → Prop}
    (hR : ∀ {x y}, R x y → y = x ∨ y.left < x.left) {n : Nat} {c d : Cursor}
    (h : Turns R n c d) : ∃ m, m ≤ n ∧ m ≤ c.left ∧ Turns R m c d := by
  induction h with
  | done c => exact ⟨0, Nat.le_refl _, Nat.zero_le _, .done c⟩
  | @again n c x d turn _ ih =>
    obtain ⟨m, hm, hl, ht⟩ := ih
    rcases hR turn with rfl | hlt
    · exact ⟨m, by omega, hl, ht⟩
    · exact ⟨m + 1, by omega, by omega, .again turn ht⟩

section Closure

variable {text : Text} {step : Places → Places} {R : Cursor → Cursor → Prop}

/-- A step on sets of places of the text leads where the relation leads from their members. -/
def Follows (text : Text) (step : Places → Places) (R : Cursor → Cursor → Prop) : Prop :=
  ∀ cs, Places.Within text cs → ∀ d, d ∈ step cs ↔ ∃ c ∈ cs, R c d

theorem Follows.within (h : Follows text step R) (hR : ∀ {x y}, R x y → x.IsIn text → y.IsIn text)
    {cs : Places} (hcs : Places.Within text cs) : Places.Within text (step cs) := by
  intro d hd
  obtain ⟨c, hc, hcd⟩ := (h cs hcs d).mp hd
  exact hR hcd (hcs c hc)

theorem mem_turns (h : Follows text step R) (hR : ∀ {x y}, R x y → x.IsIn text → y.IsIn text)
    (n : Nat) {cs : Places} (hcs : Places.Within text cs) (d : Cursor) :
    d ∈ turns step n cs ↔ ∃ c ∈ cs, Turns R n c d := by
  induction n generalizing cs with
  | zero => simp [turns, Turns.zero_iff]
  | succ n ih =>
    have hnext : (∃ c ∈ cs, Turns R (n + 1) c d) ↔ ∃ c ∈ step cs, Turns R n c d := by
      simp only [Turns.succ_iff, h cs hcs]
      grind
    simp only [turns]
    split
    · next heq =>
      have he := Places.eq_of_beq (h.within hR hcs) hcs heq
      rw [hnext, he]
      clear hnext ih
      induction n with
      | zero => simp [Turns.zero_iff]
      | succ n ih =>
        refine Iff.trans ih ?_
        have hstep := h cs hcs
        rw [he] at hstep
        simp only [Turns.succ_iff]
        grind
    · rw [hnext]
      exact ih (h.within hR hcs)

theorem mem_spread (h : Follows text step R) (hR : ∀ {x y}, R x y → x.IsIn text → y.IsIn text)
    (n : Nat) {frontier seen : Places} (hf : Places.Within text frontier)
    (hs : Places.Within text seen) (hsub : ∀ c ∈ frontier, c ∈ seen)
    (hclosed : ∀ c ∈ seen, c ∈ frontier ∨ ∀ x, R c x → x ∈ seen) (d : Cursor) :
    d ∈ spread step n frontier seen ↔ ∃ c ∈ seen, ∃ k, k ≤ n ∧ Turns R k c d := by
  induction n generalizing frontier seen with
  | zero => simp [spread, Turns.zero_iff]
  | succ n ih =>
    have hw := h.within hR hf
    have hstep : ∀ c ∈ seen, ∀ x, R c x → x ∈ (step frontier).fresh seen ∨ x ∈ seen := by
      intro c hc x hx
      rcases hclosed c hc with hcf | hcs
      · exact Places.mem_fresh_or hw hs ((h frontier hf x).mpr ⟨c, hcf, hx⟩)
      · exact .inr (hcs x hx)
    simp only [spread]
    split
    · next hempty =>
      have hnil : (step frontier).fresh seen = [] := List.isEmpty_iff.mp hempty
      constructor
      · exact fun hd => ⟨d, hd, 0, Nat.zero_le _, .done d⟩
      · rintro ⟨c, hc, k, -, hk⟩
        refine hk.preserve (P := (· ∈ seen)) (fun {x y} hxy hx => ?_) hc
        simpa [hnil] using hstep x hx y hxy
    · have hfresh : ∀ x ∈ (step frontier).fresh seen, x ∈ step frontier :=
        fun x hx => Places.mem_of_mem_fresh hw hs hx
      have hwf : Places.Within text ((step frontier).fresh seen) := fun x hx => hw x (hfresh x hx)
      have hmem : ∀ x, x ∈ ((step frontier).fresh seen).union seen ↔
          x ∈ (step frontier).fresh seen ∨ x ∈ seen := fun x => Places.mem_union hwf hs
      rw [ih hwf (fun x hx => ((hmem x).mp hx).elim (hwf x) (hs x))
        (fun x hx => (hmem x).mpr (.inl hx))]
      · constructor
        · rintro ⟨c, hc, k, hk, ht⟩
          rcases (hmem c).mp hc with hcf | hcs
          · obtain ⟨b, hb, hbc⟩ := (h frontier hf c).mp (hfresh c hcf)
            exact ⟨b, hsub b hb, k + 1, by omega, .again hbc ht⟩
          · exact ⟨c, hcs, k, by omega, ht⟩
        · rintro ⟨c, hc, k, hk, ht⟩
          cases ht with
          | done => exact ⟨d, (hmem d).mpr (.inr hc), 0, Nat.zero_le _, .done d⟩
          | again turn more =>
            exact ⟨_, (hmem _).mpr (hstep c hc _ turn), _, by omega, more⟩
      · intro c hc
        rcases (hmem c).mp hc with hcf | hcs
        · exact .inl hcf
        · exact .inr fun x hx => (hmem x).mpr (hstep c hcs x hx)

end Closure

theorem le_mostLeft {cs : Places} {c : Cursor} (h : c ∈ cs) : c.left ≤ mostLeft cs := by
  suffices ∀ n, n ≤ cs.foldl (fun n c => max n c.left) n ∧
      ∀ c ∈ cs, c.left ≤ cs.foldl (fun n c => max n c.left) n from (this 0).2 c h
  clear h c
  induction cs with
  | nil => simp
  | cons d ds ih =>
    intro n
    obtain ⟨h₁, h₂⟩ := ih (max n d.left)
    simp only [List.foldl_cons, List.mem_cons]
    refine ⟨by omega, ?_⟩
    rintro c (rfl | hc)
    · omega
    · exact h₂ c hc

/-- The ends of an expression are the ends of its matches. -/
theorem mem_ends {text : Text} (r : Regex) : Follows text r.ends r.Matches := by
  induction r with
  | empty => simp [Follows, ends, Matches]
  | set s =>
    intro cs _ d
    simp only [ends, List.mem_filterMap, Matches]
    refine exists_congr fun c => and_congr_right fun _ => ?_
    unfold pass?
    split
    · next ch e he => simp [he]; grind
    · next he => simp [he]
  | anchor a =>
    intro cs _ d
    simp only [ends, List.mem_filter, Matches]
    grind
  | seq r s ihr ihs =>
    intro cs hcs d
    simp only [ends, Matches]
    rw [ihs _ (ihr.within Matches.isIn hcs)]
    simp only [ihr cs hcs]
    grind
  | alt r s ihr ihs =>
    intro cs hcs d
    simp only [ends, Matches]
    rw [Places.mem_union (ihr.within Matches.isIn hcs) (ihs.within Matches.isIn hcs), ihr cs hcs,
      ihs cs hcs]
    grind
  | times r low more ih =>
    intro cs hcs d
    have hreach := mem_turns ih Matches.isIn low hcs
    have hw : Places.Within text (turns r.ends low cs) := by
      intro x hx
      obtain ⟨c, hc, ht⟩ := (hreach x).mp hx
      exact ht.preserve Matches.isIn (hcs c hc)
    simp only [ends, Matches]
    rw [mem_spread ih Matches.isIn _ hw hw (fun _ h => h) (fun _ h => .inl h)]
    simp only [hreach, Turns.add_iff]
    cases more with
    | some k =>
      simp only [Option.getD_some, Option.mem_some, forall_eq']
      grind
    | none =>
      simp only [Option.getD_none, Option.mem_def, reduceCtorEq, false_implies, implies_true,
        true_and]
      constructor
      · rintro ⟨c, ⟨b, hb, hbc⟩, k, -, hk⟩
        exact ⟨b, hb, k, c, hbc, hk⟩
      · rintro ⟨b, hb, k, c, hbc, hk⟩
        obtain ⟨m, -, hm, ht⟩ := turns_short Matches.eq_or_left_lt hk
        exact ⟨c, ⟨b, hb, hbc⟩, m, Nat.le_trans hm (le_mostLeft ((hreach c).mpr ⟨b, hb, hbc⟩)), ht⟩

/-- A text holds a match just if a match starts at some place in it. -/
theorem foundIn_iff (r : Regex) (text : Text) :
    r.foundIn text = true ↔
      ∃ skipped rest, text = skipped ++ rest ∧
        ∃ d, r.Matches (Cursor.between skipped rest) d := by
  have hall : Places.Within text (.all text) := fun _ h => Places.mem_all.mp h
  have hmem : r.foundIn text = true ↔ ∃ d, d ∈ r.ends (.all text) := by
    cases h : r.ends (.all text) <;> simp [foundIn, h]
  simp only [hmem, mem_ends r _ hall, Places.mem_all, Cursor.IsIn]
  grind

end Regex

end TreeSpec
