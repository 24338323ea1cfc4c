import TreeSpec.Text.Basic

/-!
# Cursors and sets of places

A cursor is a place between two characters of a text. A set of places of one text is a list of
cursors in which a place further on comes first, so that a set grows at its front when a search
moves on. Two places of one text are told apart by how much of the text is left.
-/

namespace TreeSpec

set_option autoImplicit false

/-- A place in a text: the character before it, what follows, and how much that is. -/
structure Cursor where
  before : Option CodePoint
  rest : Text
  left : Nat
  left_eq : left = rest.length := by rfl

namespace Cursor

@[ext] theorem ext_rest {c d : Cursor} (hb : c.before = d.before) (hr : c.rest = d.rest) :
    c = d := by
  obtain ⟨b, r, n, hn⟩ := c
  obtain ⟨b', r', n', hn'⟩ := d
  simp only at hb hr
  subst hb hr hn hn'
  rfl

/-- Places of one text are the same if as much is left behind them. -/
instance : BEq Cursor := ⟨fun c d => c.left == d.left⟩

def between (left right : Text) : Cursor := ⟨left.getLast?, right, right.length, rfl⟩

def start (text : Text) : Cursor := between [] text

def next? (c : Cursor) : Option (CodePoint × Cursor) :=
  match h : c.rest with
  | [] => none
  | ch :: cs => some (ch, ⟨some ch, cs, c.left - 1, by simp [c.left_eq, h]⟩)

theorem next?_of_nil {c : Cursor} (h : c.rest = []) : c.next? = none := by
  unfold next?
  split
  · rfl
  · simp_all

theorem next?_of_cons {c : Cursor} {ch : CodePoint} {cs : Text} (h : c.rest = ch :: cs) :
    ∃ d : Cursor, c.next? = some (ch, d) ∧ d.before = some ch ∧ d.rest = cs := by
  unfold next?
  split
  · simp_all
  · next ch' cs' h' =>
    rw [h] at h'
    cases h'
    exact ⟨_, rfl, rfl, rfl⟩

theorem next?_between_nil (left : Text) : (between left []).next? = none := rfl

theorem next?_between_cons (left : Text) (ch : CodePoint) (right : Text) :
    (between left (ch :: right)).next? = some (ch, between (left ++ [ch]) right) := by
  obtain ⟨d, hd, hb, hr⟩ := next?_of_cons (c := between left (ch :: right)) rfl
  rw [hd]
  congr 2
  exact ext_rest (by simp [hb, between]) hr

theorem left_lt_of_next? {c d : Cursor} {ch : CodePoint} (h : c.next? = some (ch, d)) :
    d.left < c.left := by
  cases hr : c.rest with
  | nil => simp [next?_of_nil hr] at h
  | cons ch' cs =>
    obtain ⟨d', hd, -, hdr⟩ := next?_of_cons hr
    rw [hd] at h
    cases h
    rw [d.left_eq, c.left_eq, hr, hdr, List.length_cons]
    omega

def IsIn (text : Text) (c : Cursor) : Prop :=
  ∃ skipped rest, text = skipped ++ rest ∧ c = between skipped rest

theorem isIn_start (text : Text) : (start text).IsIn text := ⟨[], text, rfl, rfl⟩

theorem IsIn.next? {text : Text} {c d : Cursor} {ch : CodePoint} (hc : c.IsIn text)
    (h : c.next? = some (ch, d)) : d.IsIn text := by
  obtain ⟨skipped, rest, rfl, rfl⟩ := hc
  cases rest with
  | nil => simp [next?_between_nil] at h
  | cons ch' rest =>
    rw [next?_between_cons] at h
    cases h
    exact ⟨skipped ++ [ch], rest, by simp, rfl⟩

/-- Places of one text are told apart by what is left. -/
theorem IsIn.eq_of_left {text : Text} {c d : Cursor} (hc : c.IsIn text) (hd : d.IsIn text)
    (h : c.left = d.left) : c = d := by
  obtain ⟨s, r, rfl, rfl⟩ := hc
  obtain ⟨s', r', he, rfl⟩ := hd
  obtain ⟨rfl, rfl⟩ := List.append_inj' he h
  rfl

end Cursor

/-- Places of one text, those further on first. -/
abbrev Places := List Cursor

namespace Places

/-- The place and the next `n` places, in front of those in `passed`. -/
def onward (passed : Places) (c : Cursor) : Nat → Places
  | 0 => c :: passed
  | n + 1 =>
    match c.next? with
    | some (_, d) => onward (c :: passed) d n
    | none => c :: passed

def all (text : Text) : Places := onward [] (.start text) text.length

def dropSame (c : Cursor) : Places → Places
  | d :: ds => if d == c then ds else d :: ds
  | [] => []

/-- The union of two sets, put in front of `read`, which has its furthest place last. -/
def unionOnto (read : Places) : Places → Places → Places
  | [], ds => read.reverseAux ds
  | c :: cs, ds =>
    let further := ds.takeWhile (·.left < c.left)
    let near := ds.dropWhile (·.left < c.left)
    unionOnto (c :: further.reverseAux read) cs (dropSame c near)

def union (cs ds : Places) : Places := unionOnto [] cs ds

/-- The places of a set that are not in `seen`, put in front of `read`, which has its furthest place
last. -/
def freshOnto (read : Places) : Places → Places → Places
  | [], _ => read.reverse
  | c :: cs, seen =>
    let near := seen.dropWhile (·.left < c.left)
    freshOnto (if near.head?.any (· == c) then read else c :: read) cs near

def fresh (cs seen : Places) : Places := freshOnto [] cs seen

def Within (text : Text) (cs : Places) : Prop := ∀ c ∈ cs, c.IsIn text

theorem mem_onward {text : Text} {c : Cursor} (hc : c.IsIn text) (n : Nat) (passed : Places)
    (hn : c.left ≤ n) (d : Cursor) :
    d ∈ onward passed c n ↔ d ∈ passed ∨ d.IsIn text ∧ d.left ≤ c.left := by
  induction n generalizing c passed with
  | zero =>
    simp only [onward, List.mem_cons]
    constructor
    · rintro (rfl | h)
      · exact .inr ⟨hc, Nat.le_refl _⟩
      · exact .inl h
    · rintro (h | ⟨hd, hle⟩)
      · exact .inr h
      · exact .inl (hd.eq_of_left hc (by omega))
  | succ n ih =>
    simp only [onward]
    cases hx : c.next? with
    | none =>
      have hr : c.left = 0 := by
        cases hrest : c.rest with
        | nil => rw [c.left_eq, hrest]; rfl
        | cons ch cs =>
          obtain ⟨d', hd', -⟩ := Cursor.next?_of_cons hrest
          rw [hd'] at hx
          cases hx
      simp only [List.mem_cons]
      constructor
      · rintro (rfl | h)
        · exact .inr ⟨hc, Nat.le_refl _⟩
        · exact .inl h
      · rintro (h | ⟨hd, hle⟩)
        · exact .inr h
        · exact .inl (hd.eq_of_left hc (by omega))
    | some p =>
      obtain ⟨ch, e⟩ := p
      have hlt := Cursor.left_lt_of_next? hx
      have hleft : c.left = e.left + 1 := by
        cases hrest : c.rest with
        | nil => rw [Cursor.next?_of_nil hrest] at hx; cases hx
        | cons ch' cs =>
          obtain ⟨e', he', -, her⟩ := Cursor.next?_of_cons hrest
          rw [he'] at hx
          cases hx
          rw [c.left_eq, e.left_eq, hrest, her, List.length_cons]
      simp only [ih (hc.next? hx) (c :: passed) (by omega), List.mem_cons]
      constructor
      · rintro ((rfl | h) | ⟨hd, hle⟩)
        · exact .inr ⟨hc, Nat.le_refl _⟩
        · exact .inl h
        · exact .inr ⟨hd, by omega⟩
      · rintro (h | ⟨hd, hle⟩)
        · exact .inl (.inr h)
        · rcases Nat.lt_or_ge e.left d.left with hlt' | hge
          · exact .inl (.inl (hd.eq_of_left hc (by omega)))
          · exact .inr ⟨hd, hge⟩

theorem mem_all {text : Text} {c : Cursor} : c ∈ all text ↔ c.IsIn text := by
  rw [all, mem_onward (Cursor.isIn_start text) text.length [] (Nat.le_refl _)]
  constructor
  · rintro (h | ⟨h, -⟩)
    · simp at h
    · exact h
  · intro h
    refine .inr ⟨h, ?_⟩
    obtain ⟨s, r, rfl, rfl⟩ := h
    simp [Cursor.start, Cursor.between]

theorem mem_dropSame {text : Text} {c d : Cursor} {ds : Places} (hc : c.IsIn text)
    (hds : Within text ds) : d = c ∨ d ∈ dropSame c ds ↔ d = c ∨ d ∈ ds := by
  cases ds with
  | nil => simp [dropSame]
  | cons e es =>
    simp only [dropSame]
    split
    · next h =>
      have he : e = c := (hds e (by simp)).eq_of_left hc (by simpa [BEq.beq] using h)
      simp [he]
    · rfl

theorem mem_unionOnto {text : Text} (d : Cursor) (cs : Places) :
    ∀ read ds : Places, Within text cs → Within text ds →
      (d ∈ unionOnto read cs ds ↔ d ∈ read ∨ d ∈ cs ∨ d ∈ ds) := by
  induction cs with
  | nil => simp [unionOnto, List.reverseAux_eq]
  | cons c cs ih =>
    intro read ds hcs hds
    have hnear : Within text (ds.dropWhile (·.left < c.left)) :=
      fun x hx => hds x (List.dropWhile_sublist _ |>.mem hx)
    have hsame : Within text (dropSame c (ds.dropWhile (·.left < c.left))) := by
      intro x hx
      rcases (mem_dropSame (hcs c (by simp)) hnear).mp (.inr hx) with rfl | h
      · exact hcs x (by simp)
      · exact hnear x h
    simp only [unionOnto]
    rw [ih _ _ (fun x hx => hcs x (by simp [hx])) hsame]
    have hd := mem_dropSame (d := d) (hcs c (by simp)) hnear
    have hsplit :
        d ∈ ds ↔ d ∈ ds.takeWhile (·.left < c.left) ∨ d ∈ ds.dropWhile (·.left < c.left) := by
      rw [← List.mem_append, List.takeWhile_append_dropWhile]
    rw [hsplit]
    simp only [List.reverseAux_eq, List.mem_cons, List.mem_append, List.mem_reverse]
    grind

theorem mem_union {text : Text} {d : Cursor} {cs ds : Places} (hcs : Within text cs)
    (hds : Within text ds) : d ∈ union cs ds ↔ d ∈ cs ∨ d ∈ ds := by
  simp [union, mem_unionOnto d cs [] ds hcs hds]

theorem mem_freshOnto {text : Text} (d : Cursor) (cs : Places) :
    ∀ read seen : Places, Within text cs → Within text seen →
      (d ∈ freshOnto read cs seen → d ∈ read ∨ d ∈ cs) ∧
        (d ∈ read ∨ d ∈ cs → d ∈ freshOnto read cs seen ∨ d ∈ seen) := by
  induction cs with
  | nil => simp +contextual [freshOnto]
  | cons c cs ih =>
    intro read seen hcs hseen
    have hnear : Within text (seen.dropWhile (·.left < c.left)) :=
      fun x hx => hseen x (List.dropWhile_sublist _ |>.mem hx)
    simp only [freshOnto]
    obtain ⟨hfrom, hto⟩ := ih (if (seen.dropWhile (·.left < c.left)).head?.any (· == c) then read
      else c :: read) _ (fun x hx => hcs x (by simp [hx])) hnear
    have hback : d ∈ seen.dropWhile (·.left < c.left) → d ∈ seen :=
      fun h => List.dropWhile_sublist _ |>.mem h
    split at hfrom
    · next h =>
      have hmem : c ∈ seen := by
        cases hn : seen.dropWhile (·.left < c.left) with
        | nil => simp [hn] at h
        | cons e es =>
          have he : e = c := by
            refine (hnear e (by simp [hn])).eq_of_left (hcs c (by simp)) ?_
            simpa [hn, BEq.beq] using h
          exact List.dropWhile_sublist _ |>.mem (show c ∈ seen.dropWhile _ by rw [hn, he]; simp)
      simp only [h, if_true] at hto ⊢
      grind
    · next h =>
      simp only [h, if_false, Bool.false_eq_true] at hto ⊢
      grind

theorem mem_of_mem_fresh {text : Text} {d : Cursor} {cs seen : Places} (hcs : Within text cs)
    (hseen : Within text seen) (h : d ∈ fresh cs seen) : d ∈ cs := by
  simpa using (mem_freshOnto d cs [] seen hcs hseen).1 h

theorem mem_fresh_or {text : Text} {d : Cursor} {cs seen : Places} (hcs : Within text cs)
    (hseen : Within text seen) (h : d ∈ cs) : d ∈ fresh cs seen ∨ d ∈ seen :=
  (mem_freshOnto d cs [] seen hcs hseen).2 (.inr h)

/-- Sets of one text are equal if they are compared as such. -/
theorem eq_of_beq {text : Text} {cs ds : Places} (hcs : Within text cs) (hds : Within text ds)
    (h : (cs == ds) = true) : cs = ds := by
  induction cs generalizing ds with
  | nil =>
    cases ds with
    | nil => rfl
    | cons d ds => simp at h
  | cons c cs ih =>
    cases ds with
    | nil => simp at h
    | cons d ds =>
      simp only [List.cons_beq_cons, Bool.and_eq_true] at h
      obtain ⟨h₁, h₂⟩ := h
      rw [(hcs c (by simp)).eq_of_left (hds d (by simp)) (by simpa [BEq.beq] using h₁),
        ih (fun x hx => hcs x (by simp [hx])) (fun x hx => hds x (by simp [hx])) h₂]

end Places

end TreeSpec
