import Mathlib.Data.List.Basic
import Mathlib.Data.List.TakeWhile
import TreeSpec.Text.Blank
import TreeSpec.Text.Pieces

/-!
# Pieces and the blanks at their ends

The pieces of a text are told by their places: in front of a piece stand as many separators as
pieces, and none stands in it. A text that is cut at a separator has the pieces of its two parts,
and pieces that are put together with separators between them are found again. Trimming takes the
blanks at the two ends of a text and nothing else.
-/

namespace TreeSpec.Text

set_option autoImplicit false

section Pieces

variable {isSeparator : CodePoint → Bool} {t u v p : Text} {c : CodePoint} {i : Nat}

/-- `p` stands in place `i`: it starts after the separator with this number or at the start, holds
no separator, and ends at the next separator or at the end. -/
def PieceAt (isSeparator : CodePoint → Bool) (t : Text) (i : Nat) (p : Text) : Prop :=
  ∃ before after, t = before ++ (p ++ after) ∧ before.countP isSeparator = i ∧
    (∀ c ∈ before.getLast?, isSeparator c = true) ∧ (∀ c ∈ p, isSeparator c = false) ∧
    ∀ c ∈ after.head?, isSeparator c = true

/-- The pieces in order with separators between them, one after each piece but the last. -/
def interleaved : List Text → List CodePoint → Text
  | p :: ps, c :: cs => p ++ c :: interleaved ps cs
  | p :: _, [] => p
  | [], _ => []

theorem pieces_eq_splitOnP (t : Text) : pieces isSeparator t = t.splitOnP isSeparator := by
  induction t with
  | nil => rw [pieces, List.splitOnP_nil]
  | cons c t ih =>
    rw [pieces, List.splitOnP_cons_eq_if_modifyHead, ← ih]
    obtain ⟨p, ps, hp⟩ := List.exists_cons_of_ne_nil (@pieces_ne_nil isSeparator t)
    rw [hp, List.modifyHead_cons]

/-- All about pieces follows from this equation and the next one. -/
theorem pieces_append_separator (u v : Text) (hc : isSeparator c = true) :
    pieces isSeparator (u ++ c :: v) = pieces isSeparator u ++ pieces isSeparator v := by
  rw [pieces_eq_splitOnP, pieces_eq_splitOnP, pieces_eq_splitOnP, List.splitOnP_append_cons u v hc]

theorem pieces_whole (ht : ∀ c ∈ t, isSeparator c = false) : pieces isSeparator t = [t] := by
  rw [pieces_eq_splitOnP, List.splitOnP_eq_singleton ht]

/-- A text is a piece, or a piece, a separator and a text. -/
theorem piece_induction (isSeparator : CodePoint → Bool) {motive : Text → Prop}
    (whole : ∀ t, (∀ c ∈ t, isSeparator c = false) → motive t)
    (cut : ∀ u c v, (∀ d ∈ u, isSeparator d = false) → isSeparator c = true → motive v →
      motive (u ++ c :: v))
    (t : Text) : motive t := by
  -- The first piece is read up to the separator, so the induction is on what comes after a part of
  -- it.
  have hall : ∀ u, (∀ d ∈ u, isSeparator d = false) → motive (u ++ t) := by
    induction t with
    | nil =>
      intro u hu
      rw [List.append_nil]
      exact whole u hu
    | cons c t ih =>
      intro u hu
      cases hc : isSeparator c with
      | true => exact cut u c t hu hc (ih [] fun _ hd => absurd hd List.not_mem_nil)
      | false =>
        have hmore :=
          ih (u ++ [c]) (List.forall_mem_append.mpr ⟨hu, List.forall_mem_singleton.mpr hc⟩)
        rw [List.append_assoc] at hmore
        exact hmore
  exact hall [] fun _ hd => absurd hd List.not_mem_nil

/-- A separator moves what stands after it by one place. -/
theorem PieceAt.behind_separator (hu : ∀ c ∈ u, isSeparator c = false) (hc : isSeparator c = true)
    (h : v.PieceAt isSeparator i p) : PieceAt isSeparator (u ++ c :: v) (i + 1) p := by
  obtain ⟨before, after, rfl, hcount, hlast, hp, hnext⟩ := h
  have hfree : u.countP isSeparator = 0 :=
    List.countP_eq_zero.mpr fun d hd => ne_true_of_eq_false (hu d hd)
  refine ⟨u ++ c :: before, after, ?_, ?_, ?_, hp, hnext⟩
  · rw [List.append_assoc, List.cons_append]
  · rw [List.countP_append, List.countP_cons_of_pos hc, hfree, Nat.zero_add, hcount]
  · intro d hd
    rw [List.getLast?_append_of_ne_nil u (List.cons_ne_nil c before), List.getLast?_cons] at hd
    cases hbefore : before.getLast? with
    | none =>
      rw [hbefore] at hd
      obtain rfl := Option.some.inj hd
      exact hc
    | some e =>
      rw [hbefore] at hd
      obtain rfl := Option.some.inj hd
      exact hlast _ hbefore

theorem pieceAt_of_getElem? (h : (pieces isSeparator t)[i]? = some p) :
    t.PieceAt isSeparator i p := by
  induction t using piece_induction isSeparator generalizing i with
  | whole t ht =>
    rw [pieces_whole ht] at h
    cases i with
    | zero =>
      obtain rfl : t = p := Option.some.inj h
      exact ⟨[], [], (List.append_nil _).symm, rfl, nofun, ht, nofun⟩
    | succ i => cases h
  | cut u c v hu hc ih =>
    rw [pieces_append_separator u v hc, pieces_whole hu, List.singleton_append] at h
    cases i with
    | zero =>
      obtain rfl : u = p := Option.some.inj h
      refine ⟨[], c :: v, rfl, rfl, nofun, hu, ?_⟩
      intro d hd
      obtain rfl := Option.some.inj hd
      exact hc
    | succ i => exact (ih h).behind_separator hu hc

theorem head?_pieces (hp : ∀ c ∈ p, isSeparator c = false)
    (ht : ∀ c ∈ t.head?, isSeparator c = true) :
    (pieces isSeparator (p ++ t))[0]? = some p := by
  cases t with
  | nil => rw [List.append_nil, pieces_whole hp, List.getElem?_cons_zero]
  | cons c t =>
    rw [pieces_append_separator p t (ht c rfl), pieces_whole hp, List.singleton_append,
      List.getElem?_cons_zero]

theorem getElem?_pieces : (pieces isSeparator t)[i]? = some p ↔ t.PieceAt isSeparator i p := by
  refine ⟨pieceAt_of_getElem?, ?_⟩
  rintro ⟨before, after, rfl, rfl, hlast, hp, hnext⟩
  rcases List.eq_nil_or_concat before with rfl | ⟨u, c, rfl⟩
  · exact head?_pieces hp hnext
  · rw [List.concat_eq_append] at hlast ⊢
    have hc : isSeparator c = true := hlast c List.getLast?_concat
    have hcount : (u ++ [c]).countP isSeparator = (pieces isSeparator u).length := by
      rw [length_pieces, List.countP_append, List.countP_singleton, if_pos hc]
    rw [hcount, List.append_assoc, List.singleton_append, pieces_append_separator u _ hc,
      List.getElem?_append_right (Nat.le_refl _), Nat.sub_self]
    exact head?_pieces hp hnext

theorem pieces_interleaved {ps : List Text} {cs : List CodePoint}
    (hcs : ∀ c ∈ cs, isSeparator c = true)
    (hps : ∀ p ∈ ps, ∀ c ∈ p, isSeparator c = false) (hlength : ps.length = cs.length + 1) :
    pieces isSeparator (interleaved ps cs) = ps := by
  induction cs generalizing ps with
  | nil =>
    obtain ⟨p, rfl⟩ := List.length_eq_one_iff.mp hlength
    exact pieces_whole (hps p List.mem_cons_self)
  | cons c cs ih =>
    cases ps with
    | nil => cases hlength
    | cons p ps =>
      obtain ⟨hc, hcs⟩ := List.forall_mem_cons.mp hcs
      obtain ⟨hp, hps⟩ := List.forall_mem_cons.mp hps
      rw [interleaved, pieces_append_separator _ _ hc, pieces_whole hp,
        ih hcs hps (Nat.succ.inj hlength)]
      rfl

end Pieces

section Trim

variable {t p d e : Text}

/-- The text has no blank at its ends. -/
structure Trimmed (p : Text) : Prop where
  first : ∀ c ∈ p.head?, isBlank c = false
  last : ∀ c ∈ p.getLast?, isBlank c = false

/-- The second text is the first one without the blanks at its ends. -/
def TrimsTo (t p : Text) : Prop :=
  ∃ d e, t = d ++ (p ++ e) ∧ (∀ c ∈ d, isBlank c = true) ∧ (∀ c ∈ e, isBlank c = true) ∧ p.Trimmed

theorem trimsTo_trim (t : Text) : t.TrimsTo t.trim := by
  let rest := t.dropWhile isBlank
  let last := (rest.reverse.takeWhile isBlank).reverse
  have hrest : rest = t.trim ++ last := by
    have hreverse :
        rest.reverse.takeWhile isBlank ++ rest.reverse.dropWhile isBlank = rest.reverse :=
      List.takeWhile_append_dropWhile
    have hsplit := congrArg List.reverse hreverse
    rw [List.reverse_append, List.reverse_reverse] at hsplit
    exact hsplit.symm
  refine ⟨t.takeWhile isBlank, last, ?_, ?_, ?_, ?_, ?_⟩
  · rw [← hrest]
    exact List.takeWhile_append_dropWhile.symm
  · exact List.all_eq_true.mp List.all_takeWhile
  · intro c hc
    exact List.all_eq_true.mp List.all_takeWhile c (List.mem_reverse.mp hc)
  · intro c hc
    have hhead : rest.head? = some c := by
      rw [hrest, List.head?_append, hc]
      rfl
    have hnot := List.head?_dropWhile_not isBlank t
    rw [hhead] at hnot
    exact hnot
  · intro c hc
    have hnot := List.head?_dropWhile_not isBlank rest.reverse
    have hlast : (rest.reverse.dropWhile isBlank).head? = some c :=
      List.getLast?_reverse.symm.trans hc
    rw [hlast] at hnot
    exact hnot

theorem TrimsTo.trim_eq (h : t.TrimsTo p) : t.trim = p := by
  obtain ⟨d, e, rfl, hd, he, hp⟩ := h
  unfold trim
  rw [List.dropWhile_append_of_pos hd]
  cases p with
  | nil =>
    rw [List.nil_append, List.dropWhile_eq_nil_iff.mpr he]
    rfl
  | cons c p =>
    obtain ⟨d, ds, hreverse⟩ :=
      List.exists_cons_of_ne_nil (List.reverse_ne_nil_iff.mpr (List.cons_ne_nil c p))
    have hfirst : ¬ isBlank c = true := ne_true_of_eq_false (hp.first c rfl)
    have hlast : ¬ isBlank d = true := by
      apply ne_true_of_eq_false
      apply hp.last d
      rw [List.getLast?_eq_head?_reverse, hreverse]
      rfl
    have he' : ∀ c ∈ e.reverse, isBlank c = true := fun c hc => he c (List.mem_reverse.mp hc)
    rw [List.cons_append, List.dropWhile_cons_of_neg hfirst, ← List.cons_append,
      List.reverse_append, List.dropWhile_append_of_pos he', hreverse,
      List.dropWhile_cons_of_neg hlast, ← hreverse, List.reverse_reverse]

theorem trim_eq_iff : t.trim = p ↔ t.TrimsTo p := by
  constructor
  · rintro rfl
    exact trimsTo_trim t
  · exact TrimsTo.trim_eq

theorem trimmed_trim (t : Text) : t.trim.Trimmed := by
  obtain ⟨-, -, -, -, -, h⟩ := trimsTo_trim t
  exact h

theorem Trimmed.trim_eq (h : p.Trimmed) : p.trim = p :=
  TrimsTo.trim_eq ⟨[], [], (List.append_nil p).symm, nofun, nofun, h⟩

theorem trim_blanks_append (hd : ∀ c ∈ d, isBlank c = true) (t : Text) :
    (d ++ t).trim = t.trim := by
  obtain ⟨d', e, ht, hd', he, hp⟩ := trimsTo_trim t
  refine TrimsTo.trim_eq ⟨d ++ d', e, ?_, List.forall_mem_append.mpr ⟨hd, hd'⟩, he, hp⟩
  rw [List.append_assoc]
  exact congrArg (d ++ ·) ht

theorem trim_append_blanks (he : ∀ c ∈ e, isBlank c = true) (t : Text) :
    (t ++ e).trim = t.trim := by
  obtain ⟨d, e', ht, hd, he', hp⟩ := trimsTo_trim t
  refine TrimsTo.trim_eq ⟨d, e' ++ e, ?_, hd, List.forall_mem_append.mpr ⟨he', he⟩, hp⟩
  rw [← List.append_assoc t.trim, ← List.append_assoc]
  exact congrArg (· ++ e) ht

theorem mem_of_mem_trim {c : CodePoint} (h : c ∈ t.trim) : c ∈ t := by
  obtain ⟨d, e, ht, -⟩ := trimsTo_trim t
  rw [ht]
  exact List.mem_append_right d (List.mem_append_left e h)

end Trim

end TreeSpec.Text
