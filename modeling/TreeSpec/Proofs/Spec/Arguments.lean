import Mathlib.Logic.Relation
import TreeSpec.Proofs.Spec.Grammar
import TreeSpec.Proofs.Text.Pieces

/-!
# Arguments of a block

The arguments of a block keep their places, whichever separators stand between them and whatever
blanks stand around these. A separator with the blanks around it is a gap, and what gaps there are
is all the same.
-/

namespace TreeSpec

set_option autoImplicit false

section Gaps

variable {b m s t u v : Text} {c : CodePoint}

theorem isArgSeparator_iff : isArgSeparator c = true ↔ c = ',' ∨ c = '-' := by
  unfold isArgSeparator
  rw [Bool.or_eq_true, decide_eq_true_eq, decide_eq_true_eq]

theorem not_isBlank_of_isArgSeparator (h : isArgSeparator c = true) : Text.isBlank c = false := by
  rcases isArgSeparator_iff.mp h with rfl | rfl <;> decide

theorem not_isWord_of_isArgSeparator (h : isArgSeparator c = true) : Text.isWord c = false := by
  rcases isArgSeparator_iff.mp h with rfl | rfl <;> decide +kernel

theorem not_endsBlock_of_isArgSeparator (h : isArgSeparator c = true) :
    Token.endsBlock c = false := by
  rcases isArgSeparator_iff.mp h with rfl | rfl <;> decide

theorem not_endsBlock_of_isBlank (h : Text.isBlank c = true) : Token.endsBlock c = false := by
  rw [← Bool.not_eq_true]
  unfold Token.endsBlock
  rw [Bool.or_eq_true, Bool.or_eq_true, decide_eq_true_eq, decide_eq_true_eq, decide_eq_true_eq]
  rintro ((rfl | rfl) | rfl) <;> revert h <;> decide

namespace Text

theorem Blank.not_isArgSeparator (hb : b.Blank) : ∀ c ∈ b, isArgSeparator c = false := by
  intro c hc
  rw [← Bool.not_eq_true]
  intro hseparator
  exact hb.not_mem (not_isBlank_of_isArgSeparator hseparator) hc

theorem Name.not_isArgSeparator (hn : s.Name) : ∀ c ∈ s, isArgSeparator c = false := by
  intro c hc
  rw [← Bool.not_eq_true]
  intro hseparator
  exact hn.not_mem (not_isWord_of_isArgSeparator hseparator) hc

theorem not_isArgSeparator_of_name (hb : b.Blank) (hs : s.Name) (ht : t.Blank) :
    ∀ c ∈ b ++ s ++ t, isArgSeparator c = false := by
  rw [List.forall_mem_append, List.forall_mem_append]
  exact ⟨⟨hb.not_isArgSeparator, hs.not_isArgSeparator⟩, ht.not_isArgSeparator⟩

/-- What stands between two arguments: a separator with any blanks around it. -/
def Gap (m : Text) : Prop :=
  ∃ (b : Text) (c : CodePoint) (d : Text), m = b ++ c :: d ∧ b.Blank ∧
    isArgSeparator c = true ∧ d.Blank

/-- One gap is put in the place of another one. -/
inductive GapChange : Text → Text → Prop where
  | mk {u m w v : Text} (hm : m.Gap) (hw : w.Gap) : GapChange (u ++ (m ++ v)) (u ++ (w ++ v))

theorem Gap.exists_separator (hm : m.Gap) : ∃ c ∈ m, isArgSeparator c = true := by
  obtain ⟨b, c, d, rfl, -, hc, -⟩ := hm
  exact ⟨c, List.mem_append_right b List.mem_cons_self, hc⟩

/-- A text without separators has no gap in it. -/
theorem Gap.not_part (hm : m.Gap) (u v : Text) :
    ¬ ∀ c ∈ u ++ (m ++ v), isArgSeparator c = false := by
  obtain ⟨c, hc, hseparator⟩ := hm.exists_separator
  intro hall
  rw [hall c (List.mem_append_right u (List.mem_append_left v hc))] at hseparator
  cases hseparator

theorem Gap.not_endsBlock (hm : m.Gap) : ∀ c ∈ m, Token.endsBlock c = false := by
  obtain ⟨b, c, d, rfl, hb, hc, hd⟩ := hm
  rw [List.forall_mem_append, List.forall_mem_cons]
  exact ⟨fun c hc => not_endsBlock_of_isBlank (hb c hc), not_endsBlock_of_isArgSeparator hc,
    fun c hc => not_endsBlock_of_isBlank (hd c hc)⟩

theorem Gap.not_mem_of_endsBlock (hm : m.Gap) (hc : Token.endsBlock c = true) : c ∉ m := by
  intro hmem
  rw [hm.not_endsBlock c hmem] at hc
  cases hc

instance : Std.Symm GapChange := ⟨fun _ _ ⟨hm, hw⟩ => .mk hw hm⟩

end Text

end Gaps

section SplitArgs

variable {b m p s t u v : Text} {c : CodePoint}

theorem splitArgs_append_separator (u v : Text) (hc : isArgSeparator c = true) :
    splitArgs (some (u ++ c :: v)) = splitArgs (some u) ++ splitArgs (some v) := by
  unfold splitArgs
  simp only
  rw [Text.pieces_append_separator u v hc, List.map_append]

theorem splitArgs_whole (ht : ∀ c ∈ t, isArgSeparator c = false) :
    splitArgs (some t) = [t.trim] := by
  unfold splitArgs
  simp only
  rw [Text.pieces_whole ht, List.map_singleton]

theorem splitArgs_blanks_append (hb : b.Blank) (t : Text) :
    splitArgs (some (b ++ t)) = splitArgs (some t) := by
  induction t using Text.piece_induction isArgSeparator with
  | whole t ht =>
    have hboth := List.forall_mem_append.mpr ⟨hb.not_isArgSeparator, ht⟩
    rw [splitArgs_whole hboth, splitArgs_whole ht, Text.trim_blanks_append hb]
  | cut u c v hu hc _ =>
    have hboth := List.forall_mem_append.mpr ⟨hb.not_isArgSeparator, hu⟩
    rw [← List.append_assoc, splitArgs_append_separator _ v hc, splitArgs_append_separator u v hc,
      splitArgs_whole hboth, splitArgs_whole hu, Text.trim_blanks_append hb]

theorem splitArgs_append_blanks (hb : b.Blank) (t : Text) :
    splitArgs (some (t ++ b)) = splitArgs (some t) := by
  induction t using Text.piece_induction isArgSeparator with
  | whole t ht =>
    have hboth := List.forall_mem_append.mpr ⟨ht, hb.not_isArgSeparator⟩
    rw [splitArgs_whole hboth, splitArgs_whole ht, Text.trim_append_blanks hb]
  | cut u c v _ hc ih =>
    rw [List.append_assoc, List.cons_append, splitArgs_append_separator u _ hc,
      splitArgs_append_separator u v hc, ih]

/-- A gap parts the arguments before it from those after it, whatever gap it is. -/
theorem splitArgs_append_gap (hm : m.Gap) (u v : Text) :
    splitArgs (some (u ++ (m ++ v))) = splitArgs (some u) ++ splitArgs (some v) := by
  obtain ⟨b, c, d, rfl, hb, hc, hd⟩ := hm
  rw [List.append_assoc, List.cons_append, ← List.append_assoc, splitArgs_append_separator _ _ hc,
    splitArgs_append_blanks hb, splitArgs_blanks_append hd]

theorem splitArgs_of_changes (h : Relation.ReflTransGen Text.GapChange s t) :
    splitArgs (some s) = splitArgs (some t) := by
  induction h with
  | refl => rfl
  | tail _ hchange ih =>
    obtain ⟨hm, hw⟩ := hchange
    rw [ih, splitArgs_append_gap hm, splitArgs_append_gap hw]

theorem not_isArgSeparator_of_mem_splitArgs {args : Option Text} (hp : p ∈ splitArgs args)
    (hc : c ∈ p) :
    isArgSeparator c = false := by
  cases args with
  | none => cases hp
  | some a =>
    obtain ⟨whole, hwhole, rfl⟩ := List.mem_map.mp hp
    exact Text.not_isSeparator_of_mem_pieces hwhole (Text.mem_of_mem_trim hc)

theorem trimmed_of_mem_splitArgs {args : Option Text} (hp : p ∈ splitArgs args) : p.Trimmed := by
  cases args with
  | none => cases hp
  | some a =>
    obtain ⟨whole, -, rfl⟩ := List.mem_map.mp hp
    exact Text.trimmed_trim whole

theorem countP_isArgSeparator (a : Text) :
    a.countP isArgSeparator = a.count (.char ',') + a.count (.char '-') := by
  induction a with
  | nil => rfl
  | cons c a ih =>
    have hone : (if isArgSeparator c = true then 1 else 0) =
        (if (c == .char ',') = true then 1 else 0) + if (c == .char '-') = true then 1 else 0 := by
      simp only [isArgSeparator_iff, beq_iff_eq]
      by_cases hcomma : c = ','
      · subst hcomma
        decide
      · simp only [hcomma, false_or, if_false, Nat.zero_add]
    rw [List.countP_cons, List.count_cons, List.count_cons, ih, hone]
    omega

theorem length_splitArgs (a : Text) :
    (splitArgs (some a)).length = a.count (.char ',') + a.count (.char '-') + 1 := by
  unfold splitArgs
  simp only
  rw [List.length_map, Text.length_pieces, countP_isArgSeparator]

theorem getElem?_splitArgs {a : Text} {i : Nat} : (splitArgs (some a))[i]? = some p ↔
    ∃ whole, a.PieceAt isArgSeparator i whole ∧ whole.TrimsTo p := by
  unfold splitArgs
  simp only [List.getElem?_map, Option.map_eq_some_iff, Text.getElem?_pieces, Text.trim_eq_iff]

theorem splitArgs_interleaved {a : Text} {separators : List CodePoint}
    (hseparators : ∀ c ∈ separators, isArgSeparator c = true)
    (hlength : (splitArgs (some a)).length = separators.length + 1) :
    splitArgs (some (Text.interleaved (splitArgs (some a)) separators)) = splitArgs (some a) := by
  have hpieces : Text.pieces isArgSeparator (Text.interleaved (splitArgs (some a)) separators) =
      splitArgs (some a) :=
    Text.pieces_interleaved hseparators (fun _ hp _ hc =>
      not_isArgSeparator_of_mem_splitArgs hp hc) hlength
  calc splitArgs (some (Text.interleaved (splitArgs (some a)) separators))
      = (Text.pieces isArgSeparator (Text.interleaved (splitArgs (some a)) separators)).map
        Text.trim := rfl
    _ = (splitArgs (some a)).map Text.trim := by rw [hpieces]
    _ = (splitArgs (some a)).map id :=
      List.map_congr_left fun _ hp => (trimmed_of_mem_splitArgs hp).trim_eq
    _ = splitArgs (some a) := List.map_id _

end SplitArgs

end TreeSpec
