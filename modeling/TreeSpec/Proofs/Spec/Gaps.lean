import TreeSpec.Proofs.Builtin.Numbers
import TreeSpec.Proofs.Spec.Arguments
import TreeSpec.Proofs.Spec.Clauses

/-!
# Specs with gaps written in another way

In a spec separators of arguments stand in blocks and nowhere else. So a spec in which gaps between
arguments are written in another way is read with the same names and arguments. It is compiled to
the same clauses but for the text of their blocks, and predicates that do not look at that, such as
ranges, answer as before.
-/

namespace TreeSpec

set_option autoImplicit false

section Grammar

variable {m s t u v : Text} {x : Alternative} {xs : List Alternative} {c : CodePoint}

/-- A character that is not in the middle part stands before it or after it. -/
theorem append_cons_eq_append (hc : c ∉ m) (h : s ++ c :: t = u ++ (m ++ v)) :
    (∃ k, s = u ++ (m ++ k) ∧ v = k ++ c :: t) ∨ ∃ k, u = s ++ c :: k ∧ t = k ++ (m ++ v) := by
  rcases List.append_eq_append_iff.mp h with ⟨k, rfl, hk⟩ | ⟨k, rfl, hk⟩
  · cases k with
    | nil =>
      cases m with
      | nil =>
        refine .inl ⟨[], ?_, hk.symm⟩
        rw [List.append_nil, List.append_nil, List.append_nil]
      | cons d m =>
        obtain rfl := (List.cons.inj hk).1
        exact absurd List.mem_cons_self hc
    | cons d k =>
      obtain ⟨rfl, rfl⟩ := List.cons.inj hk
      exact .inr ⟨k, rfl, rfl⟩
  · rcases List.append_eq_append_iff.mp hk with ⟨l, rfl, hl⟩ | ⟨l, rfl, hl⟩
    · exact .inl ⟨l, rfl, hl⟩
    · cases l with
      | nil =>
        refine .inl ⟨[], ?_, hl.symm⟩
        rw [List.append_nil, List.append_nil]
      | cons d l =>
        obtain rfl := (List.cons.inj hl).1
        exact absurd (List.mem_append_right k List.mem_cons_self) hc

/-- Gaps stand within the block of a clause, where any text that does not end the block may
stand. -/
theorem ClauseText.of_gap (h : ClauseText (u ++ (m ++ v)) x) (hm : m.Gap) :
    ∃ n p q, x = ⟨n, some (p ++ (m ++ q))⟩ ∧ ∀ w, (∀ c ∈ w, Token.endsBlock c = false) →
      ClauseText (u ++ (w ++ v)) ⟨n, some (p ++ (w ++ q))⟩ := by
  generalize htext : u ++ (m ++ v) = s at h
  cases h with
  | bare hb hn hd =>
    exact absurd (htext ▸ Text.not_isArgSeparator_of_name hb hn hd) (hm.not_part u v)
  | @block b n d a e hb hn hd ha he =>
    -- The gap has neither parenthesis in it, so it stands before the block, in it or after it.
    rcases append_cons_eq_append (hm.not_mem_of_endsBlock rfl) htext.symm with
        ⟨k, hk, -⟩ | ⟨p, rfl, hp⟩
    · exact absurd (hk ▸ Text.not_isArgSeparator_of_name hb hn hd) (hm.not_part u k)
    · rcases append_cons_eq_append (hm.not_mem_of_endsBlock rfl) hp with ⟨q, rfl, rfl⟩ | ⟨k, -, hk⟩
      · refine ⟨n, p, q, rfl, fun w hw => ?_⟩
        rw [List.forall_mem_append, List.forall_mem_append] at ha
        have hclause := ClauseText.block hb hn hd
          (List.forall_mem_append.mpr ⟨ha.1, List.forall_mem_append.mpr ⟨hw, ha.2.2⟩⟩) he
        simp only [List.append_assoc, List.cons_append] at hclause ⊢
        exact hclause
      · exact absurd (hk ▸ he.not_isArgSeparator) (hm.not_part k v)

/-- A spec in which there is a gap has it in one of its blocks. -/
theorem SpecText.of_gap (h : SpecText (u ++ (m ++ v)) xs) (hm : m.Gap) :
    ∃ before n p q after, xs = before ++ ⟨n, some (p ++ (m ++ q))⟩ :: after ∧
      ∀ w, (∀ c ∈ w, Token.endsBlock c = false) →
        SpecText (u ++ (w ++ v)) (before ++ ⟨n, some (p ++ (w ++ q))⟩ :: after) := by
  generalize htext : u ++ (m ++ v) = s at h
  induction h generalizing u with
  | one hs =>
    subst htext
    obtain ⟨n, p, q, rfl, hclause⟩ := hs.of_gap hm
    exact ⟨[], n, p, q, [], rfl, fun w hw => .one (hclause w hw)⟩
  | @more s t x xs hs ht ih =>
    rcases append_cons_eq_append (hm.not_mem_of_endsBlock rfl) htext.symm with
        ⟨k, rfl, rfl⟩ | ⟨k, rfl, hk⟩
    · obtain ⟨n, p, q, rfl, hclause⟩ := hs.of_gap hm
      refine ⟨[], n, p, q, xs, rfl, fun w hw => ?_⟩
      have hspec := SpecText.more (hclause w hw) ht
      rw [List.append_assoc, List.append_assoc] at hspec
      exact hspec
    · obtain ⟨before, n, p, q, after, rfl, hspec⟩ := ih hk.symm
      refine ⟨x :: before, n, p, q, after, rfl, fun w hw => ?_⟩
      rw [List.append_assoc, List.cons_append]
      exact .more hs (hspec w hw)

namespace Alternative

/-- The name and the arguments, however these are written. -/
def contents (x : Alternative) : Text × Option (List Text) :=
  (x.name, x.rawArgs.map fun a => splitArgs (some a))

theorem contents_of_gaps {n p q w : Text} (hm : m.Gap) (hw : w.Gap) :
    contents ⟨n, some (p ++ (m ++ q))⟩ = contents ⟨n, some (p ++ (w ++ q))⟩ := by
  unfold contents
  rw [Option.map_some, Option.map_some, splitArgs_append_gap hm, splitArgs_append_gap hw]

end Alternative

/-- A spec is still one when gaps are written in another way, and has the same names and
arguments. -/
theorem SpecText.of_changes (h : Relation.ReflTransGen Text.GapChange s t) (hs : SpecText s xs) :
    ∃ ys, SpecText t ys ∧ xs.map Alternative.contents = ys.map Alternative.contents := by
  induction h with
  | refl => exact ⟨xs, hs, rfl⟩
  | tail _ hchange ih =>
    obtain ⟨ys, hys, hcontents⟩ := ih
    obtain ⟨hm, hw⟩ := hchange
    obtain ⟨before, n, p, q, after, rfl, hspec⟩ := hys.of_gap hm
    refine ⟨_, hspec _ hw.not_endsBlock, hcontents.trans ?_⟩
    rw [List.map_append, List.map_append, List.map_cons, List.map_cons,
      Alternative.contents_of_gaps hm hw]

end Grammar

section Clauses

variable {r : Registry} {s t : Text} {x y : Alternative} {xs ys : List Alternative} {c d : Clause}

/-- The clauses differ in nothing but the writing of the arguments. -/
structure Clause.Respelled (c d : Clause) : Prop where
  name : c.name = d.name
  negated : c.negated = d.negated
  matcher : c.matcher = d.matcher
  block : c.rawArgs.isSome = d.rawArgs.isSome
  parsedArgs : c.parsedArgs = d.parsedArgs

namespace Alternative

theorem name_of_contents (h : x.contents = y.contents) : x.name = y.name := congrArg Prod.fst h

theorem block_of_contents (h : x.contents = y.contents) : x.rawArgs.isSome = y.rawArgs.isSome := by
  have hargs := congrArg (fun contents => contents.2.isSome) h
  simp only [contents, Option.isSome_map] at hargs
  exact hargs

theorem splitArgs_of_contents (h : x.contents = y.contents) :
    splitArgs x.rawArgs = splitArgs y.rawArgs := by
  have hargs (x : Alternative) : splitArgs x.rawArgs = x.contents.2.getD [] := by
    unfold contents
    cases x.rawArgs <;> rfl
  rw [hargs, hargs, h]

theorem isOptional_of_contents (h : x.contents = y.contents) : x.isOptional = y.isOptional := by
  unfold isOptional
  rw [← Option.not_isSome, ← Option.not_isSome, block_of_contents h, name_of_contents h]

theorem isKnown_of_contents (h : x.contents = y.contents) : x.isKnown r = y.isKnown r := by
  unfold isKnown
  rw [isOptional_of_contents h, name_of_contents h]

theorem clause?_of_contents (h : x.contents = y.contents) :
    Option.Rel Clause.Respelled (x.clause? r) (y.clause? r) := by
  unfold clause?
  rw [name_of_contents h]
  cases r.resolve y.name with
  | none => exact .none
  | some found => exact .some ⟨rfl, rfl, rfl, block_of_contents h, splitArgs_of_contents h⟩

theorem forall₂_of_contents (h : xs.map contents = ys.map contents) :
    List.Forall₂ (fun x y => x.contents = y.contents) xs ys := by
  apply List.forall₂_map_right_iff.mp
  apply List.forall₂_map_left_iff.mp
  rw [List.forall₂_eq_eq_eq]
  exact h

end Alternative

/-- Two questions about one value that the predicate of a matcher answers alike are answered
alike. -/
theorem Matcher.result_ask_congr {m : Matcher} {q q' : Question} (hvalue : q.value = q'.value)
    (h : ∀ p ∈ m.predicate?, (p.run q).result = (p.run q').result) :
    (m.ask q).result = (m.ask q').result := by
  induction m with
  | pattern p description =>
    have hask (q : Question) : ((pattern p description).ask q).result = .ok (p.found q.value) := rfl
    rw [hask, hask, hvalue]
  | undefined description => rfl
  | predicate p description => rw [result_ask_predicate, result_ask_predicate, h p rfl]
  | negated inner ih => rw [result_ask_negated, result_ask_negated, ih h]

/-- A range does not see how its bounds are written, and a pattern sees none. -/
theorem Clause.Respelled.outcome (h : c.Respelled d)
    (hrange : ∀ p ∈ c.matcher.predicate?, p = Builtin.range)
    (value : Text) : (c.attempt value).outcome = (d.attempt value).outcome := by
  have hvalue : (c.question value).value = (d.question value).value := rfl
  unfold attempt
  simp only
  rw [← h.matcher]
  apply Matcher.result_ask_congr hvalue
  intro p hp
  rw [hrange p hp]
  exact Builtin.withinBounds_congr rfl h.parsedArgs

theorem Clause.Respelled.outcome_of_block (h : c.Respelled d)
    (hrange : c.rawArgs.isSome = true → ∀ p ∈ c.matcher.predicate?, p = Builtin.range)
    (value : Text) :
    (c.attempt value).outcome = (d.attempt value).outcome := by
  cases hblock : c.rawArgs with
  | some a => exact h.outcome (hrange (hblock ▸ rfl)) value
  | none =>
    have hnone : d.rawArgs = none := by
      rw [← Option.not_isSome_iff_eq_none, ← h.block, hblock]
      exact Bool.false_ne_true
    have hquestion : c.question value = d.question value := by
      unfold question
      rw [hblock, hnone, h.parsedArgs]
    unfold attempt
    rw [hquestion, h.matcher]

namespace Expression

theorem all_isKnown_of_contents (h : List.Forall₂ (fun x y => x.contents = y.contents) xs ys) :
    xs.all (Alternative.isKnown r) = ys.all (Alternative.isKnown r) := by
  induction h with
  | nil => rfl
  | cons hxy _ ih => rw [List.all_cons, List.all_cons, Alternative.isKnown_of_contents hxy, ih]

theorem allowsMissing_of_contents (h : List.Forall₂ (fun x y => x.contents = y.contents) xs ys) :
    (ofKnown r s xs).allowsMissing = (ofKnown r t ys).allowsMissing := by
  unfold ofKnown
  simp only
  induction h with
  | nil => rfl
  | cons hxy _ ih => rw [List.any_cons, List.any_cons, Alternative.isOptional_of_contents hxy, ih]

theorem clauses_of_contents (h : List.Forall₂ (fun x y => x.contents = y.contents) xs ys) :
    List.Forall₂ Clause.Respelled (ofKnown r s xs).clauses (ofKnown r t ys).clauses := by
  have hfilter : List.Forall₂ (fun x y : Alternative => x.contents = y.contents)
      (xs.filter (!·.isOptional)) (ys.filter (!·.isOptional)) := by
    refine List.rel_filter (fun x y hxy => ?_) h
    have hsame := Alternative.isOptional_of_contents hxy
    simp only [hsame]
  exact List.rel_filterMap (fun x y hxy => Alternative.clause?_of_contents hxy) hfilter

theorem exists_ofKnown_of_changes (h : Relation.ReflTransGen Text.GapChange s t)
    (hvalid : (compile r s).isValid = true) :
    ∃ xs ys, compile r s = ofKnown r s xs ∧ compile r t = ofKnown r t ys ∧
      List.Forall₂ (fun x y => x.contents = y.contents) xs ys := by
  obtain ⟨xs, hparse, hknown⟩ := isValid_compile_iff.mp hvalid
  obtain ⟨ys, hys, hcontents⟩ := (Alternative.parse_eq_ok_iff_specText.mp hparse).of_changes h
  have hall := Alternative.forall₂_of_contents hcontents
  refine ⟨xs, ys, compile_of_parse hparse hknown, ?_, hall⟩
  exact compile_of_parse (Alternative.parse_eq_ok_iff_specText.mpr hys)
    (all_isKnown_of_contents hall ▸ hknown)

theorem isValid_of_changes (h : Relation.ReflTransGen Text.GapChange s t)
    (hvalid : (compile r s).isValid = true) : (compile r t).isValid = true := by
  obtain ⟨-, ys, -, ht, -⟩ := exists_ofKnown_of_changes h hvalid
  rw [ht]
  rfl

theorem isValid_eq_of_changes (r : Registry) (h : Relation.ReflTransGen Text.GapChange s t) :
    (compile r s).isValid = (compile r t).isValid := by
  rw [Bool.eq_iff_iff]
  exact ⟨isValid_of_changes h, isValid_of_changes (Std.Symm.symm s t h)⟩

/-- A spec in which gaps are written in another way has the same clauses but for their blocks. -/
theorem clauses_of_changes (r : Registry) (h : Relation.ReflTransGen Text.GapChange s t) :
    List.Forall₂ Clause.Respelled (compile r s).clauses (compile r t).clauses := by
  have hsame := isValid_eq_of_changes r h
  cases hvalid : (compile r s).isValid with
  | true =>
    obtain ⟨xs, ys, hs, ht, hall⟩ := exists_ofKnown_of_changes h hvalid
    rw [hs, ht]
    exact clauses_of_contents hall
  | false =>
    rw [(error_of_not_isValid hvalid).1, (error_of_not_isValid (hsame.symm.trans hvalid)).1]
    exact .nil

theorem any_passed_of_forall₂ {cs ds : List Clause} {value : Text}
    (h : List.Forall₂ (fun c d => (c.attempt value).outcome = (d.attempt value).outcome) cs ds) :
    cs.any (fun c => (c.attempt value).passed) = ds.any (fun d => (d.attempt value).passed) := by
  induction h with
  | nil => rfl
  | cons hcd _ ih =>
    rw [List.any_cons, List.any_cons, ih]
    unfold Attempt.passed
    rw [hcd]

/-- If no predicate but ranges is asked with a block, a spec accepts the same values however its
gaps are written. -/
theorem accepts_of_changes (r : Registry) (h : Relation.ReflTransGen Text.GapChange s t)
    (hranges : ∀ c ∈ (compile r s).clauses, c.rawArgs.isSome = true →
      ∀ p ∈ c.matcher.predicate?, p = Builtin.range)
    (value : Option Text) : (compile r s).accepts value = (compile r t).accepts value := by
  have hsame := isValid_eq_of_changes r h
  cases hvalid : (compile r s).isValid with
  | true =>
    have hs := isValid_iff.mp hvalid
    have ht := isValid_iff.mp (hsame.symm.trans hvalid)
    cases value with
    | none =>
      obtain ⟨xs, ys, hxs, hys, hall⟩ := exists_ofKnown_of_changes h hvalid
      rw [accepts_none hs, accepts_none ht, hxs, hys]
      exact allowsMissing_of_contents hall
    | some text =>
      rw [accepts_some hs, accepts_some ht]
      apply any_passed_of_forall₂
      have hclauses := (List.forall₂_and_left _ _).mpr ⟨hranges, clauses_of_changes r h⟩
      exact hclauses.imp fun c d ⟨hrange, hcd⟩ => hcd.outcome_of_block hrange text
  | false =>
    obtain ⟨-, error, hs, -⟩ := error_of_not_isValid hvalid
    obtain ⟨-, error', ht, -⟩ := error_of_not_isValid (hsame.symm.trans hvalid)
    rw [accepts_of_error hs, accepts_of_error ht]

/-- The arguments of a block are what stands between its separators, without blanks at the ends: one
more than there are commas and hyphens, each in its place, and none of them with a separator in it.
Put together with any separators they are the arguments again. However gaps between arguments are
written, a spec is compiled to the same clauses with the same arguments or is not valid as before,
and ranges and their inversions answer as before. -/
theorem arguments_keep_places (r : Registry) (a : Text)
    (h : Relation.ReflTransGen Text.GapChange s t) :
    (splitArgs (some a)).length = a.count (.char ',') + a.count (.char '-') + 1 ∧
    (∀ i piece, (splitArgs (some a))[i]? = some piece ↔
      ∃ whole, a.PieceAt isArgSeparator i whole ∧ whole.TrimsTo piece) ∧
    (∀ piece ∈ splitArgs (some a), .char ',' ∉ piece ∧ .char '-' ∉ piece ∧ piece.Trimmed) ∧
    (∀ separators : List CodePoint, (∀ c ∈ separators, c = ',' ∨ c = '-') →
      (splitArgs (some a)).length = separators.length + 1 →
      splitArgs (some (Text.interleaved (splitArgs (some a)) separators)) = splitArgs (some a)) ∧
    splitArgs (some s) = splitArgs (some t) ∧
    (∀ value, Builtin.range.run ⟨value, some s, splitArgs (some s)⟩ =
      Builtin.range.run ⟨value, some t, splitArgs (some t)⟩) ∧
    (compile r s).isValid = (compile r t).isValid ∧
    List.Forall₂ (fun c d => c.Respelled d ∧ ((∀ p ∈ c.matcher.predicate?, p = Builtin.range) →
      ∀ value, (c.attempt value).outcome = (d.attempt value).outcome))
      (compile r s).clauses (compile r t).clauses ∧
    ((∀ c ∈ (compile r s).clauses, c.rawArgs.isSome = true →
      ∀ p ∈ c.matcher.predicate?, p = Builtin.range) →
      ∀ value, (compile r s).accepts value = (compile r t).accepts value) := by
  have hargs := splitArgs_of_changes h
  refine ⟨length_splitArgs a, fun i piece => getElem?_splitArgs, ?_, ?_, hargs, ?_,
    isValid_eq_of_changes r h, ?_, accepts_of_changes r h⟩
  · intro piece hpiece
    refine ⟨fun hcomma => ?_, fun hhyphen => ?_, trimmed_of_mem_splitArgs hpiece⟩
    · cases not_isArgSeparator_of_mem_splitArgs hpiece hcomma
    · cases not_isArgSeparator_of_mem_splitArgs hpiece hhyphen
  · intro separators hseparators
    exact splitArgs_interleaved fun c hc => isArgSeparator_iff.mpr (hseparators c hc)
  · intro value
    exact congrArg Effect.ofExcept (Builtin.withinBounds_congr rfl hargs)
  · exact (clauses_of_changes r h).imp fun c d hcd => ⟨hcd, hcd.outcome⟩

/-- A piece that is blank keeps its place, and the bounds of an inverted range are written in
another way. -/
theorem arguments_of_rewritten_range :
    let r := Registry.new 0 (Builtin.types World.empty.probes) []
    let s : Text := "norange(1-10)|oct"
    let t : Text := "norange(1 ,\u3000 10)|oct"
    Relation.ReflTransGen Text.GapChange s t ∧
      (∃ whole, Text.PieceAt isArgSeparator "-5-\t-1" 2 whole ∧ whole.TrimsTo []) ∧
      (compile r t).accepts (some "7") = true ∧
      ∀ value, (compile r s).accepts value = (compile r t).accepts value := by
  intro r s t
  have hblank : Text.Blank " " ∧ Text.Blank "\u3000 " := by
    unfold Text.Blank
    decide
  have hchange : Relation.ReflTransGen Text.GapChange s t := .single <|
    .mk (u := "norange(1") (m := "-") (w := " ,\u3000 ") (v := "10)|oct")
      ⟨[], '-', [], rfl, Text.blank_nil, rfl, Text.blank_nil⟩
      ⟨" ", ',', "\u3000 ", rfl, hblank.1, rfl, hblank.2⟩
  have hparse : Alternative.parse s = .ok [⟨"norange", some "1-10"⟩, ⟨"oct", none⟩] :=
    ok_of_toOption (by decide +kernel)
  have hknown : [⟨"norange", some "1-10"⟩, ⟨"oct", none⟩].all (Alternative.isKnown r) = true := by
    decide +kernel
  have hranges : ∀ c ∈ (compile r s).clauses, c.rawArgs.isSome = true →
      ∀ p ∈ c.matcher.predicate?, p = Builtin.range := by
    intro c hc hblock p hp
    rw [compile_of_parse hparse hknown, mem_clauses_ofKnown] at hc
    obtain ⟨x, hx, -, hclause⟩ := hc
    rcases List.mem_pair.mp hx with rfl | rfl
    · obtain rfl := Option.some.inj hclause
      exact (Option.some.inj hp).symm
    · obtain rfl := Option.some.inj hclause
      cases hblock
  obtain ⟨-, hpieces, -, -, -, -, -, -, haccepts⟩ := arguments_keep_places r "-5-\t-1" hchange
  refine ⟨hchange, (hpieces 2 []).mp rfl, ?_, haccepts hranges⟩
  decide +kernel

end Expression

end Clauses

end TreeSpec
