import TreeSpec.Builtin.Types
import TreeSpec.Proofs.Pattern.Texts
import TreeSpec.Proofs.Registry.Negation
import TreeSpec.Proofs.Spec.Clauses

/-!
# Variables in a text

The type `vars` looks for a dollar sign with a name behind it, anywhere in the value. The name may
stand in parentheses or in braces. Of a bare name the first character is enough, as the others are a
part of what follows.
-/

namespace TreeSpec

set_option autoImplicit false

namespace Text

/-- What a dollar sign needs behind it to be a variable. -/
inductive VariableName : Text → Prop where
  | bare {c : CodePoint} (h : isWord c = true) : VariableName [c]
  | parenthesized {name : Text} (h : name.Name) : VariableName ("(" ++ name ++ ")")
  | inBraces {name : Text} (h : name.Name) : VariableName ("\x7b" ++ name ++ "\x7d")

/-- A variable stands somewhere in the text. -/
def HasVariable (t : Text) : Prop :=
  ∃ before name after : Text, name.VariableName ∧ t = before ++ "$" ++ name ++ after

variable {t longer : Text}

theorem hasVariable_iff_occurs :
    t.HasVariable ↔ ∃ name : Text, name.VariableName ∧ ("$" ++ name : Text) <:+: t := by
  constructor
  · rintro ⟨before, name, after, hname, rfl⟩
    exact ⟨name, hname, before, after, by simp only [List.append_assoc]⟩
  · rintro ⟨name, hname, before, after, rfl⟩
    exact ⟨before, name, after, hname, by simp only [List.append_assoc]⟩

/-- A variable is not lost when more is written around the text. -/
theorem HasVariable.of_part (h : t.HasVariable) (hpart : t <:+: longer) : longer.HasVariable := by
  obtain ⟨name, hname, hfound⟩ := hasVariable_iff_occurs.mp h
  exact hasVariable_iff_occurs.mpr ⟨name, hname, hfound.trans hpart⟩

end Text

namespace Builtin

variable {t : Text}

/-- A name in brackets, or one without. -/
def varName : Regex :=
  .choice [wordChar.plus, .concat [lit '(', wordChar.plus, lit ')'],
    .concat [lit '\x7b', wordChar.plus, lit '\x7d']]

theorem mem_texts_name : t ∈ wordChar.plus.texts ↔ t.Name := by
  unfold wordChar
  rw [Regex.mem_texts_plus_set]
  simp only [CharSet.contains_of, List.any_cons, List.any_nil, Bool.or_false, SetItem.contains,
    Category.contains]
  rfl

/-- A name between two characters. -/
theorem mem_texts_enclosed (left right : CodePoint) :
    t ∈ (Regex.concat [lit left, wordChar.plus, lit right]).texts ↔
      ∃ name : Text, name.Name ∧ t = [left] ++ name ++ [right] := by
  have hparts : (Regex.concat [lit left, wordChar.plus, lit right]).texts =
      {[left]} * (wordChar.plus.texts * {[right]}) := by
    rw [Regex.texts_concat_cons, Regex.texts_concat_pair, Regex.texts_lit, Regex.texts_lit]
  rw [hparts]
  constructor
  · rintro ⟨_, rfl, _, ⟨name, hname, _, rfl, rfl⟩, rfl⟩
    exact ⟨name, mem_texts_name.mp hname, rfl⟩
  · rintro ⟨name, hname, rfl⟩
    exact ⟨[left], rfl, name ++ [right], ⟨name, mem_texts_name.mpr hname, [right], rfl, rfl⟩, rfl⟩

theorem mem_texts_varName :
    t ∈ varName.texts ↔ t.Name ∨ (∃ name : Text, name.Name ∧ t = "(" ++ name ++ ")") ∨
      ∃ name : Text, name.Name ∧ t = "\x7b" ++ name ++ "\x7d" := by
  unfold varName
  rw [Regex.mem_texts_choice (List.cons_ne_nil _ _)]
  simp only [List.exists_mem_cons_iff, List.not_mem_nil, false_and, exists_false, or_false,
    mem_texts_name, mem_texts_enclosed]
  rfl

theorem mem_texts_vars : t ∈ vars.body.texts ↔ ∃ name ∈ varName.texts, t = "$" ++ name := by
  have hparts : vars.body.texts = {("$" : Text)} * varName.texts := by
    have hconcat : vars.body = Regex.concat [lit '$', varName] := rfl
    rw [hconcat, Regex.texts_concat_pair, Regex.texts_lit]
    rfl
  rw [hparts]
  constructor
  · rintro ⟨_, rfl, name, hname, rfl⟩
    exact ⟨name, hname, rfl⟩
  · rintro ⟨name, hname, rfl⟩
    exact ⟨_, rfl, name, hname, rfl⟩

/-- The pattern is found where a variable stands. -/
theorem search_vars (value : Text) : vars.search value = true ↔ value.HasVariable := by
  have hsearch : vars.search value = true ↔ ∃ t ∈ vars.body.texts, t <:+: value :=
    Regex.foundIn_iff_occurs rfl value
  rw [hsearch, Text.hasVariable_iff_occurs]
  simp only [mem_texts_vars]
  constructor
  · rintro ⟨_, ⟨name, hname, rfl⟩, hfound⟩
    rcases mem_texts_varName.mp hname with hbare | ⟨inner, hinner, rfl⟩ | ⟨inner, hinner, rfl⟩
    · -- A bare name may be long, and its first character is a name behind the same sign.
      obtain ⟨c, more, rfl⟩ := List.exists_cons_of_ne_nil hbare.1
      have hshort : ("$" ++ ([c] : Text) : Text) <:+: ("$" ++ (c :: more : Text) : Text) :=
        ⟨[], more, rfl⟩
      exact ⟨[c], .bare (hbare.2 c List.mem_cons_self), hshort.trans hfound⟩
    · exact ⟨_, .parenthesized hinner, hfound⟩
    · exact ⟨_, .inBraces hinner, hfound⟩
  · rintro ⟨name, hname, hfound⟩
    refine ⟨_, ⟨name, mem_texts_varName.mpr ?_, rfl⟩, hfound⟩
    cases hname with
    | @bare c h => exact .inl ⟨List.cons_ne_nil c [], List.forall_mem_singleton.mpr h⟩
    | parenthesized h => exact .inr (.inl ⟨_, h, rfl⟩)
    | inBraces h => exact .inr (.inr ⟨_, h, rfl⟩)

/-- The type `vars`, with or without an argument block, accepts the texts that have a variable in
them, and then all texts around these. Its inversion accepts the texts that have none. -/
theorem vars_has_variable (r : Registry) (probes : Probes) (x : Alternative) (hx : x.WellFormed)
    (hname : x.name = "vars") (hvars : r.lookup "vars" = (types probes).get? "vars")
    (hnovars : r.lookup "novars" = none) :
    let accepts (x : Alternative) (value : Text) : Bool :=
      (Expression.compile r x.spelled).accepts (some value)
    (∀ value, accepts x value = true ↔ value.HasVariable) ∧
    (∀ value longer, value <:+: longer → accepts x value = true → accepts x longer = true) ∧
    ∀ value, accepts x.inverted value = true ↔ ¬ value.HasVariable := by
  intro accepts
  obtain ⟨_, args⟩ := x
  obtain rfl : _ = ("vars" : Text) := hname
  have hword : ("vars" : Text) ≠ Alternative.optionalWord := by decide
  have hnot : (⟨"vars", args⟩ : Alternative).isOptional = false :=
    Alternative.isOptional_eq_false_iff.mpr fun h => absurd (congrArg Alternative.name h) hword
  have hmatcher :
      r.lookup "vars" = some (.pattern vars "Contains $name, $(name) or $\x7bname\x7d") := hvars
  have hask (q : Question) :
      ((Matcher.pattern vars "Contains $name, $(name) or $\x7bname\x7d").ask q).result =
      .ok (vars.search q.value) := rfl
  have haccepts (value : Text) : accepts ⟨"vars", args⟩ value = true ↔ value.HasVariable := by
    have hyes := Expression.accepts_type hx hnot hmatcher value
    rw [hask, Except.ok.injEq] at hyes
    exact hyes.trans (search_vars value)
  refine ⟨haccepts, ?_, ?_⟩
  · intro value longer hpart hvalue
    exact (haccepts longer).mpr (((haccepts value).mp hvalue).of_part hpart)
  · intro value
    have hno := Expression.accepts_inversion hx hmatcher hnovars value
    rw [hask, Except.ok.injEq, ← Bool.not_eq_true] at hno
    exact hno.trans (not_congr (search_vars value))

/-- The first sign has an open parenthesis behind it that is not closed, the second one a name in
braces. Cut off before the last brace the text has no variable. -/
theorem vars_behind_open_parenthesis :
    let r := Registry.new 0 (types World.empty.probes) []
    let accepts (x : Alternative) (value : Text) : Bool :=
      (Expression.compile r x.spelled).accepts (some value)
    accepts ⟨"vars", some " 1"⟩ "$(a$\x7bé_1\x7d-" = true ∧
      accepts (Alternative.inverted ⟨"vars", none⟩) "$(a$\x7bé_1" = true := by
  intro r accepts
  have hvalue (x : Alternative) (hx : x.WellFormed) (hname : x.name = "vars") :=
    vars_has_variable r World.empty.probes x hx hname rfl rfl
  have hname : ("vars" : Text).Name := ⟨List.cons_ne_nil _ _, by decide⟩
  have hblock : (⟨"vars", some " 1"⟩ : Alternative).WellFormed := by
    refine ⟨hname, ?_⟩
    rintro _ ⟨⟩
    decide
  have hbare : (⟨"vars", none⟩ : Alternative).WellFormed := ⟨hname, nofun⟩
  constructor
  · apply ((hvalue _ hblock rfl).1 _).mpr
    have hinner : ("é_1" : Text).Name := ⟨List.cons_ne_nil _ _, by decide +kernel⟩
    exact ⟨"$(a", _, "-", .inBraces hinner, rfl⟩
  · apply ((hvalue _ hbare rfl).2.2 _).mpr
    rw [← search_vars]
    decide +kernel

end Builtin

end TreeSpec
