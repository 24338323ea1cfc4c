import TreeSpec.Proofs.Registry.Lookup
import TreeSpec.Proofs.Spec.Compilation

/-!
# What registering a type changes

A type that is registered is found under its name and, if no type has the name with `no` in front,
inverted under that. All other names stand for what they stood for, so a spec that uses neither name
is compiled as before, and a spec that was valid stays so.
-/

namespace TreeSpec

set_option autoImplicit false

namespace Registry

variable {r : Registry} {name other : Text} {m : Matcher}

theorem lookupNegated_insert_of_ne (h : other ≠ "no" ++ name) :
    (r.insert name m).lookupNegated other = r.lookupNegated other := by
  unfold lookupNegated
  cases hb : negationBase? other with
  | none => rfl
  | some base =>
    have hbase : base ≠ name := by
      rintro rfl
      exact h (negationBase?_eq_some.mp hb).1
    have hlookup : (r.insert name m).lookup base = r.lookup base := by
      rw [lookup_insert, if_neg hbase]
    rw [Option.bind_eq_bind, Option.bind_some, Option.bind_eq_bind, Option.bind_some, hlookup]

/-- Only the name and its negation are affected. -/
theorem resolve_insert_of_ne (hname : other ≠ name) (hno : other ≠ "no" ++ name) :
    (r.insert name m).resolve other = r.resolve other := by
  have hlookup : (r.insert name m).lookup other = r.lookup other := by
    rw [lookup_insert, if_neg hname]
  unfold resolve
  rw [hlookup, lookupNegated_insert_of_ne hno]

theorem resolve_insert_self : (r.insert name m).resolve name = some ⟨name, m, false⟩ := by
  apply resolve_of_lookup
  rw [lookup_insert, if_pos rfl]

/-- The negation of the name, unless a type bears it. -/
theorem resolve_insert_negation (hne : name ≠ []) :
    (r.insert name m).resolve ("no" ++ name) =
      match r.lookup ("no" ++ name) with
      | some exact => some ⟨"no" ++ name, exact, false⟩
      | none => some ⟨name, .negated m, true⟩ := by
  have hlonger : ("no" ++ name : Text) ≠ name := by
    intro h
    have hlength := congrArg List.length h
    rw [List.length_append] at hlength
    have htwo : ("no" : Text).length = 2 := rfl
    omega
  have hlookup : (r.insert name m).lookup ("no" ++ name) = r.lookup ("no" ++ name) := by
    rw [lookup_insert, if_neg hlonger]
  cases hl : r.lookup ("no" ++ name) with
  | some exact =>
    apply resolve_of_lookup
    rw [hlookup, hl]
  | none =>
    apply resolve_negation hne
    · rw [lookup_insert, if_pos rfl]
    · rw [hlookup, hl]

theorem isSome_lookup_insert (h : (r.lookup other).isSome) :
    ((r.insert name m).lookup other).isSome := by
  rw [lookup_insert]
  split
  · rfl
  · exact h

/-- A name that stood for something still does, though perhaps for something else. -/
theorem isRegistered_insert (h : r.isRegistered other = true) :
    (r.insert name m).isRegistered other = true := by
  rw [isRegistered_iff] at h ⊢
  rcases h with h | ⟨base, hother, hne, hbase⟩
  · exact .inl (isSome_lookup_insert h)
  · exact .inr ⟨base, hother, hne, isSome_lookup_insert hbase⟩

end Registry

namespace Registry

/-- A type that is registered stands under its name, and inverted under the name with `no` in front
unless a type has that name. No other name is affected, nor is a spec that uses neither name, the
reserved word apart, and all specs that were valid stay valid. -/
theorem register_touches_two_names {r r' : Registry} {name description : Text}
    {source : MatcherSource} (h : r.register name source description = .ok r') :
    ∃ m, Matcher.ofSource source description = .ok m ∧
      (∀ other, other ≠ name → other ≠ "no" ++ name → r'.resolve other = r.resolve other) ∧
      r'.resolve name = some ⟨name, m, false⟩ ∧
      (name ≠ [] → r'.resolve ("no" ++ name) =
        match r.lookup ("no" ++ name) with
        | some exact => some ⟨"no" ++ name, exact, false⟩
        | none => some ⟨name, .negated m, true⟩) ∧
      (∀ spec, (∀ xs, Alternative.parse spec = .ok xs → ∀ x ∈ xs, x.isOptional = false →
          x.name ≠ name ∧ x.name ≠ "no" ++ name) →
        Expression.compile r' spec = Expression.compile r spec) ∧
      ∀ spec, (Expression.compile r spec).isValid = true →
        (Expression.compile r' spec).isValid = true := by
  rw [register_eq] at h
  obtain ⟨m, hm, rfl⟩ := ok_of_map h
  refine ⟨m, hm, ?_, resolve_insert_self, resolve_insert_negation, ?_, ?_⟩
  · intro other hname hno
    exact resolve_insert_of_ne hname hno
  · intro spec hnames
    apply Expression.compile_congr
    intro xs hparse x hx hoptional
    obtain ⟨hname, hno⟩ := hnames xs hparse x hx hoptional
    exact resolve_insert_of_ne hname hno
  · intro spec hvalid
    exact Expression.isValid_compile_mono (fun _ => isRegistered_insert) hvalid

/-- The inversion of a type that was there before gives way to the new type of that name, and a type
whose name starts like a negation stays. -/
theorem resolve_of_type_that_was_an_inversion :
    let r := Registry.new 0 [("c", .undefined "1"), ("nonoc", .undefined "2")] []
    ∃ r', r.register "noc" (.ready (.undefined "3")) "" = .ok r' ∧
      r.resolve "noc" = some ⟨"c", .negated (.undefined "1"), true⟩ ∧
      r'.resolve "noc" = some ⟨"noc", .undefined "3", false⟩ ∧
      r'.resolve "nonoc" = some ⟨"nonoc", .undefined "2", false⟩ ∧
      (Expression.compile r' "noc | optional").isValid = true ∧
      Expression.compile r' "c( 1-) | optional" = Expression.compile r "c( 1-) | optional" := by
  intro r
  have hregister : r.register "noc" (.ready (.undefined "3")) "" =
      .ok (r.insert "noc" (.undefined "3")) := rfl
  obtain ⟨m, hm, -, hself, hno, hsame, hvalid⟩ := register_touches_two_names hregister
  cases hm
  have hparse : (Alternative.parse "c( 1-) | optional").toOption =
      some [⟨"c", some " 1-"⟩, ⟨"optional", none⟩] := by decide +kernel
  refine ⟨_, hregister, rfl, hself, hno (by decide), hvalid _ (by decide +kernel), hsame _ ?_⟩
  intro xs hxs x hx _
  rw [hxs] at hparse
  obtain rfl : xs = [⟨"c", some " 1-"⟩, ⟨"optional", none⟩] := Option.some.inj hparse
  rcases List.mem_cons.mp hx with rfl | hx
  · decide
  · obtain rfl := List.mem_singleton.mp hx
    decide

end Registry

end TreeSpec
