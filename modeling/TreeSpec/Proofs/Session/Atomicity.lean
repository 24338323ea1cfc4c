import TreeSpec.Proofs.Session.Isolation

/-!
# Registrations that fail

A registration whose argument is not usable leaves the whole session as it was. The version of a
registry counts the registrations that succeeded, so a registry that is met again at the same
version has not changed.
-/

namespace TreeSpec

set_option autoImplicit false

/-- Why an argument cannot be registered, if it cannot: it is no matcher, or its text cannot be
compiled. -/
def MatcherSource.fault? : MatcherSource → Option Failure
  | unusable typeName => some (.notAMatcher typeName)
  | compiling (.error e) => some e
  | compiling (.ok _) | ready _ | compiled _ | predicate _ => none

theorem MatcherSource.fault?_eq_some {source : MatcherSource} {e : Failure} (description : Text) :
    source.fault? = some e ↔ Matcher.ofSource source description = .error e := by
  cases source with
  | unusable typeName => simp [fault?, Matcher.ofSource]
  | compiling result => cases result <;> simp [fault?, Matcher.ofSource, Except.map]
  | ready | compiled | predicate => simp [fault?, Matcher.ofSource]

namespace Request

/-- The argument of a registration. -/
def argument? : Request → Option MatcherSource
  | .act (.register _ _ source _) | .act (.registerFor _ _ source _)
  | .act (.registerShared _ source _) => some source
  | _ => none

/-- A registry is made, whether or not it finds an owner. -/
def usesIdent : Request → Bool
  | .act (.newRegistry _ _) | .act (.replaceRegistry _ _) => true
  | .act (.newValidator _ schema debug _) => (Validator.new schema debug (.new 0 [] [])).isOk
  | _ => false

variable {q : Request} {o : Owner} {builtin : Dictionary Matcher}

theorem owner?_of_makes? (h : q.makes? o = some builtin) : q.owner? = some o := by
  rcases cases_of_makes? h with ⟨id, rfl, rfl⟩ | ⟨id, schema, debug, rfl, rfl, -⟩ | ⟨id, rfl, rfl⟩
  · rfl
  · rfl
  · rfl

theorem usesIdent_of_makes? (h : q.makes? o = some builtin) : q.usesIdent = true := by
  rcases cases_of_makes? h with ⟨id, -, rfl⟩ | ⟨id, schema, debug, -, rfl, hok⟩ | ⟨id, -, rfl⟩
  · rfl
  · exact hok
  · rfl

end Request

theorem Registry.version_insertAll (r : Registry) (types : List (Text × Matcher)) :
    (r.insertAll types).version = r.version + types.length := by
  induction types generalizing r with
  | nil => rfl
  | cons t types ih =>
    refine (ih (r.insert t.1 t.2)).trans ?_
    rw [List.length_cons]
    exact Nat.succ_add_eq_add_succ ..

namespace Session

variable {s : Session} {q : Request} {o : Owner} {r r' : Registry}

theorem nextIdent_changeValidator (s : Session) (id : Text) (f : Validator → Validator) :
    (s.changeValidator id f).nextIdent = s.nextIdent := by
  unfold changeValidator
  split <;> rfl

theorem nextIdent_answer (s : Session) (q : Request) :
    (s.answer q).1.nextIdent = if q.usesIdent then s.nextIdent + 1 else s.nextIdent := by
  cases q with
  | act a =>
    cases a with
    | newRegistry | clearShared => rfl
    | registerShared name source description =>
      simp only [answer, perform_registerShared]
      cases Matcher.ofSource source description <;> rfl
    | register id name source description =>
      simp only [answer, perform_register]
      cases s.registries.get? id <;> cases Matcher.ofSource source description <;> rfl
    | newValidator id schema debug builtin =>
      have hmake := Validator.new_withRegistry schema debug (s.makeRegistry builtin) (.new 0 [] [])
      cases hnew : Validator.new schema debug (.new 0 [] []) with
      | error e =>
        rw [hnew] at hmake
        simp only [answer, perform_newValidator, hmake, Except.map, Request.usesIdent, hnew]
        rfl
      | ok v =>
        rw [hnew] at hmake
        simp only [answer, perform_newValidator, hmake, Except.map, Request.usesIdent, hnew]
        rfl
    | registerFor id name source description =>
      simp only [answer, perform_registerFor]
      cases s.validators.get? id <;> cases Matcher.ofSource source description <;> rfl
    | replaceRegistry id builtin => exact nextIdent_changeValidator s.used id _
    | setDebug id enabled => exact nextIdent_changeValidator s id _
    | validate id data =>
      simp only [answer, perform]
      cases s.validators.get? id <;> rfl
  | lookup | lookupNegated | resolve | compile | errors => rfl

/-- A registry that is there after a request was there before, or was made by it under a new
number. -/
theorem origin_of_registryOf_answer (h : (s.answer q).1.registryOf o = some r') :
    (∃ r, s.registryOf o = some r ∧ r' = r.insertAll (q.adds? o).toList) ∨
      q.owner? = some o ∧ q.usesIdent = true ∧ r'.ident = s.nextIdent := by
  cases hmakes : q.makes? o with
  | none =>
    rw [registryOf_answer hmakes] at h
    obtain ⟨r, hr, rfl⟩ := Option.map_eq_some_iff.mp h
    exact .inl ⟨r, hr, rfl⟩
  | some builtin =>
    rw [registryOf_answer_of_makes? hmakes] at h
    split at h
    · cases h
      exact .inr ⟨Request.owner?_of_makes? hmakes, Request.usesIdent_of_makes? hmakes, rfl⟩
    · cases h

/-- Every registry has a number of its own, which was given out. -/
structure Numbered (s : Session) : Prop where
  below : ∀ o r, s.registryOf o = some r → r.ident < s.nextIdent
  apart : ∀ o o' r r', s.registryOf o = some r → s.registryOf o' = some r' →
    r.ident = r'.ident → o = o'

theorem numbered_empty : empty.Numbered := by
  have hnone : ∀ o, empty.registryOf o = none := by
    intro o
    cases o <;> rfl
  constructor
  · intro o r hr
    rw [hnone] at hr
    cases hr
  · intro o o' r r' hr
    rw [hnone] at hr
    cases hr

theorem ident_insertAll (r : Registry) (types : List (Text × Matcher)) :
    (r.insertAll types).ident = r.ident :=
  (r.insertAll_own types).2.2.2

theorem Numbered.answer (h : s.Numbered) (q : Request) : (s.answer q).1.Numbered := by
  -- The number of a registry that was there before is below that of one that is made now.
  have hident : ∀ {o : Owner} {r' : Registry}, (s.answer q).1.registryOf o = some r' →
      (∃ r, s.registryOf o = some r ∧ r'.ident = r.ident ∧ r'.ident < s.nextIdent) ∨
        q.owner? = some o ∧ q.usesIdent = true ∧ r'.ident = s.nextIdent := by
    intro o r' hr'
    rcases origin_of_registryOf_answer hr' with ⟨r, hr, rfl⟩ | hnew
    · rw [ident_insertAll]
      exact .inl ⟨r, hr, rfl, h.below o r hr⟩
    · exact .inr hnew
  constructor
  · intro o r' hr'
    rw [nextIdent_answer]
    rcases hident hr' with ⟨r, -, -, hlt⟩ | ⟨-, huses, heq⟩
    · split <;> omega
    · rw [if_pos huses]
      omega
  · intro o o' r r' hr hr' heq
    rcases hident hr with ⟨p, hp, hpident, hlt⟩ | ⟨ho, -, hnew⟩
    · rcases hident hr' with ⟨p', hp', hpident', -⟩ | ⟨-, -, hnew'⟩
      · exact h.apart o o' p p' hp hp' (by omega)
      · omega
    · rcases hident hr' with ⟨p', -, -, hlt'⟩ | ⟨ho', -, -⟩
      · omega
      · rw [ho] at ho'
        exact Option.some.inj ho'

theorem Numbered.after (h : s.Numbered) (qs : List Request) : (s.after qs).Numbered := by
  induction qs generalizing s with
  | nil => exact h
  | cons q qs ih => exact ih (h.answer q)

/-- A registry that is there after requests has a new number, or it was there and was added to. -/
theorem origin_of_registryOf_after {qs : List Request} (h : (s.after qs).registryOf o = some r') :
    s.nextIdent ≤ r'.ident ∨
      ∃ r types, s.registryOf o = some r ∧ r' = r.insertAll types := by
  induction qs generalizing s with
  | nil => exact .inr ⟨r', [], h, rfl⟩
  | cons q qs ih =>
    rcases ih h with hnew | ⟨r, types, hr, rfl⟩
    · rw [nextIdent_answer] at hnew
      left
      split at hnew <;> omega
    · rcases origin_of_registryOf_answer hr with ⟨p, hp, rfl⟩ | ⟨-, -, hnew⟩
      · exact .inr ⟨p, _, hp, List.foldl_append.symm⟩
      · left
        rw [ident_insertAll]
        exact Nat.le_of_eq hnew.symm

/-- A registry that is met again at the same version is as it was. -/
theorem Numbered.eq_of_version_eq (hs : s.Numbered) {qs : List Request} {o' : Owner}
    (hr : s.registryOf o = some r) (hr' : (s.after qs).registryOf o' = some r')
    (hident : r'.ident = r.ident) (hversion : r'.version = r.version) : r' = r := by
  have hbelow := hs.below o r hr
  rcases origin_of_registryOf_after hr' with hnew | ⟨p, types, hp, rfl⟩
  · omega
  · rw [ident_insertAll] at hident
    obtain rfl := hs.apart o' o p r hp hr hident
    obtain rfl := Option.some.inj (hp.symm.trans hr)
    rw [Registry.version_insertAll] at hversion
    have hnone : types = [] := List.length_eq_zero_iff.mp (by omega)
    rw [hnone]
    rfl

/-- Where the argument of a registration has a fault, the registration fails for it and nothing else
happens. -/
theorem answer_of_fault {source : MatcherSource} {e : Failure} (hq : q.argument? = some source)
    (he : source.fault? = some e) :
    (s.answer q).1 = s ∧
      ((∀ o, q.owner? = some o → (s.registryOf o).isSome) →
        (s.answer q).2 = .effect (.fail e)) := by
  have hfails : ∀ description, Matcher.ofSource source description = .error e :=
    fun description => (MatcherSource.fault?_eq_some description).mp he
  cases q with
  | act a =>
    cases a with
    | register id name source' description =>
      obtain rfl := Option.some.inj hq
      simp only [answer, perform_register, hfails]
      cases hr : s.registries.get? id with
      | none =>
        refine ⟨rfl, fun howner => ?_⟩
        have hsome := howner (.registry id) rfl
        rw [registryOf, hr] at hsome
        cases hsome
      | some r => exact ⟨rfl, fun _ => rfl⟩
    | registerShared name source' description =>
      obtain rfl := Option.some.inj hq
      simp only [answer, perform_registerShared, hfails]
      exact ⟨trivial, fun _ => trivial⟩
    | registerFor id name source' description =>
      obtain rfl := Option.some.inj hq
      simp only [answer, perform_registerFor, hfails]
      cases hv : s.validators.get? id with
      | none =>
        refine ⟨rfl, fun howner => ?_⟩
        have hsome := howner (.validator id) rfl
        rw [registryOf, hv] at hsome
        cases hsome
      | some v => exact ⟨rfl, fun _ => rfl⟩
    | newRegistry | clearShared | newValidator | replaceRegistry | setDebug | validate => cases hq
  | lookup | lookupNegated | resolve | compile | errors => cases hq

/-- After any requests, a registration that fails, which it does for each argument that has a fault,
leaves the session as it was, and all later requests have the answers that they would have without
it. The version of a registry is the number of types that were added to it since it was made, and at
a later time the same registry with the same version resolves every name alike. -/
theorem failed_registration_leaves_session (before : List Request) :
    let s := empty.after before
    (∀ q source e, q.argument? = some source → source.fault? = some e →
      (s.answer q).1 = s ∧
      ((∀ o, q.owner? = some o → (s.registryOf o).isSome) → (s.answer q).2 = .effect (.fail e)) ∧
      ∀ later, s.course (q :: later) = (q, (s.answer q).2) :: s.course later) ∧
    (∀ o r, s.registryOf o = some r → ∃ past q since builtin, before = past ++ q :: since ∧
      q.makes? o = some builtin ∧ (∀ p ∈ since, p.makes? o = none) ∧
      r.version = (since.filterMap (·.adds? o)).length) ∧
    ∀ later o o' r r', s.registryOf o = some r → (s.after later).registryOf o' = some r' →
      r'.ident = r.ident → r'.version = r.version → ∀ name, r'.resolve name = r.resolve name := by
  intro s
  refine ⟨?_, ?_, ?_⟩
  · intro q source e hq he
    obtain ⟨hsame, hanswer⟩ := answer_of_fault (s := s) hq he
    refine ⟨hsame, hanswer, fun later => ?_⟩
    rw [course, hsame]
  · intro o r hr
    obtain ⟨past, q, since, builtin, hbefore, hq, hsince, hregistry⟩ := registryOf_eq_some hr
    refine ⟨past, q, since, builtin, hbefore, hq, hsince, ?_⟩
    rw [hregistry, Registry.version_insertAll]
    exact Nat.zero_add _
  · intro later o o' r r' hr hr' hident hversion name
    rw [(numbered_empty.after before).eq_of_version_eq hr hr' hident hversion]

/-- A type is registered twice, and then two registrations fail, one of them of a type that is
shared. -/
theorem session_after_unusable_arguments :
    let before : List Request := [.act (.newRegistry "_" []),
      .act (.register "_" "a" (.ready (.undefined "1")) ""),
      .act (.register "_" "a" (.ready (.undefined "2")) "")]
    let own : Request := .act (.register "_" "a" (.unusable "int") "")
    let shared : Request := .act (.registerShared "a" (.text "(") "")
    let s := empty.after before
    (s.answer own).1 = s ∧ (s.answer own).2 = .effect (.fail (.notAMatcher "int")) ∧
      (s.answer shared).1 = s ∧ (s.answer shared).2 = .effect (.fail .badPattern) ∧
      ∃ r r', s.registryOf (.registry "_") = some r ∧ r.version = 2 ∧
        (s.after [own, shared]).registryOf (.registry "_") = some r' ∧
        r'.resolve "noa" = r.resolve "noa" := by
  intro before own shared s
  obtain ⟨hfails, -, hresolve⟩ := failed_registration_leaves_session before
  have hpattern : (MatcherSource.text "(").fault? = some .badPattern := by decide +kernel
  have hthere : ∀ o, own.owner? = some o → (s.registryOf o).isSome := by
    intro o ho
    obtain rfl := Option.some.inj ho
    rfl
  obtain ⟨hown, hownAnswer, -⟩ := hfails own _ _ rfl rfl
  have hnowhere : ∀ o, shared.owner? = some o → (s.registryOf o).isSome := by
    intro o ho
    cases ho
  obtain ⟨hshared, hsharedAnswer, -⟩ := hfails shared _ _ rfl hpattern
  refine ⟨hown, hownAnswer hthere, hshared, hsharedAnswer hnowhere, ?_⟩
  have hlater : s.after [own, shared] = s := (congrArg (after · [shared]) hown).trans hshared
  have hr : s.registryOf (.registry "_") = some ((Registry.new 0 [] []).insertAll
      [("a", .undefined "1"), ("a", .undefined "2")]) := rfl
  have hr' : (s.after [own, shared]).registryOf (.registry "_") = _ :=
    (congrArg (registryOf · (.registry "_")) hlater).trans hr
  exact ⟨_, _, hr, rfl, hr', hresolve [own, shared] _ _ _ _ hr hr' rfl rfl "noa"⟩

end Session

end TreeSpec
