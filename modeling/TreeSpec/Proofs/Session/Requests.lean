import TreeSpec.Proofs.Service.History
import TreeSpec.Session

/-!
# Requests to a session

Besides the actions there are questions, which leave the session as it is. Each registry stands
under a name of its own or belongs to a validator, and a request may make it, add to it, or be
otherwise for it.
-/

namespace TreeSpec

set_option autoImplicit false

/-- What a registry stands under. -/
inductive Owner where
  | registry (id : Text)
  | validator (id : Text)
  deriving DecidableEq

inductive Request where
  | act (a : Action)
  | lookup (o : Owner) (name : Text)
  | lookupNegated (o : Owner) (name : Text)
  | resolve (o : Owner) (name : Text)
  | compile (o : Owner) (spec : Text)
  /-- The errors of the latest check of a validator. -/
  | errors (id : Text)

inductive Answer where
  | effect (e : Effect Event Unit)
  | matcher (found : Option Matcher)
  | inversion (found : Option (Text × Matcher))
  | resolution (found : Option Resolution)
  | expression (compiled : Option Expression)
  | errors (errors : Option (List ValidationError))

def Answer.trace : Answer → List Event
  | effect e => e.trace
  | _ => []

namespace Request

/-- The builtin types of the registry that a request makes for the owner. -/
def makes? (q : Request) (o : Owner) : Option (Dictionary Matcher) :=
  match q, o with
  | .act (.newRegistry id builtin), .registry other => if id = other then some builtin else none
  | .act (.newValidator id schema debug builtin), .validator other =>
    if id = other ∧ (Validator.new schema debug (.new 0 [] [])).isOk then some builtin else none
  | .act (.replaceRegistry id builtin), .validator other =>
    if id = other then some builtin else none
  | _, _ => none

/-- The owner is there after the request, whether or not it was there before. -/
def creates (q : Request) (o : Owner) : Bool :=
  match q with
  | .act (.replaceRegistry _ _) => false
  | _ => (q.makes? o).isSome

/-- A registry is made by itself, with a validator, or in place of that of a validator. -/
theorem cases_of_makes? {q : Request} {o : Owner} {builtin : Dictionary Matcher}
    (h : q.makes? o = some builtin) :
    (∃ id, o = .registry id ∧ q = .act (.newRegistry id builtin)) ∨
    (∃ id schema debug, o = .validator id ∧ q = .act (.newValidator id schema debug builtin) ∧
      (Validator.new schema debug (.new 0 [] [])).isOk = true) ∨
    ∃ id, o = .validator id ∧ q = .act (.replaceRegistry id builtin) := by
  unfold makes? at h
  split at h
  · next id types other =>
    obtain ⟨rfl, rfl⟩ : id = other ∧ types = builtin := by simpa using h
    exact .inl ⟨id, rfl, rfl⟩
  · next id schema debug types other =>
    obtain ⟨⟨rfl, hok⟩, rfl⟩ : (id = other ∧
        (Validator.new schema debug (.new 0 [] [])).isOk = true) ∧ types = builtin := by
      simpa using h
    exact .inr (.inl ⟨id, schema, debug, rfl, rfl, hok⟩)
  · next id types other =>
    obtain ⟨rfl, rfl⟩ : id = other ∧ types = builtin := by simpa using h
    exact .inr (.inr ⟨id, rfl, rfl⟩)
  · cases h

theorem new_error_of_makes?_eq_none {id : Text} {schema : Value} {debug : Bool}
    {builtin : Dictionary Matcher}
    (h : makes? (.act (.newValidator id schema debug builtin)) (.validator id) = none) :
    ∃ e, ∀ r, Validator.new schema debug r = .error e := by
  cases hnew : Validator.new schema debug (.new 0 [] []) with
  | ok v => simp [makes?, hnew, Except.isOk, Except.toBool] at h
  | error e =>
    refine ⟨e, fun r => ?_⟩
    rw [Validator.new_withRegistry schema debug r (.new 0 [] []), hnew]
    rfl

/-- The type that a request adds to the registry of the owner, if there is one. -/
def adds? (q : Request) (o : Owner) : Option (Text × Matcher) :=
  match q, o with
  | .act (.register id name source description), .registry other
  | .act (.registerFor id name source description), .validator other =>
    if id = other then (Matcher.ofSource source description).toOption.map (name, ·) else none
  | _, _ => none

/-- What a request goes to, if it goes to one registry or one validator. -/
def owner? : Request → Option Owner
  | .act (.newRegistry id _) | .act (.register id _ _ _) => some (.registry id)
  | .act (.newValidator id _ _ _) | .act (.registerFor id _ _ _) | .act (.replaceRegistry id _)
  | .act (.setDebug id _) | .act (.validate id _) | .errors id => some (.validator id)
  | .act (.registerShared _ _ _) | .act .clearShared => none
  | .lookup o _ | .lookupNegated o _ | .resolve o _ | .compile o _ => some o

def isFor (q : Request) (o : Owner) : Bool := q.owner? = some o

theorem adds?_of_owner?_ne {q : Request} {o : Owner} (h : q.owner? ≠ some o) :
    q.adds? o = none := by
  unfold adds?
  split
  · exact if_neg fun hid => h (congrArg (some ∘ Owner.registry) hid)
  · exact if_neg fun hid => h (congrArg (some ∘ Owner.validator) hid)
  · rfl

/-- The type that a request shares with registries that will be made. -/
def shares? : Request → Option (Text × Matcher)
  | .act (.registerShared name source description) =>
    (Matcher.ofSource source description).toOption.map (name, ·)
  | _ => none

def clears : Request → Bool
  | .act .clearShared => true
  | _ => false

end Request

namespace Session

def find? (s : Session) : Owner → Option (Registry ⊕ Validator)
  | .registry id => (s.registries.get? id).map .inl
  | .validator id => (s.validators.get? id).map .inr

def registryOf (s : Session) : Owner → Option Registry
  | .registry id => s.registries.get? id
  | .validator id => (s.validators.get? id).map Validator.registry

/-- Answers a request. Questions about a name that stands for nothing have no answer. -/
def answer (s : Session) (q : Request) : Session × Answer :=
  match q with
  | .act a => ((s.perform a).1, .effect (s.perform a).2)
  | .lookup o name => (s, .matcher ((s.registryOf o).bind (·.lookup name)))
  | .lookupNegated o name => (s, .inversion ((s.registryOf o).bind (·.lookupNegated name)))
  | .resolve o name => (s, .resolution ((s.registryOf o).bind (·.resolve name)))
  | .compile o spec => (s, .expression ((s.registryOf o).map (Expression.compile · spec)))
  | .errors id => (s, .errors ((s.validators.get? id).map (·.errors)))

def after (s : Session) (qs : List Request) : Session :=
  qs.foldl (fun s q => (s.answer q).1) s

/-- The requests one after the other, each with its answer. -/
def course (s : Session) : List Request → List (Request × Answer)
  | [] => []
  | q :: qs => (q, (s.answer q).2) :: course (s.answer q).1 qs

theorem after_append (s : Session) (before later : List Request) :
    s.after (before ++ later) = (s.after before).after later :=
  List.foldl_append

end Session

/-- Registers types of the registry's own one after the other. -/
def Registry.insertAll (r : Registry) (types : List (Text × Matcher)) : Registry :=
  types.foldl (fun r t => r.insert t.1 t.2) r

namespace Session

variable {s t : Session} {q : Request} {o : Owner}

theorem registryOf_congr (h : s.find? o = t.find? o) : s.registryOf o = t.registryOf o := by
  have hmap : ∀ u : Session, u.registryOf o =
      (u.find? o).map (Sum.elim (fun r => r) Validator.registry) := by
    intro u
    cases o with
    | registry id => cases hr : u.registries.get? id <;> simp [registryOf, find?, hr]
    | validator id => cases hv : u.validators.get? id <;> simp [registryOf, find?, hv]
  rw [hmap, hmap, h]

theorem find?_putRegistry (s : Session) (id : Text) (r : Registry) (o : Owner) :
    (putRegistry id r s).find? o = if o = .registry id then some (.inl r) else s.find? o := by
  cases o with
  | registry other =>
    simp only [find?, putRegistry, Dictionary.get?_put, Owner.registry.injEq]
    split <;> rfl
  | validator other =>
    rw [if_neg (by intro h; cases h)]
    rfl

theorem find?_putValidator (s : Session) (id : Text) (v : Validator) (o : Owner) :
    (putValidator id v s).find? o = if o = .validator id then some (.inr v) else s.find? o := by
  cases o with
  | registry other =>
    rw [if_neg (by intro h; cases h)]
    rfl
  | validator other =>
    simp only [find?, putValidator, Dictionary.get?_put, Owner.validator.injEq]
    split <;> rfl

section Actions

variable (s : Session) (id name : Text) (source : MatcherSource) (description : Text)

/-- Putting back what is there changes nothing. -/
theorem putRegistry_of_get? {r : Registry} (h : s.registries.get? id = some r) :
    putRegistry id r s = s := by
  rw [putRegistry, Dictionary.put_of_get? h]

theorem putValidator_of_get? {v : Validator} (h : s.validators.get? id = some v) :
    putValidator id v s = s := by
  rw [putValidator, Dictionary.put_of_get? h]

theorem perform_register : s.perform (.register id name source description) =
    match s.registries.get? id, Matcher.ofSource source description with
    | none, _ => (s, pure ())
    | some r, .ok m => (putRegistry id (r.insert name m) s, pure ())
    | some _, .error e => (s, .fail e) := by
  unfold perform
  simp only [Change.outcome_within, Registry.outcome_add]
  cases hr : s.registries.get? id with
  | none => rfl
  | some r =>
    cases Matcher.ofSource source description with
    | ok m => rfl
    | error e => exact congrArg (·, Effect.fail e) (s.putRegistry_of_get? id hr)

theorem perform_registerFor : s.perform (.registerFor id name source description) =
    match s.validators.get? id, Matcher.ofSource source description with
    | none, _ => (s, pure ())
    | some v, .ok m => (putValidator id { v with registry := v.registry.insert name m } s, pure ())
    | some _, .error e => (s, .fail e) := by
  unfold perform
  simp only [Change.outcome_within, Validator.outcome_add]
  cases hv : s.validators.get? id with
  | none => rfl
  | some v =>
    cases Matcher.ofSource source description with
    | ok m => rfl
    | error e => exact congrArg (·, Effect.fail e) (s.putValidator_of_get? id hv)

theorem perform_registerShared : s.perform (.registerShared name source description) =
    match Matcher.ofSource source description with
    | .ok m => ({ s with shared := s.shared.put name m }, pure ())
    | .error e => (s, .fail e) := by
  simp only [perform, addShared, Change.outcome_ofExcept_bind]
  cases Matcher.ofSource source description <;> rfl

theorem perform_newValidator (schema : Value) (debug : Bool) (builtin : Dictionary Matcher) :
    s.perform (.newValidator id schema debug builtin) =
      match Validator.new schema debug (s.makeRegistry builtin) with
      | .ok v => (putValidator id v s.used, pure ())
      | .error e => (s, .fail e) := by
  have hperform : s.perform (.newValidator id schema debug builtin) =
      (MonadExcept.ofExcept (Validator.new schema debug (s.makeRegistry builtin)) >>= fun v => do
        modify used
        modify (putValidator id v) : Change Session Unit).outcome s := rfl
  rw [hperform, Change.outcome_ofExcept_bind]
  cases Validator.new schema debug (s.makeRegistry builtin) <;> rfl

end Actions

theorem registries_congr {id : Text} (h : s.find? (.registry id) = t.find? (.registry id)) :
    s.registries.get? id = t.registries.get? id :=
  Option.map_injective (fun _ _ h => Sum.inl.inj h) h

theorem validators_congr {id : Text} (h : s.find? (.validator id) = t.find? (.validator id)) :
    s.validators.get? id = t.validators.get? id :=
  Option.map_injective (fun _ _ h => Sum.inr.inj h) h

/-- Actions that change one validator change no other owner. -/
theorem find?_changeValidator (s : Session) (id : Text) (f : Validator → Validator) (o : Owner) :
    (s.changeValidator id f).find? o =
      if o = .validator id then (s.validators.get? id).map fun v => .inr (f v) else s.find? o := by
  unfold changeValidator
  cases hv : s.validators.get? id with
  | some v => exact find?_putValidator s id (f v) o
  | none =>
    by_cases ho : o = .validator id
    · subst ho
      simp [find?, hv]
    · rw [if_neg ho]

theorem get?_changeValidator (s : Session) (id : Text) (f : Validator → Validator) :
    (s.changeValidator id f).validators.get? id = (s.validators.get? id).map f := by
  unfold changeValidator
  cases hv : s.validators.get? id with
  | none => exact hv
  | some v => exact (Dictionary.get?_put _ _ _ _).trans (if_pos rfl)

theorem changeValidator_shared (s : Session) (id : Text) (f : Validator → Validator) :
    (s.changeValidator id f).shared = s.shared := by
  unfold changeValidator
  split <;> rfl

/-- A request for an owner reads nothing of the session but the owner. -/
theorem answer_congr (hfor : q.owner? = some o) (hmakes : q.makes? o = none)
    (h : s.find? o = t.find? o) :
    (s.answer q).2 = (t.answer q).2 ∧ (s.answer q).1.find? o = (t.answer q).1.find? o := by
  have hregistry := registryOf_congr h
  cases q with
  | act a =>
    cases a with
    | newRegistry id builtin =>
      cases hfor
      simp [Request.makes?] at hmakes
    | register id name source description =>
      cases hfor
      have hget := registries_congr h
      simp only [answer, perform_register, hget]
      cases t.registries.get? id with
      | none => exact ⟨rfl, h⟩
      | some r =>
        cases Matcher.ofSource source description with
        | error e => exact ⟨rfl, h⟩
        | ok m => simp only [find?_putRegistry, if_true, and_self]
    | registerShared | clearShared => cases hfor
    | newValidator id schema debug builtin =>
      cases hfor
      obtain ⟨e, he⟩ := Request.new_error_of_makes?_eq_none hmakes
      simp only [answer, perform_newValidator, he]
      exact ⟨trivial, h⟩
    | registerFor id name source description =>
      cases hfor
      have hget := validators_congr h
      simp only [answer, perform_registerFor, hget]
      cases t.validators.get? id with
      | none => exact ⟨rfl, h⟩
      | some v =>
        cases Matcher.ofSource source description with
        | error e => exact ⟨rfl, h⟩
        | ok m => simp only [find?_putValidator, if_true, and_self]
    | replaceRegistry id builtin =>
      cases hfor
      simp [Request.makes?] at hmakes
    | setDebug id enabled =>
      cases hfor
      have hget := validators_congr h
      simp only [answer, perform, find?_changeValidator, hget, if_true, and_self]
    | validate id data =>
      cases hfor
      have hget := validators_congr h
      simp only [answer, perform, hget]
      cases t.validators.get? id with
      | none => exact ⟨rfl, h⟩
      | some v => simp only [find?_putValidator, if_true, and_self]
  | lookup | lookupNegated | resolve | compile =>
    cases hfor
    simp only [answer, hregistry, h, and_self]
  | errors id =>
    cases hfor
    have hget := validators_congr h
    simp only [answer, hget, h, and_self]

/-- A request for another owner, or for none, leaves the owner as it is. -/
theorem find?_answer_of_owner?_ne (hfor : q.owner? ≠ some o) :
    (s.answer q).1.find? o = s.find? o := by
  cases q with
  | act a =>
    cases a with
    | newRegistry id builtin =>
      have ho : o ≠ .registry id := fun h => hfor (congrArg some h.symm)
      exact (find?_putRegistry s.used id _ o).trans (if_neg ho)
    | register id name source description =>
      have ho : o ≠ .registry id := fun h => hfor (congrArg some h.symm)
      simp only [answer, perform_register]
      cases s.registries.get? id with
      | none => rfl
      | some r =>
        cases Matcher.ofSource source description with
        | error e => rfl
        | ok m => simp only [find?_putRegistry, if_neg ho]
    | registerShared name source description =>
      simp only [answer, perform_registerShared]
      cases Matcher.ofSource source description <;> cases o <;> rfl
    | clearShared => cases o <;> rfl
    | newValidator id schema debug builtin =>
      have ho : o ≠ .validator id := fun h => hfor (congrArg some h.symm)
      simp only [answer, perform_newValidator]
      cases Validator.new schema debug (s.makeRegistry builtin) with
      | error e => rfl
      | ok v => exact (find?_putValidator s.used id v o).trans (if_neg ho)
    | registerFor id name source description =>
      have ho : o ≠ .validator id := fun h => hfor (congrArg some h.symm)
      simp only [answer, perform_registerFor]
      cases s.validators.get? id with
      | none => rfl
      | some v =>
        cases Matcher.ofSource source description with
        | error e => rfl
        | ok m => simp only [find?_putValidator, if_neg ho]
    | replaceRegistry id builtin =>
      have ho : o ≠ .validator id := fun h => hfor (congrArg some h.symm)
      exact (find?_changeValidator s.used id _ o).trans (if_neg ho)
    | setDebug id enabled =>
      have ho : o ≠ .validator id := fun h => hfor (congrArg some h.symm)
      exact (find?_changeValidator s id _ o).trans (if_neg ho)
    | validate id data =>
      have ho : o ≠ .validator id := fun h => hfor (congrArg some h.symm)
      simp only [answer, perform]
      cases s.validators.get? id with
      | none => rfl
      | some v => simp only [find?_putValidator, if_neg ho]
  | lookup | lookupNegated | resolve | compile | errors => rfl

/-- A request that makes no registry for an owner only adds to the one that is there. -/
theorem registryOf_answer (hmakes : q.makes? o = none) :
    (s.answer q).1.registryOf o = (s.registryOf o).map (·.insertAll (q.adds? o).toList) := by
  -- Most requests add nothing and leave the owner as it is, or change another part of it.
  have hsame : ∀ t : Session, t.find? o = s.find? o → q.adds? o = none →
      t.registryOf o = (s.registryOf o).map (·.insertAll (q.adds? o).toList) := by
    intro t ht hadds
    rw [registryOf_congr ht, hadds]
    exact (Option.map_id' ..).symm
  by_cases hfor : q.owner? = some o
  · cases q with
    | act a =>
      cases a with
      | newRegistry id builtin =>
        cases hfor
        simp [Request.makes?] at hmakes
      | register id name source description =>
        cases hfor
        simp only [registryOf, answer, perform_register, Request.adds?, if_true]
        cases hr : s.registries.get? id with
        | none => exact hr
        | some r =>
          cases Matcher.ofSource source description with
          | error e => exact hr
          | ok m => exact (Dictionary.get?_put _ _ _ _).trans (if_pos rfl)
      | registerShared | clearShared => cases hfor
      | newValidator id schema debug builtin =>
        cases hfor
        obtain ⟨e, he⟩ := Request.new_error_of_makes?_eq_none hmakes
        refine hsame _ ?_ rfl
        simp only [answer, perform_newValidator, he]
      | registerFor id name source description =>
        cases hfor
        simp only [registryOf, answer, perform_registerFor, Request.adds?, if_true]
        cases hv : s.validators.get? id with
        | none => simp only [hv, Option.map_none]
        | some v =>
          cases Matcher.ofSource source description with
          | error e => exact congrArg (Option.map _) hv
          | ok m =>
            exact congrArg (Option.map _) ((Dictionary.get?_put _ _ _ _).trans (if_pos rfl))
      | replaceRegistry id builtin =>
        cases hfor
        simp [Request.makes?] at hmakes
      | setDebug id enabled =>
        cases hfor
        simp only [registryOf, answer, perform, get?_changeValidator]
        cases s.validators.get? id <;> rfl
      | validate id data =>
        cases hfor
        simp only [registryOf, answer, perform]
        cases hv : s.validators.get? id with
        | none => simp only [hv, Option.map_none]
        | some v =>
          simp only [putValidator, Dictionary.get?_put, if_true, Option.map_some,
            Validator.validate_registry]
          rfl
    | lookup | lookupNegated | resolve | compile | errors => exact hsame _ rfl rfl
  · exact hsame _ (find?_answer_of_owner?_ne hfor) (Request.adds?_of_owner?_ne hfor)

/-- A registry that is made takes the shared types as they are. -/
theorem registryOf_answer_of_makes? {builtin : Dictionary Matcher}
    (hmakes : q.makes? o = some builtin) :
    (s.answer q).1.registryOf o =
      if q.creates o || (s.registryOf o).isSome then some (s.makeRegistry builtin) else none := by
  rcases Request.cases_of_makes? hmakes with
      ⟨id, rfl, rfl⟩ | ⟨id, schema, debug, rfl, rfl, hok⟩ | ⟨id, rfl, rfl⟩
  · have hcreates : (Request.act (.newRegistry id builtin)).creates (.registry id) = true := by
      simp [Request.creates, Request.makes?]
    rw [hcreates, Bool.true_or, if_pos rfl]
    exact (Dictionary.get?_put _ _ _ _).trans (if_pos rfl)
  · have hcreates :
        (Request.act (.newValidator id schema debug builtin)).creates (.validator id) = true := by
      simp [Request.creates, Request.makes?, hok]
    rw [hcreates, Bool.true_or, if_pos rfl]
    simp only [registryOf, answer, perform_newValidator]
    rw [Validator.new_withRegistry schema debug (s.makeRegistry builtin) (.new 0 [] [])]
    cases hv : Validator.new schema debug (.new 0 [] []) with
    | error e =>
      rw [hv] at hok
      cases hok
    | ok v => simp only [Except.map, putValidator, Dictionary.get?_put, if_true, Option.map_some]
  · have hafter : (s.answer (.act (.replaceRegistry id builtin))).1.registryOf (.validator id) =
        (s.registryOf (.validator id)).map fun _ => s.makeRegistry builtin := by
      simp only [registryOf, answer, perform, get?_changeValidator, Option.map_map]
      rfl
    rw [hafter]
    cases s.registryOf (.validator id) <;> rfl

/-- Sharing a type puts it in, and nothing else but clearing changes what is shared. -/
theorem shared_answer (s : Session) (q : Request) :
    (s.answer q).1.shared =
      if q.clears then [] else q.shares?.elim s.shared fun t => s.shared.put t.1 t.2 := by
  cases q with
  | act a =>
    cases a with
    | registerShared name source description =>
      simp only [answer, perform_registerShared, Request.shares?, Request.clears]
      cases Matcher.ofSource source description <;> rfl
    | register id name source description =>
      simp only [answer, perform_register]
      cases s.registries.get? id <;> cases Matcher.ofSource source description <;> rfl
    | newValidator id schema debug builtin =>
      simp only [answer, perform_newValidator]
      cases Validator.new schema debug (s.makeRegistry builtin) <;> rfl
    | registerFor id name source description =>
      simp only [answer, perform_registerFor]
      cases s.validators.get? id <;> cases Matcher.ofSource source description <;> rfl
    | replaceRegistry id builtin => exact changeValidator_shared s.used id _
    | setDebug id enabled => exact changeValidator_shared s id _
    | validate id data =>
      simp only [answer, perform]
      cases s.validators.get? id <;> rfl
    | newRegistry id builtin => rfl
    | clearShared => rfl
  | lookup | lookupNegated | resolve | compile | errors => rfl

/-- Nothing happens on the way to an answer but in a check. -/
theorem trace_answer_of_no_check (h : ∀ id data, q ≠ .act (.validate id data)) :
    (s.answer q).2.trace = [] := by
  cases q with
  | act a =>
    cases a with
    | newRegistry | clearShared | replaceRegistry | setDebug => rfl
    | registerShared | newValidator => rfl
    | register id name source description =>
      simp only [answer, perform]
      cases s.registries.get? id <;> rfl
    | registerFor id name source description =>
      simp only [answer, perform]
      cases s.validators.get? id <;> rfl
    | validate id data => exact absurd rfl (h id data)
  | lookup | lookupNegated | resolve | compile | errors => rfl

end Session

end TreeSpec
