import TreeSpec.Builtin.Types
import TreeSpec.Proofs.Spec.Evaluation

/-!
# What probes are asked

Each builtin predicate on hosts, paths and accounts has one probe, and asks it about the text of the
value itself, if the question is sensible. A probe that fails makes its predicate fail, and an
inversion fails where the matcher under it does.
-/

namespace TreeSpec

set_option autoImplicit false

/-- Hosts are looked up under texts that the builtin pattern accepts, accounts under texts that are
not empty. -/
def Lookup.isSensible : Lookup → Bool
  | probe .host value => Builtin.hostname.search value
  | probe .user value | probe .group value => !value.isEmpty
  | probe .path _ | table _ => true

def Call.isSensible : Call → Bool
  | lookup l => l.isSensible
  | predicate _ _ => true

def Probes.ask (probes : Probes) : Probe → Text → Effect TableLookup Bool
  | .host => probes.host
  | .path => probes.path
  | .user => probes.user
  | .group => probes.group

/-- The name of the builtin type that asks the probe. -/
def Probe.typeName : Probe → Text
  | host => "resolvablehost"
  | path => "fileexists"
  | user => "user"
  | group => "group"

def Builtin.predicate (probes : Probes) : Probe → Predicate
  | .host => resolvableHost probes
  | .path => fileExists probes
  | .user => user probes
  | .group => accountGroup probes

namespace Predicate

/-- Whatever the predicate is asked, it makes sensible lookups only. -/
def Discreet (p : Predicate) : Prop := ∀ q, ∀ l ∈ (p.run q).trace, l.isSensible = true

/-- The predicate does not call probes. -/
def SparesProbes (p : Predicate) : Prop := ∀ q kind value, .probe kind value ∉ (p.run q).trace

/-- The predicate does not call probes, or it is one of the builtin ones that do. -/
def Proper (p : Predicate) : Prop :=
  p.SparesProbes ∨ ∃ probes kind, p = Builtin.predicate probes kind

end Predicate

namespace Builtin

theorem run_predicate (probes : Probes) (kind : Probe) (q : Question) :
    (predicate probes kind).run q =
      if (Lookup.probe kind q.value).isSensible then consult kind (probes.ask kind) q.value
      else pure false := by
  cases kind with
  | host | path => rfl
  | user | group =>
    obtain ⟨value, rawArgs, parsedArgs⟩ := q
    cases value <;> rfl

theorem trace_consult (kind : Probe) (probe : Text → Effect TableLookup Bool) (value : Text) :
    (consult kind probe value).trace = .probe kind value :: (probe value).trace.map .table := by
  rw [consult, Effect.emit_bind]
  exact congrArg (Lookup.probe kind value :: ·) List.map_eq_flatMap.symm

theorem result_consult (kind : Probe) (probe : Text → Effect TableLookup Bool) (value : Text) :
    (consult kind probe value).result = (probe value).result := by
  rw [consult, Effect.emit_bind]
  rfl

theorem discreet_predicate (probes : Probes) (kind : Probe) : (predicate probes kind).Discreet := by
  intro q l hl
  rw [run_predicate] at hl
  split at hl
  · next hsensible =>
    rw [trace_consult] at hl
    rcases List.mem_cons.mp hl with rfl | hl
    · exact hsensible
    · obtain ⟨t, -, rfl⟩ := List.mem_map.mp hl
      rfl
  · cases hl

theorem predicates_types (probes : Probes) : (types probes).filterMap (·.2.predicate?) =
    range :: [.host, .path, .user, .group].map (predicate probes) := rfl

theorem proper_of_get?_types {probes : Probes} {name : Text} {m : Matcher} {p : Predicate}
    (h : (types probes).get? name = some m) (hp : m.predicate? = some p) : p.Proper := by
  have hmem : p ∈ (types probes).filterMap (·.2.predicate?) :=
    List.mem_filterMap.mpr ⟨_, Dictionary.mem_of_get? h, hp⟩
  rw [predicates_types] at hmem
  rcases List.mem_cons.mp hmem with rfl | hmem
  · left
    intro q kind value
    exact List.not_mem_nil
  · obtain ⟨kind, -, rfl⟩ := List.mem_map.mp hmem
    exact .inr ⟨probes, kind, rfl⟩

theorem get?_typeName (probes : Probes) (kind : Probe) :
    ∃ description, (types probes).get? kind.typeName =
    some (.predicate (predicate probes kind) description) := by
  cases kind <;> exact ⟨_, rfl⟩

end Builtin

theorem Predicate.Proper.discreet {p : Predicate} (h : p.Proper) : p.Discreet := by
  rcases h with hspares | ⟨probes, kind, rfl⟩
  · intro q l hl
    cases l with
    | table t => rfl
    | probe kind value => exact absurd hl (hspares q kind value)
  · exact Builtin.discreet_predicate probes kind

end TreeSpec
