import TreeSpec.Proofs.Service.Faults
import TreeSpec.Proofs.Walk.Calls

/-!
# The calls of a check

Whatever was done before, and whatever is kept from it, the calls that a check makes can be listed
from the schema, the data and the present state of the registry.
-/

namespace TreeSpec

set_option autoImplicit false

theorem Event.calls_lasting (events : List Event) :
    (events.flatMap Event.lasting).filterMap Event.call? = events.filterMap Event.call? := by
  refine Event.filterMap_flatMap (fun e => ?_) events
  rcases e with c | n | e
  · rfl
  · cases n <;> rfl
  · rfl

namespace Validator

theorem calls_inspect (v : Validator) (data : Value) :
    (v.inspect data).2.trace.filterMap Event.call? =
      ((v.schema.encounters [] data).takeWhile Encounter.isReadable).flatMap
        (Encounter.calls v.registry) :=
  (v.filterMap_trace_inspect (fun _ => rfl) data).trans
    (Node.calls_inspect v.setting [] v.schema data)

end Validator

namespace Service

end Service

end TreeSpec
