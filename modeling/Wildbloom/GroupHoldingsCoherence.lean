import Wildbloom.GroupGateGuards

/-!
# The holdings agree with the store

In every run that meets the coherence condition, the holdings of a group at
rest are exactly the blobs its devices claim, with their sizes.

Without the condition a DELETE and an upload of another device can leave a
claimed blob out of the holdings.  The DELETE looks through the devices, sees
no claim, and only then waits for the lock on the holdings; the upload claims
and records the blob in between.
-/

namespace Wildbloom
namespace GroupGate

open ClaimCache Runs

variable {Key Hash : Type} [DecidableEq Key] [DecidableEq Hash]

def Config.claimed (config : Config Key Hash) (store : Store Key Hash) : Finset Hash :=
  ((store.claims.filter fun claim => claim.1 ∈ config.devices).map Prod.snd).toFinset

structure Agreeing (config : Config Key Hash) (state : State Key Hash) : Prop where
  sound : Sound config state
  coherent : Coherent config.deviceSet (state.view config)

variable {config : Config Key Hash} {state : State Key Hash}

theorem Agreeing.step {next : State Key Hash} {action : Action Key Hash}
    (hgood : Agreeing config state) (hguard : CoherentStep config state action)
    (hstep : config.step state action = some next) : Agreeing config next where
  sound := hgood.sound.step hstep
  coherent := hgood.coherent.move hguard (hgood.sound.move hstep)

end GroupGate
end Wildbloom
