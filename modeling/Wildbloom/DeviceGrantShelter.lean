import Wildbloom.DeviceGrantTrust

/-!
# No delegated claim is stranded

Every key that holds a friend claim is a member, so that a later sweep hands
the claim to the owner.

A sweep takes a key out when no write of it is in flight and its claims are
moved.  From the moment it found none in flight no write of the key is let
through: the key is not active, and the rows do not change under the lock.
A revert takes keys out without looking at their claims, so a key that became
a member with the reverted grant must not get any before the core has answered.
A write the gate let through as one of an unknown key is not counted at all.
-/

namespace Wildbloom
namespace DeviceGrants

open Runs

variable {Key Hash : Type} [DecidableEq Key]

/-- A grant that found the key no member may still revert. -/
def Request.Awaits (key : Key) : Request Key Hash → Prop
  | .grant work => ∃ pending, work.pc.pending = some pending ∧ (key, none) ∈ pending.members
  | _ => False

def State.Settled (state : State Key Hash) (key : Key) : Prop :=
  ∀ id request, state.requests id = some request → ¬request.Awaits key

/-- The step leaves no claim behind: a revert meets no write of a key it takes
out; a write that makes a friend claim was counted; neither such a write nor a
hand-back is for a key whose first grant may still revert; and a claim the
store refuses to move is gone. -/
def ShelteringStep (config : Config Key) (state : State Key Hash) : Action Key Hash → Prop
  | .advance id outcome =>
    SafeRevertStep config state (.advance id outcome) ∧
    (∀ grant pending, state.requests id = some (.grant grant) → grant.pc = .revert pending →
      state.shared.rows.grants.lookup grant.event.device = some grant.event.row →
        ∀ key, (key, none) ∈ pending.members → state.shared.inFlight key = 0) ∧
    (∀ write counted, state.requests id = some (.write write) → write.pc = .land counted →
      outcome = .ok → write.key ∈ state.shared.core →
        counted = true ∧ state.Settled write.key) ∧
    (∀ sweep key moved todo due, state.requests id = some (.sweep sweep) →
      sweep.pc = .restoring key (moved :: todo) due → outcome = .ok ∨ outcome = .failedAfter →
        state.Settled key) ∧
    ∀ sweep key member claim page full ended, state.requests id = some (.sweep sweep) →
      sweep.pc = .moving key member (claim :: page) full ended →
      outcome = .refused → claim ∉ state.shared.claims
  | _ => True

theorem ShelteringStep.safe {config : Config Key} {state : State Key Hash}
    {action : Action Key Hash} (hguard : ShelteringStep config state action) :
    SafeRevertStep config state action := by
  cases action with
  | advance id outcome => exact hguard.1
  | _ => trivial

/-- The claims of the keys a sweep takes out are moved, or on its page. -/
structure Sweep.Clears (config : Config Key) (shared : Shared Key Hash)
    (sweep : Sweep Key Hash) : Prop where
  restoring : ∀ key todo due, sweep.pc = .restoring key todo due → key ∈ sweep.snapshot.members ∧
      sweep.snapshot.keyActive config sweep.now key = true
  transferred : ∀ entry ∈ sweep.transferred, ∀ claim ∈ shared.claims, claim.1 ≠ entry.1
  attempted : ∀ key, sweep.pc.current = some key →
    ∀ claim ∈ sweep.attempted, claim.1 = key ∧ claim ∉ shared.claims
  keys : ∀ key member page full ended, sweep.pc = .moving key member page full ended →
      ∀ claim ∈ page, claim.1 = key
  page : ∀ key member page ended, sweep.pc = .moving key member page false ended →
      ∀ claim ∈ shared.claims, claim.1 = key → claim ∈ page

def Request.Sheltered (config : Config Key) (shared : Shared Key Hash) : Request Key Hash → Prop
  | .write work => work.pc = .land true → work.key ∈ shared.rows.members
  | .sweep work => work.pc.isLocked = true → work.Clears config shared
  | .grant work => ∀ key, (Request.grant work : Request Key Hash).Awaits key →
      ∀ claim ∈ shared.claims, claim.1 ≠ key
  | .revoke _ => True

structure Sheltering (config : Config Key) (state : State Key Hash) : Prop where
  counted : ∀ key, state.shared.inFlight key = state.sum (Request.counts key)
  claims : ∀ claim ∈ state.shared.claims, claim.1 ∈ state.shared.rows.members
  sheltered : ∀ id request, state.requests id = some request → request.Sheltered config state.shared
  closing : ∀ id request, state.requests id = some request →
    ∀ key ∈ request.closes, state.Closed key

variable {config : Config Key} {group : Key → Bool} {state : State Key Hash}
  {id : ℕ} {shared : Shared Key Hash} {outcome : Outcome}
  {request next : Request Key Hash} {key : Key}

/-- Claims may go; new claims are of keys the sweep has not closed. -/
theorem Sweep.Clears.change {sweep : Sweep Key Hash}
    {before after : Shared Key Hash} (hclears : sweep.Clears config before)
    (hclaims : ∀ claim ∈ after.claims, claim ∈ before.claims ∨ claim.1 ∉ sweep.closed) :
    sweep.Clears config after := by
  constructor
  · exact hclears.restoring
  · intro entry hentry claim hclaim heq
    rcases hclaims claim hclaim with hold | hnew
    · exact hclears.transferred entry hentry claim hold heq
    · apply hnew
      rw [heq]
      exact Sweep.transferred_mem_closed hentry
  · intro key hcurrent claim hattempted
    obtain ⟨hkey, hgone⟩ := hclears.attempted key hcurrent claim hattempted
    refine ⟨hkey, ?_⟩
    intro hclaim
    rcases hclaims claim hclaim with hold | hnew
    · exact hgone hold
    · apply hnew
      rw [hkey]
      exact Sweep.current_mem_closed hcurrent
  · exact hclears.keys
  · intro key member page ended hpc claim hclaim heq
    rcases hclaims claim hclaim with hold | hnew
    · exact hclears.page key member page ended hpc claim hold heq
    · exfalso
      apply hnew
      rw [heq]
      apply Sweep.current_mem_closed
      rw [hpc]
      rfl

/-! ## Steps -/

/-- What a step of request `id` keeps.  Members go only when their key is
closed and holds no claim; new claims are of members whose key no other
request closes or awaits. -/
theorem Sheltering.put (hgood : Sheltering config state)
    (hflies : Flying config (state.put id (shared, next)))
    (hmembers : ∀ key ∈ state.shared.rows.members, key ∈ shared.rows.members ∨
        state.Closed key ∧ ∀ claim ∈ state.shared.claims, claim.1 ≠ key)
    (hclaims : ∀ claim ∈ shared.claims, claim ∈ state.shared.claims ∨
      claim.1 ∈ shared.rows.members ∧
        ∀ other found, other ≠ id → state.requests other = some found →
          claim.1 ∉ found.closes ∧ ¬found.Awaits claim.1)
    (hnext : next.Sheltered config shared) : Sheltering config (state.put id (shared, next)) := by
  refine ⟨hflies.counted, ?_, ?_, hflies.closing⟩
  · intro claim hclaim
    rcases hclaims claim hclaim with hold | ⟨hmember, _⟩
    · rcases hmembers claim.1 (hgood.claims claim hold) with hkept | hgone
      · exact hkept
      · exact absurd rfl (hgone.2 claim hold)
    · exact hmember
  · apply Pool.forall_put
    · exact hnext
    · intro other found hother hfound
      have hshelter := hgood.sheltered other found hfound
      cases found with
      | revoke => trivial
      | grant work =>
        intro key hawaits claim hclaim heq
        rcases hclaims claim hclaim with hold | ⟨_, hnew⟩
        · exact hshelter key hawaits claim hold heq
        · exact (hnew other _ hother hfound).2 (heq ▸ hawaits)
      | write work =>
        intro hland
        rcases hmembers work.key (hshelter hland) with hkept | hgone
        · exact hkept
        · exact absurd (if_pos hland) (hgone.1 other _ hfound)
      | sweep work =>
        intro hlocked
        apply (hshelter hlocked).change
        intro claim hclaim
        rcases hclaims claim hclaim with hold | ⟨_, hnew⟩
        · exact Or.inl hold
        · right
          have hnot := (hnew other _ hother hfound).1
          rw [Request.closes, if_pos hlocked] at hnot
          exact hnot

theorem Sheltering.start (hgood : Sheltering config state)
    (hflies : Flying config (state.start request))
    (hshelter : request.Sheltered config state.shared) : Sheltering config (state.start request) :=
  ⟨hflies.counted, hgood.claims, Pool.forall_start hshelter hgood.sheltered, hflies.closing⟩

theorem Sheltering.change (hgood : Sheltering config state)
    (hflies : Flying config { state with shared := shared })
    (hrows : shared.rows = state.shared.rows)
    (hclaims : ∀ claim ∈ shared.claims, claim ∈ state.shared.claims) :
    Sheltering config { state with shared := shared } := by
  refine ⟨hflies.counted, ?_, ?_, hflies.closing⟩
  · intro claim hclaim
    simp only [hrows]
    exact hgood.claims claim (hclaims claim hclaim)
  · intro other found hfound
    have hshelter := hgood.sheltered other found hfound
    cases found with
    | revoke => trivial
    | grant work =>
      intro key hawaits claim hclaim
      exact hshelter key hawaits claim (hclaims claim hclaim)
    | write work =>
      intro hland
      simp only [hrows]
      exact hshelter hland
    | sweep work =>
      intro hlocked
      apply (hshelter hlocked).change
      intro claim hclaim
      exact Or.inl (hclaims claim hclaim)

end DeviceGrants
end Wildbloom
