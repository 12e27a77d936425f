import Wildbloom.DeviceGrantMoves

/-!
# No older grant undoes a revocation

A revocation accepted for a device outlasts every grant that is not newer.  The
order of events lives in the device's row and in its marker.  A revert may take
the row back to an older one, but only while the row is the reverted grant's
own: the grants that still may revert form a stack, each above the row that it
replaced.  So when a revocation is accepted every grant that may revert is
older than it, and none of those ever finds its own row again.

All of it rests on the snapshot being what the database has.  A grant whose
commit is not read back is missed by the revocation that comes after it.
-/

namespace Wildbloom
namespace DeviceGrants

open Runs

variable {Key Hash : Type} {previous : Option (GrantRow Key)} {pending : Pending Key}

/-! ## Events that are not newer -/

/-- An event at `time` is not newer than the row and the marker. -/
def Covers (row : Option (GrantRow Key)) (marker : Option ℕ) (time : ℕ) : Prop :=
  (∃ found, row = some found ∧ time ≤ found.lastEventAt) ∨ ∃ last, marker = some last ∧ time ≤ last

namespace Covers

variable {row : Option (GrantRow Key)} {marker : Option ℕ} {time earlier : ℕ}

theorem mono (hcovers : Covers row marker time) (hle : earlier ≤ time) :
    Covers row marker earlier := by
  rcases hcovers with ⟨found, hrow, hlast⟩ | ⟨last, hmarker, hlast⟩
  · exact Or.inl ⟨found, hrow, hle.trans hlast⟩
  · exact Or.inr ⟨last, hmarker, hle.trans hlast⟩

theorem row_of_le {found : GrantRow Key} (hle : time ≤ found.lastEventAt) :
    Covers (some found) marker time :=
  Or.inl ⟨found, rfl, hle⟩

theorem marker_of_le {last : ℕ} (hle : time ≤ last) : Covers row (some last) time :=
  Or.inr ⟨last, rfl, hle⟩

theorem newMarker {last : ℕ} (hcovers : Covers row marker time)
    (hnew : ∀ old, marker = some old → old ≤ last) : Covers row (some last) time := by
  rcases hcovers with hrow | ⟨old, hmarker, hle⟩
  · exact Or.inl hrow
  · exact marker_of_le (hle.trans (hnew old hmarker))

theorem lt_of_not {later : ℕ} (hcovers : Covers row marker time)
    (hnewer : ¬Covers row marker later) : time < later := by
  by_contra hle
  exact hnewer (hcovers.mono (Nat.le_of_not_lt hle))

end Covers

namespace Rows

variable [DecidableEq Key] {rows : Rows Key} {device : Key} {time : ℕ}

def Covered (rows : Rows Key) (device : Key) (time : ℕ) : Prop :=
  Covers (rows.grants.lookup device) (rows.markers.lookup device) time

theorem covered_iff : rows.Covered device time ↔
      ∃ last, rows.lastEventAt device = some last ∧ time ≤ last := by
  unfold Rows.Covered Covers Rows.lastEventAt
  cases rows.grants.lookup device <;> cases rows.markers.lookup device <;>
    simp

theorem not_covered_of_checkGrantConflicts {config : Config Key}
    {group : Key → Bool} {event : GrantEvent Key}
    (hconflict : rows.checkGrantConflicts config group event = none) :
    ¬rows.Covered event.device event.createdAt := by
  simp only [Rows.checkGrantConflicts, Option.orElse_eq_orElse,
    Option.orElse_eq_or, Option.or_eq_none_iff] at hconflict
  obtain ⟨_, _, _, hnewer⟩ := hconflict
  rw [covered_iff]
  rintro ⟨last, hlast, hle⟩
  simp [hlast, hle] at hnewer

theorem lookup_writeGrant (row : GrantRow Key) (device : Key) :
    (rows.writeGrant row).grants.lookup device =
      if device = row.device then some row else rows.grants.lookup device := by
  by_cases heq : device = row.device
  · rw [if_pos heq, heq]
    exact AList.lookup_insert _
  · rw [if_neg heq]
    exact AList.lookup_insert_ne heq

theorem lookup_revert {captured : List (Key × Option (Member Key))}
    (hprevious : ∀ row, previous = some row → row.device = device) (other : Key) :
    (rows.revert device previous captured).grants.lookup other =
      if other = device then previous else rows.grants.lookup other := by
  simp only [Rows.revert, grants_foldl_restoreMember]
  cases previous with
  | none =>
    by_cases heq : other = device
    · rw [if_pos heq, heq]
      exact AList.lookup_erase _ _
    · rw [if_neg heq]
      exact AList.lookup_erase_ne heq
  | some row => rw [lookup_writeGrant, hprevious row rfl]

theorem markers_revert (previous : Option (GrantRow Key))
    (captured : List (Key × Option (Member Key))) :
    (rows.revert device previous captured).markers = rows.markers := by
  unfold Rows.revert
  rw [foldl_keep Rows.markers (fun _ entry => by cases entry.2 <;> rfl)]
  cases previous <;> rfl

end Rows

/-! ## What a step does to rows and markers -/

section Steps

variable {state after : State Key Hash} {id : ℕ} {next : Shared Key Hash × Request Key Hash}
  {request : Request Key Hash}

/-- Request `id` is a grant that may still revert. -/
def MayRevert (state : State Key Hash) (id : ℕ) (event : GrantEvent Key)
    (pending : Pending Key) : Prop :=
  ∃ grant, state.requests id = some (.grant grant) ∧ grant.event = event ∧
    grant.pc.pending = some pending

def HasRevoked (state : State Key Hash) (event : RevokeEvent Key) : Prop :=
  ∃ id, state.requests id = some (.revoke ⟨event, .answered .revoked⟩)

theorem mayRevert_put {other : ℕ} {event : GrantEvent Key}
    (hmay : MayRevert (state.put id next) other event pending) :
    (other = id ∧ ∃ grant, next.2 = .grant grant ∧ grant.event = event ∧
        grant.pc.pending = some pending) ∨
      other ≠ id ∧ MayRevert state other event pending := by
  obtain ⟨grant, hrequest, hevent, hpending⟩ := hmay
  rcases Pool.request_put hrequest with ⟨hid, hsame⟩ | ⟨hne, hold⟩
  · exact Or.inl ⟨hid, grant, hsame.symm, hevent, hpending⟩
  · exact Or.inr ⟨hne, grant, hold, hevent, hpending⟩

theorem hasRevoked_put {event : RevokeEvent Key} (hrevoked : HasRevoked (state.put id next) event) :
    next.2 = .revoke ⟨event, .answered .revoked⟩ ∨ HasRevoked state event := by
  obtain ⟨other, hrequest⟩ := hrevoked
  rcases Pool.request_put hrequest with ⟨_, hsame⟩ | ⟨_, hold⟩
  · exact Or.inl hsame.symm
  · exact Or.inr ⟨other, hold⟩

theorem mayRevert_start {event : GrantEvent Key}
    (hnew : ∀ grant, request = .grant grant → grant.pc.pending = none)
    (hmay : MayRevert (state.start request) id event pending) :
    MayRevert state id event pending := by
  obtain ⟨grant, hrequest, hevent, hpending⟩ := hmay
  rcases Pool.request_start hrequest with ⟨_, hsame⟩ | ⟨_, hold⟩
  · rw [hnew grant hsame.symm] at hpending
    cases hpending
  · exact ⟨grant, hold, hevent, hpending⟩

theorem hasRevoked_start {event : RevokeEvent Key} (hnew : ∀ revoke, request = .revoke revoke →
      revoke.pc ≠ .answered .revoked)
    (hrevoked : HasRevoked (state.start request) event) : HasRevoked state event := by
  obtain ⟨other, hrequest⟩ := hrevoked
  rcases Pool.request_start hrequest with ⟨_, hsame⟩ | ⟨_, hold⟩
  · exact absurd rfl (hnew _ hsame.symm)
  · exact ⟨other, hold⟩

variable [DecidableEq Key] {config : Config Key} {group : Key → Bool} {shared : Shared Key Hash}

inductive TableStep (state after : State Key Hash) : Prop
  | keep (hgrants : after.shared.rows.grants = state.shared.rows.grants)
      (hmarkers : after.shared.rows.markers = state.shared.rows.markers)
      (hpending : ∀ id event pending, MayRevert after id event pending →
        MayRevert state id event pending)
      (hrevoked : ∀ event, HasRevoked after event → HasRevoked state event)
  | commit (id : ℕ) (event : GrantEvent Key)
      (hnewer : ¬state.shared.rows.Covered event.device event.createdAt)
      (hgrants : ∀ device, after.shared.rows.grants.lookup device =
        if device = event.device then some event.row
        else state.shared.rows.grants.lookup device)
      (hmarkers : after.shared.rows.markers = state.shared.rows.markers)
      (hpending : ∀ other found pending, MayRevert after other found pending →
        other = id ∧ found = event ∧
            pending.previous = state.shared.rows.grants.lookup event.device ∨
          other ≠ id ∧ MayRevert state other found pending)
      (hrevoked : ∀ event, HasRevoked after event → HasRevoked state event)
  | revert (id : ℕ) (event : GrantEvent Key) (pending : Pending Key)
      (hmay : MayRevert state id event pending)
      (hcurrent : state.shared.rows.grants.lookup event.device = some event.row)
      (hgrants : (∀ row, pending.previous = some row → row.device = event.device) →
        ∀ device, after.shared.rows.grants.lookup device =
          if device = event.device then pending.previous
          else state.shared.rows.grants.lookup device)
      (hmarkers : after.shared.rows.markers = state.shared.rows.markers)
      (hpending : ∀ other found pending, MayRevert after other found pending →
        other ≠ id ∧ MayRevert state other found pending)
      (hrevoked : ∀ event, HasRevoked after event → HasRevoked state event)
  | revoke (event : RevokeEvent Key)
      (hnewer : ¬state.shared.rows.Covered event.device event.createdAt)
      (hrows : after.shared.rows = state.shared.rows.commitRevoke event.device
        event.createdAt state.shared.clock)
      (hpending : ∀ id event pending, MayRevert after id event pending →
        MayRevert state id event pending)
      (hrevoked : ∀ found, HasRevoked after found → found = event ∨ HasRevoked state found)

theorem tableStep_grant {work next : Grant Key} (hrequest : state.requests id = some (.grant work))
    (hmove : Grant.Move config group state.shared work shared next) :
    TableStep state (state.put id (shared, .grant next)) := by
  have hrevoked : ∀ event, HasRevoked (state.put id (shared, .grant next)) event →
        HasRevoked state event := by
    intro event hafter
    rcases hasRevoked_put hafter with hnone | hbefore
    · cases hnone
    · exact hbefore
  cases hmove with
  | quiet _ pc hclock hrows hupdates hcommit hpending =>
    refine .keep (congrArg _ hrows) (congrArg _ hrows) ?_ hrevoked
    intro other event pending hmay
    rcases mayRevert_put hmay with
      ⟨rfl, _, ⟨⟩, hevent, hafter⟩ | ⟨_, hbefore⟩
    · exact ⟨work, hrequest, hevent, hpending pending hafter⟩
    · exact hbefore
  | refuse reason hpc hfree =>
    refine .keep rfl rfl ?_ hrevoked
    intro other event pending hmay
    rcases mayRevert_put hmay with
      ⟨rfl, _, ⟨⟩, hevent, hafter⟩ | ⟨_, hbefore⟩
    · cases hafter
    · exact hbefore
  | commit _ hpc hfree hconflict hclock hupdates hrows =>
    refine .commit id work.event
      (Rows.not_covered_of_checkGrantConflicts hconflict) ?_ ?_ ?_ hrevoked
    · intro device
      simp only [Pool.shared_put, hrows]
      exact Rows.lookup_writeGrant work.event.row device
    · simp only [Pool.shared_put, hrows]
      rfl
    · intro other event pending hmay
      rcases mayRevert_put hmay with
        ⟨rfl, _, ⟨⟩, hevent, hafter⟩ | hbefore
      · cases hafter
        exact Or.inl ⟨rfl, hevent.symm, rfl⟩
      · exact Or.inr hbefore
  | revert _ pending hpc hfree hcurrent hclock hupdates hrows =>
    refine .revert id work.event pending
      ⟨work, hrequest, rfl, by rw [hpc]; rfl⟩ hcurrent ?_ ?_ ?_ hrevoked
    · intro hprevious device
      simp only [Pool.shared_put, hrows]
      exact Rows.lookup_revert hprevious device
    · simp only [Pool.shared_put, hrows]
      exact Rows.markers_revert _ _
    · intro other event found hmay
      rcases mayRevert_put hmay with
        ⟨rfl, _, ⟨⟩, hevent, hafter⟩ | hbefore
      · cases hafter
      · exact hbefore

theorem tableStep_revoke {work next : Revoke Key}
    (hmove : Revoke.Move state.shared work shared next) :
    TableStep state (state.put id (shared, .revoke next)) := by
  have hpending : ∀ other event pending,
      MayRevert (state.put id (shared, .revoke next)) other event pending →
        MayRevert state other event pending := by
    intro other event pending hmay
    rcases mayRevert_put hmay with ⟨_, _, hnone, _⟩ | ⟨_, hbefore⟩
    · cases hnone
    · exact hbefore
  cases hmove with
  | quiet pc hpc =>
    refine .keep rfl rfl hpending ?_
    intro event hafter
    rcases hasRevoked_put hafter with hnext | hbefore
    · simp only [Revoke.goto, Request.revoke.injEq, Revoke.mk.injEq] at hnext
      exact absurd hnext.2 hpc
    · exact hbefore
  | commit _ hpc hfree hnewer hclock hupdates hrows =>
    refine .revoke work.event ?_ hrows hpending ?_
    · rw [Rows.covered_iff]
      rintro ⟨last, hlast, hle⟩
      exact absurd (hnewer last hlast) (Nat.not_lt.mpr hle)
    · intro event hafter
      rcases hasRevoked_put hafter with hnext | hbefore
      · simp only [Revoke.goto, Request.revoke.injEq, Revoke.mk.injEq] at hnext
        exact Or.inl hnext.1.symm
      · exact Or.inr hbefore

/-- A step that leaves grants and markers alone and starts or ends no grant and
no revocation. -/
theorem tableStep_quiet {next : Request Key Hash}
    (hgrants : shared.rows.grants = state.shared.rows.grants)
    (hmarkers : shared.rows.markers = state.shared.rows.markers)
    (hgrant : ∀ work, next ≠ .grant work) (hrevoke : ∀ work, next ≠ .revoke work) :
    TableStep state (state.put id (shared, next)) := by
  refine .keep hgrants hmarkers ?_ ?_
  · intro other event pending hmay
    rcases mayRevert_put hmay with ⟨_, work, hnone, _⟩ | ⟨_, hbefore⟩
    · exact absurd hnone (hgrant work)
    · exact hbefore
  · intro event hafter
    rcases hasRevoked_put hafter with hnone | hbefore
    · exact absurd hnone (hrevoke _)
    · exact hbefore

/-- A step that starts a request or changes neither rows nor requests. -/
theorem tableStep_of_rows {changed : State Key Hash}
    (hrows : changed.shared.rows = state.shared.rows)
    (hpending : ∀ id event pending, MayRevert changed id event pending →
      MayRevert state id event pending)
    (hrevoked : ∀ event, HasRevoked changed event → HasRevoked state event) :
    TableStep state changed :=
  .keep (congrArg _ hrows) (congrArg _ hrows) hpending hrevoked

variable [DecidableEq Hash] {outcome : Outcome} {action : Action Key Hash}

/-- A request that moves is a grant, a revocation, or one that leaves grants and
markers alone. -/
theorem advance_cases (hsync : Synced state) (hreads : outcome.reads = true)
    (hstep : step config group state (.advance id outcome) = some after) :
    (∃ work shared next, state.requests id = some (.grant work) ∧
        Grant.Move config group state.shared work shared next ∧
        after = state.put id (shared, .grant next)) ∨
      (∃ work shared next, Revoke.Move state.shared work shared next ∧
        after = state.put id (shared, .revoke next)) ∨
      ∃ shared next, shared.rows.grants = state.shared.rows.grants ∧
        shared.rows.markers = state.shared.rows.markers ∧ (∀ work, next ≠ .grant work) ∧
        (∀ work, next ≠ .revoke work) ∧ after = state.put id (shared, next) := by
  simp only [step, Option.bind_eq_some_iff, Option.map_eq_some_iff] at hstep
  obtain ⟨request, hrequest, result, hresult, rfl⟩ := hstep
  cases request with obtain ⟨⟨shared, next⟩, hwork, rfl⟩ := Option.map_eq_some_iff.mp hresult
  | grant work =>
    exact Or.inl ⟨work, shared, next, hrequest, Grant.move_of_step hsync hreads hwork, rfl⟩
  | revoke work =>
    exact Or.inr (Or.inl ⟨work, shared, next, Revoke.move_of_step hsync hreads hwork, rfl⟩)
  | sweep work =>
    obtain ⟨hgrants, hmarkers⟩ := Sweep.step_rows hwork hsync hreads
    exact Or.inr (Or.inr ⟨shared, _, hgrants, hmarkers, by simp, by simp, rfl⟩)
  | write work =>
    have hrows := (Write.step_rows hwork).1
    exact Or.inr (Or.inr
      ⟨shared, _, congrArg _ hrows, congrArg _ hrows, by simp, by simp, rfl⟩)

theorem tableStep_of_step (hsync : Synced state) (hreads : action.reads = true)
    (hstep : step config group state action = some after) : TableStep state after := by
  cases action with
  | tick seconds | prune | deleteClaim key hash | releaseMove key hash =>
    cases hstep
    exact tableStep_of_rows rfl (fun _ _ _ hmay => hmay)
      fun _ hrevoked => hrevoked
  | grant event =>
    cases hstep
    exact tableStep_of_rows rfl
      (fun _ _ _ => mayRevert_start (by rintro _ ⟨⟩; rfl))
      fun _ => hasRevoked_start (by rintro _ ⟨⟩)
  | revoke event =>
    cases hstep
    exact tableStep_of_rows rfl (fun _ _ _ => mayRevert_start (by rintro _ ⟨⟩))
      fun _ => hasRevoked_start (by rintro _ ⟨⟩ ⟨⟩)
  | sweep | write key hash =>
    cases hstep
    exact tableStep_of_rows rfl (fun _ _ _ => mayRevert_start (by rintro _ ⟨⟩))
      fun _ => hasRevoked_start (by rintro _ ⟨⟩)
  | advance id outcome =>
    rcases advance_cases hsync hreads hstep with ⟨work, shared, next, hrequest, hmove, rfl⟩ |
      ⟨work, shared, next, hmove, rfl⟩ | ⟨shared, next, hgrants, hmarkers, hgrant, hrevoke, rfl⟩
    · exact tableStep_grant hrequest hmove
    · exact tableStep_revoke hmove
    · exact tableStep_quiet hgrants hmarkers hgrant hrevoke

end Steps

/-! ## Grants that may revert -/

variable [DecidableEq Key]

/-- Every grant that may still revert is covered by the rows, and by what any
newer one would bring back. -/
structure Stacked (state : State Key Hash) : Prop where
  keyed : ∀ device row, state.shared.rows.grants.lookup device = some row → row.device = device
  previous : ∀ id event pending, MayRevert state id event pending →
    ∀ row, pending.previous = some row → row.device = event.device
  covered : ∀ id event pending, MayRevert state id event pending →
    state.shared.rows.Covered event.device event.createdAt
  below : ∀ id event pending, MayRevert state id event pending →
    ∀ other found under, MayRevert state other found under → other ≠ id →
      found.device = event.device → found.createdAt ≠ event.createdAt ∧
        (found.createdAt < event.createdAt →
          Covers pending.previous (state.shared.rows.markers.lookup event.device) found.createdAt)

def Bars (time : ℕ) (row : Option (GrantRow Key)) (marker : Option ℕ) : Prop :=
  Covers row marker time ∧
    ∀ found, row = some found → found.revokedAt = none → time < found.grantedAt

structure Barred (event : RevokeEvent Key) (state : State Key Hash) : Prop where
  row : Bars event.createdAt (state.shared.rows.grants.lookup event.device)
    (state.shared.rows.markers.lookup event.device)
  reverts : ∀ id found pending, MayRevert state id found pending →
    found.device = event.device → event.createdAt < found.createdAt →
      Bars event.createdAt pending.previous (state.shared.rows.markers.lookup event.device)

section Invariant

variable {state after : State Key Hash}

namespace Stacked

variable (hstacked : Stacked state)
  (hmarkers : after.shared.rows.markers = state.shared.rows.markers)
include hstacked hmarkers

theorem keep (hgrants : after.shared.rows.grants = state.shared.rows.grants)
    (hpending : ∀ id event pending, MayRevert after id event pending →
      MayRevert state id event pending) : Stacked after := by
  constructor
  · rw [hgrants]
    exact hstacked.keyed
  · intro id event pending hmay
    exact hstacked.previous id event pending (hpending _ _ _ hmay)
  · intro id event pending hmay
    rw [Rows.Covered, hgrants, hmarkers]
    exact hstacked.covered id event pending (hpending _ _ _ hmay)
  · intro id event pending hmay other found under hother
    rw [hmarkers]
    exact hstacked.below id event pending (hpending _ _ _ hmay) other found
      under (hpending _ _ _ hother)

theorem commit {id : ℕ} {event : GrantEvent Key}
    (hnewer : ¬state.shared.rows.Covered event.device event.createdAt)
    (hgrants : ∀ device, after.shared.rows.grants.lookup device =
      if device = event.device then some event.row
      else state.shared.rows.grants.lookup device)
    (hpending : ∀ other found pending, MayRevert after other found pending →
      other = id ∧ found = event ∧ pending.previous = state.shared.rows.grants.lookup event.device ∨
        other ≠ id ∧ MayRevert state other found pending) : Stacked after := by
  -- Every other grant of the device is older than the new one.
  have holder : ∀ other found pending, MayRevert state other found pending →
      found.device = event.device → found.createdAt < event.createdAt := by
    intro other found pending hmay hdevice
    have hcovered := hstacked.covered other found pending hmay
    rw [hdevice] at hcovered
    exact hcovered.lt_of_not hnewer
  constructor
  · intro device row hrow
    rw [hgrants] at hrow
    split_ifs at hrow with hdevice
    · cases hrow
      exact hdevice.symm
    · exact hstacked.keyed device row hrow
  · intro other found pending hmay row hrow
    rcases hpending other found pending hmay with
      ⟨_, rfl, hprevious⟩ | ⟨_, hbefore⟩
    · rw [hprevious] at hrow
      exact hstacked.keyed _ row hrow
    · exact hstacked.previous other found pending hbefore row hrow
  · intro other found pending hmay
    rw [Rows.Covered, hgrants, hmarkers]
    rcases hpending other found pending hmay with
      ⟨_, rfl, _⟩ | ⟨_, hbefore⟩
    · rw [if_pos rfl]
      exact Covers.row_of_le (le_refl _)
    · split_ifs with hdevice
      · exact Covers.row_of_le (holder other found pending hbefore hdevice).le
      · exact hstacked.covered other found pending hbefore
  · intro upper above pending habove lower found under hfound hne hdevice
    rw [hmarkers]
    rcases hpending upper above pending habove with
      ⟨rfl, rfl, hprevious⟩ | ⟨_, habove⟩
    · rcases hpending lower found under hfound with ⟨hsame, _⟩ | ⟨_, hfound⟩
      · exact absurd hsame hne
      · have hlt := holder lower found under hfound hdevice
        refine ⟨hlt.ne, fun _ => ?_⟩
        rw [hprevious, ← hdevice]
        exact hstacked.covered lower found under hfound
    · rcases hpending lower found under hfound with
        ⟨_, rfl, _⟩ | ⟨_, hfound⟩
      · have hlt := holder upper above pending habove hdevice.symm
        exact ⟨hlt.ne', fun hbelow => absurd hbelow hlt.not_gt⟩
      · exact hstacked.below upper above pending habove lower found under hfound hne hdevice

theorem revert {id : ℕ} {event : GrantEvent Key} (hmay : MayRevert state id event pending)
    (hcurrent : state.shared.rows.grants.lookup event.device = some event.row)
    (hgrants : ∀ device, after.shared.rows.grants.lookup device =
      if device = event.device then pending.previous
      else state.shared.rows.grants.lookup device)
    (hpending : ∀ other found pending, MayRevert after other found pending →
      other ≠ id ∧ MayRevert state other found pending) : Stacked after := by
  constructor
  · intro device row hrow
    rw [hgrants] at hrow
    split_ifs at hrow with hdevice
    · rw [hdevice]
      exact hstacked.previous id event pending hmay row hrow
    · exact hstacked.keyed device row hrow
  · intro other found under hafter
    exact hstacked.previous other found under (hpending _ _ _ hafter).2
  · intro other found under hafter
    obtain ⟨hne, hbefore⟩ := hpending other found under hafter
    have hcovered := hstacked.covered other found under hbefore
    rw [Rows.Covered, hgrants, hmarkers]
    split_ifs with hdevice
    · obtain ⟨hdistinct, hbelow⟩ := hstacked.below id event pending hmay other
        found under hbefore hne hdevice
      -- The row was this grant's own: who is older is covered by what it
      -- brings back.
      rw [Rows.Covered, hdevice, hcurrent] at hcovered
      rw [hdevice]
      rcases hcovered with ⟨row, hrow, hle⟩ | hmarker
      · cases hrow
        exact hbelow (lt_of_le_of_ne hle hdistinct)
      · exact Or.inr hmarker
    · exact hcovered
  · intro upper above top habove lower found under hfound hne hdevice
    rw [hmarkers]
    exact hstacked.below upper above top (hpending _ _ _ habove).2 lower found
      under (hpending _ _ _ hfound).2 hne hdevice

end Stacked

variable {rows : Rows Key} {event : RevokeEvent Key}

section

variable {device other : Key} {createdAt now time : ℕ}
  (hkeyed : ∀ device row, rows.grants.lookup device = some row → row.device = device)
include hkeyed

theorem commitRevoke_cases (device : Key) (createdAt now : ℕ) :
    (∃ row, rows.grants.lookup device = some row ∧
        (∀ other, (rows.commitRevoke device createdAt now).grants.lookup other =
          if other = device then
            some { row with revokedAt := some now, lastEventAt := createdAt }
          else rows.grants.lookup other) ∧
        (rows.commitRevoke device createdAt now).markers = rows.markers) ∨
      rows.grants.lookup device = none ∧
        (rows.commitRevoke device createdAt now).grants = rows.grants ∧
        (rows.commitRevoke device createdAt now).markers =
          rows.markers.insert device createdAt := by
  unfold Rows.commitRevoke Rows.commitRevokeTo
  cases hrow : rows.grants.lookup device with
  | none => exact Or.inr ⟨rfl, rfl, rfl⟩
  | some row =>
    refine Or.inl ⟨row, rfl, fun other => ?_, rfl⟩
    rw [Rows.lookup_writeGrant]
    simp only [hkeyed device row hrow]

theorem covered_commitRevoke (hnewer : ¬rows.Covered device createdAt)
    (hcovered : rows.Covered other time) :
    (rows.commitRevoke device createdAt now).Covered other time := by
  by_cases heq : other = device
  · subst heq
    have hle := (Covers.lt_of_not hcovered hnewer).le
    rcases commitRevoke_cases hkeyed other createdAt now with
      ⟨row, _, hgrants, _⟩ | ⟨_, _, hmarkers⟩
    · rw [Rows.Covered, hgrants, if_pos rfl]
      exact Covers.row_of_le hle
    · rw [Rows.Covered, hmarkers, AList.lookup_insert]
      exact Covers.marker_of_le hle
  · rcases commitRevoke_cases hkeyed device createdAt now with
      ⟨row, _, hgrants, hmarkers⟩ | ⟨_, hgrants, hmarkers⟩
    · rw [Rows.Covered, hgrants, if_neg heq, hmarkers]
      exact hcovered
    · rw [Rows.Covered, hgrants, hmarkers, AList.lookup_insert_ne heq]
      exact hcovered

theorem covers_commitRevoke (hnewer : ¬rows.Covered device createdAt)
    (hcovers : Covers previous (rows.markers.lookup other) time) :
    Covers previous ((rows.commitRevoke device createdAt now).markers.lookup other) time := by
  rcases commitRevoke_cases hkeyed device createdAt now with
    ⟨_, _, _, hmarkers⟩ | ⟨_, _, hmarkers⟩
  · rw [hmarkers]
    exact hcovers
  · rw [hmarkers]
    by_cases heq : other = device
    · subst heq
      rw [AList.lookup_insert]
      apply hcovers.newMarker
      intro old hold
      exact (Covers.lt_of_not (Or.inr ⟨old, hold, le_refl _⟩) hnewer).le
    · rw [AList.lookup_insert_ne heq]
      exact hcovers

end

section

variable (hstacked : Stacked state)
  (hnewer : ¬state.shared.rows.Covered event.device event.createdAt)
  (hrows : after.shared.rows = state.shared.rows.commitRevoke event.device
    event.createdAt state.shared.clock)
  (hpending : ∀ id event pending, MayRevert after id event pending →
    MayRevert state id event pending)
include hstacked hnewer hrows hpending

theorem Stacked.revoke : Stacked after := by
  constructor
  · intro device row hrow
    rw [hrows] at hrow
    rcases commitRevoke_cases hstacked.keyed event.device event.createdAt
        state.shared.clock with
      ⟨old, hold, hgrants, _⟩ | ⟨_, hgrants, _⟩
    · rw [hgrants] at hrow
      split_ifs at hrow with hdevice
      · cases hrow
        rw [hdevice]
        exact hstacked.keyed _ old hold
      · exact hstacked.keyed device row hrow
    · rw [hgrants] at hrow
      exact hstacked.keyed device row hrow
  · intro id found pending hmay
    exact hstacked.previous id found pending (hpending _ _ _ hmay)
  · intro id found pending hmay
    rw [hrows]
    exact covered_commitRevoke hstacked.keyed hnewer
      (hstacked.covered id found pending (hpending _ _ _ hmay))
  · intro id above pending habove other found under hfound hne hdevice
    obtain ⟨hdistinct, hbelow⟩ := hstacked.below id above pending
      (hpending _ _ _ habove) other found under (hpending _ _ _ hfound) hne
      hdevice
    refine ⟨hdistinct, fun hlt => ?_⟩
    rw [hrows]
    exact covers_commitRevoke hstacked.keyed hnewer (hbelow hlt)

/-- When a revocation is accepted, every grant that may revert is older. -/
theorem barred_of_revoke : Barred event after := by
  constructor
  · rw [hrows]
    rcases commitRevoke_cases hstacked.keyed event.device event.createdAt
        state.shared.clock with
      ⟨old, hold, hgrants, _⟩ | ⟨hnone, hgrants, hmarkers⟩
    · rw [hgrants, if_pos rfl]
      refine ⟨Covers.row_of_le (le_refl _), ?_⟩
      rintro _ ⟨⟩ hrevoked
      cases hrevoked
    · rw [hgrants, hnone, hmarkers, AList.lookup_insert]
      refine ⟨Covers.marker_of_le (le_refl _), ?_⟩
      rintro _ ⟨⟩
  · intro id found pending hmay hdevice hlt
    have hcovered := hstacked.covered id found pending (hpending _ _ _ hmay)
    rw [hdevice] at hcovered
    exact absurd hlt (hcovered.lt_of_not hnewer).not_gt

end

theorem Stacked.step (hstacked : Stacked state)
    (hstep : TableStep state after) : Stacked after := by
  cases hstep with
  | keep hgrants hmarkers hpending =>
    exact hstacked.keep hmarkers hgrants hpending
  | commit id event hnewer hgrants hmarkers hpending =>
    exact hstacked.commit hmarkers hnewer hgrants hpending
  | revert id event pending hmay hcurrent hgrants hmarkers hpending =>
    exact hstacked.revert hmarkers hmay hcurrent
      (hgrants (hstacked.previous id event pending hmay)) hpending
  | revoke event hnewer hrows hpending =>
    exact hstacked.revoke hnewer hrows hpending

/-! ## Revocations hold -/

theorem Barred.step (hbarred : Barred event state) (hstacked : Stacked state)
    (hstep : TableStep state after) : Barred event after := by
  cases hstep with
  | keep hgrants hmarkers hpending =>
    constructor
    · rw [hgrants, hmarkers]
      exact hbarred.row
    · intro id found pending hmay
      rw [hmarkers]
      exact hbarred.reverts id found pending (hpending _ _ _ hmay)
  | commit id grant hnewer hgrants hmarkers hpending =>
    constructor
    · rw [hgrants, hmarkers]
      split_ifs with hdevice
      · rw [← hdevice] at hnewer
        have hlt := Covers.lt_of_not hbarred.row.1 hnewer
        refine ⟨Covers.row_of_le hlt.le, ?_⟩
        rintro _ ⟨⟩ _
        exact hlt
      · exact hbarred.row
    · intro other found pending hmay hdevice hlt
      rw [hmarkers]
      rcases hpending other found pending hmay with
        ⟨_, rfl, hprevious⟩ | ⟨_, hbefore⟩
      · rw [hprevious, hdevice]
        exact hbarred.row
      · exact hbarred.reverts other found pending hbefore hdevice hlt
  | revert id grant pending hmay hcurrent hgrants hmarkers hpending =>
    constructor
    · rw [hgrants (hstacked.previous id grant pending hmay), hmarkers]
      split_ifs with hdevice
      · rw [← hdevice] at hcurrent
        have hlt := hbarred.row.2 grant.row hcurrent rfl
        exact hbarred.reverts id grant pending hmay hdevice.symm hlt
      · exact hbarred.row
    · intro other found under hafter
      rw [hmarkers]
      exact hbarred.reverts other found under (hpending _ _ _ hafter).2
  | revoke revoke hnewer hrows hpending =>
    constructor
    · rw [hrows]
      refine ⟨covered_commitRevoke hstacked.keyed hnewer hbarred.row.1, ?_⟩
      intro found hfound hrevoked
      rcases commitRevoke_cases hstacked.keyed revoke.device revoke.createdAt
          state.shared.clock with
        ⟨old, _, hgrants, _⟩ | ⟨_, hgrants, _⟩
      · rw [hgrants] at hfound
        split_ifs at hfound
        · cases hfound
          cases hrevoked
        · exact hbarred.row.2 found hfound hrevoked
      · rw [hgrants] at hfound
        exact hbarred.row.2 found hfound hrevoked
    · intro id found pending hmay hdevice hlt
      obtain ⟨hcovers, hnone⟩ := hbarred.reverts id found pending (hpending _ _ _ hmay) hdevice hlt
      rw [hrows]
      exact ⟨covers_commitRevoke hstacked.keyed hnewer hcovers, hnone⟩

structure Holding (state : State Key Hash) : Prop where
  stacked : Stacked state
  barred : ∀ event, HasRevoked state event → Barred event state

theorem Holding.step (hholding : Holding state)
    (hstep : TableStep state after) : Holding after := by
  refine ⟨hholding.stacked.step hstep, fun event hafter => ?_⟩
  have hold : HasRevoked state event → Barred event after := fun hrevoked =>
    (hholding.barred event hrevoked).step hholding.stacked hstep
  cases hstep with
  | keep _ _ _ hrevoked | commit _ _ _ _ _ _ hrevoked | revert _ _ _ _ _ _ _ _ hrevoked =>
    exact hold (hrevoked event hafter)
  | revoke revoke hnewer hrows hpending hrevoked =>
    rcases hrevoked event hafter with rfl | hbefore
    · exact barred_of_revoke hholding.stacked hnewer hrows hpending
    · exact hold hbefore

theorem holding_initial {clock : ℕ} (hkeyed : ∀ device row, rows.grants.lookup device = some row →
      row.device = device) (core : List Key) (claims : List (Key × Hash))
    (moved : List (Moved Key Hash)) : Holding (State.initial clock rows core claims moved) := by
  have hnone : ∀ id event pending, ¬MayRevert
      (State.initial clock rows core claims moved) id event pending := by
    rintro id event pending ⟨grant, hrequest, _⟩
    cases hrequest
  refine ⟨⟨hkeyed, ?_, ?_, ?_⟩, ?_⟩
  · intro id event pending hmay
    exact absurd hmay (hnone id event pending)
  · intro id event pending hmay
    exact absurd hmay (hnone id event pending)
  · intro id event pending hmay
    exact absurd hmay (hnone id event pending)
  · rintro event ⟨id, hrequest⟩
    cases hrequest

end Invariant

section Runs

variable [DecidableEq Hash]

/-- In runs that read back what they commit: once a revocation has been accepted,
no later state has an active grant of the device that was granted at its time
or before. -/
theorem revocation_outlasts_older_grants (config : Config Key)
    (group : Key → Bool) (clock : ℕ) (rows : Rows Key) (core : List Key)
    (claims : List (Key × Hash)) (moved : List (Moved Key Hash))
    (state later : State Key Hash) (event : RevokeEvent Key)
    (hkeyed : ∀ device row, rows.grants.lookup device = some row → row.device = device)
    (hreach : Reaches (step config group) Loads
      (State.initial clock rows core claims moved) state)
    (hrevoked : HasRevoked state event) (hlater : Reaches (step config group) Loads state later)
    (row : GrantRow Key) (hrow : later.shared.rows.grants.lookup event.device = some row)
    (hactive : grantActive config later.shared.clock row = true) :
    event.createdAt < row.grantedAt := by
  obtain ⟨hsync, hholding⟩ : Synced state ∧ Holding state :=
    Synced.invariant (fun _ _ hreads => hreads) (synced_initial clock rows core claims moved) hreach
      (holding_initial hkeyed core claims moved)
      fun _ _ _ hsync hholding hreads hstep =>
        hholding.step (tableStep_of_step hsync hreads hstep)
  have hend : Synced later ∧ Stacked later ∧ Barred event later := by
    apply Synced.invariant (fun _ _ hreads => hreads) hsync hlater
    · exact ⟨hholding.stacked, hholding.barred event hrevoked⟩
    · rintro before after action hsync ⟨hstacked, hbarred⟩ hreads hstep
      have htables := tableStep_of_step hsync hreads hstep
      exact ⟨hstacked.step htables, hbarred.step hstacked htables⟩
  simp only [grantActive, Bool.and_eq_true, Option.isNone_iff_eq_none] at hactive
  exact hend.2.2.row.2 row hrow hactive.1.1

end Runs

def Request.hasRevoked (event : RevokeEvent Key) : Request Key Hash → Bool
  | .revoke ⟨found, .answered .revoked⟩ => decide (found = event)
  | _ => false

theorem hasRevoked_of_request {state : State Key Hash} {id : ℕ} {event : RevokeEvent Key}
    (hrequest : (state.requests id).any (Request.hasRevoked event) = true) :
    HasRevoked state event := by
  cases hfound : state.requests id with
  | none => simp [hfound] at hrequest
  | some request =>
    rw [hfound, Option.any_some] at hrequest
    unfold Request.hasRevoked at hrequest
    split at hrequest
    · exact ⟨id, by rw [hfound, ← of_decide_eq_true hrequest]⟩
    · cases hrequest

/-- Device 10 is revoked at 3 before any grant; the grant made at 2 is refused
and the one made at 4 lands. -/
theorem revocation_outlasts_older_grants_before_a_grant : ∃ (state : State ℕ ℕ) (row : GrantRow ℕ),
      HasRevoked state (⟨1, 10, 3, 500, 7⟩ : RevokeEvent ℕ) ∧
      Reaches (step singleOwner fun _ => false) Loads
        (State.initial 0 ⟨∅, ∅, ∅⟩ [] [] []) state ∧
      state.shared.rows.grants.lookup 10 = some row ∧
      grantActive singleOwner state.shared.clock row = true ∧
      3 < row.grantedAt := by
  have hrun : (checkedRun (step singleOwner fun _ => false) (fun _ action => action.reads)
      (State.initial 0 ⟨∅, ∅, ∅⟩ [] [] [] : State ℕ ℕ)
      [.revoke ⟨1, 10, 3, 500, 7⟩, .advance 0 .ok, .advance 0 .ok,
        .grant (hourGrant 10 2 1), .advance 1 .ok, .advance 1 .ok,
        .grant (hourGrant 10 4 2), .advance 2 .ok, .advance 2 .ok]).any
        (fun state => (state.requests 0).any
            (Request.hasRevoked (⟨1, 10, 3, 500, 7⟩ : RevokeEvent ℕ)) &&
          decide (state.shared.rows.grants.lookup 10 = some (hourGrant 10 4 2).row ∧
            grantActive singleOwner state.shared.clock (hourGrant 10 4 2).row = true)) = true := by
    decide
  obtain ⟨state, hreach, htest⟩ := exists_reaches_of_check loads_of_reads hrun
  simp only [Bool.and_eq_true, decide_eq_true_eq] at htest
  obtain ⟨hrequest, hrow, hactive⟩ := htest
  have hrevoked := hasRevoked_of_request hrequest
  exact ⟨state, _, hrevoked, hreach, hrow, hactive,
    revocation_outlasts_older_grants singleOwner (fun _ => false) 0
      ⟨∅, ∅, ∅⟩ [] [] [] state state _ (by rintro _ _ ⟨⟩) hreach hrevoked .refl
      _ hrow hactive⟩

/-- The grant of device 10 made at 5 is committed and not read back.  The
revocation made at 6 finds no grant and leaves a marker; the reload after it
brings the grant in, which is active. -/
theorem unread_grant_outlives_its_revocation : ∃ (state : State ℕ ℕ) (row : GrantRow ℕ),
      Reaches (step singleOwner fun _ => false) everyStep
        (State.initial 0 ⟨∅, ∅, ∅⟩ [] [] []) state ∧
      HasRevoked state (⟨1, 10, 6, 500, 7⟩ : RevokeEvent ℕ) ∧
      state.shared.rows.grants.lookup 10 = some row ∧
      grantActive singleOwner state.shared.clock row = true ∧
      row.grantedAt ≤ 6 := by
  have hrun : (runActions (step singleOwner fun _ => false)
      (State.initial 0 ⟨∅, ∅, ∅⟩ [] [] [] : State ℕ ℕ)
      [.grant (hourGrant 10 5 0), .advance 0 .ok, .advance 0 .unread,
        .revoke ⟨1, 10, 6, 500, 7⟩, .advance 1 .ok, .advance 1 .ok]).any
        (fun state => (state.requests 1).any
            (Request.hasRevoked (⟨1, 10, 6, 500, 7⟩ : RevokeEvent ℕ)) &&
          decide (state.shared.rows.grants.lookup 10 = some (hourGrant 10 5 0).row ∧
            grantActive singleOwner state.shared.clock (hourGrant 10 5 0).row = true)) = true := by
    decide
  obtain ⟨state, hreach, htest⟩ := exists_reaches_of_runActions hrun
  simp only [Bool.and_eq_true, decide_eq_true_eq] at htest
  obtain ⟨hrequest, hrow, hactive⟩ := htest
  exact ⟨state, _, hreach, hasRevoked_of_request hrequest, hrow, hactive, by decide⟩

end DeviceGrants
end Wildbloom
