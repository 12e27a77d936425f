import Wildbloom.DeviceGrantFlights

/-!
# Keys with a live grant stay trusted

Rows change only while `updates` is free, or by the sweep that holds it.  So
the rows a sweep holds are those it read, and a key it takes out is still not
active.  A revert has no such protection: between a commit and its revert
other grants may share the recovery key, and a sweep may drop the recovery key
of the replaced grant.
-/

namespace Wildbloom
namespace DeviceGrants

open Runs

variable {Key Hash : Type} [DecidableEq Key] (config : Config Key)
  (shared : Shared Key Hash) (state : State Key Hash)

/-- A revert that takes effect leaves the members other active grants need, and
brings back no active grant whose recovery key was dropped meanwhile. -/
structure Grant.RevertIsSafe (event : GrantEvent Key) (pending : Pending Key) : Prop where
  others : ∀ device row, shared.rows.grants.lookup device = some row →
    device ≠ event.device → grantActive config shared.clock row = true →
      Rows.CapturedFor pending.members row
  previous : ∀ row, pending.previous = some row → grantActive config shared.clock row = true →
      row.recovery ∈ pending.members.map Prod.fst ∨ shared.rows.HasMember row.recovery row.issuer

/-- What is committed is read back, and a revert is safe. -/
def SafeRevertStep : Action Key Hash → Prop
  | .advance id outcome => outcome.reads = true ∧ ∀ grant pending,
      state.requests id = some (.grant grant) → grant.pc = .revert pending →
      state.shared.rows.grants.lookup grant.event.device = some grant.event.row →
        Grant.RevertIsSafe config state.shared grant.event pending
  | _ => True

/-! ## The invariant -/

/-- What a grant captured: the members of its two keys, which were those of
the replaced row while it was active. -/
structure Pending.Captures (now : ℕ) (event : GrantEvent Key) (pending : Pending Key) : Prop where
  keys : pending.members.map Prod.fst = [event.device, event.recovery]
  device : ∀ row, pending.previous = some row → row.device = event.device
  previous : ∀ row, pending.previous = some row →
    grantActive config now row = true → Rows.CapturedFor pending.members row

def Request.Ready (id : ℕ) : Request Key Hash → Prop
  | .grant work => ∀ pending, work.pc.pending = some pending →
      pending.Captures config shared.clock work.event
  | .sweep work => work.pc.isLocked = true → work.Holds config shared id
  | .revoke _ | .write _ => True

structure Trusting : Prop where
  fresh : state.Fresh
  trusted : state.shared.rows.Trusted config state.shared.clock
  ready : ∀ id request, state.requests id = some request → request.Ready config state.shared id

variable {config shared state} {group : Key → Bool} {id : ℕ} {outcome : Outcome}
variable {before after : Shared Key Hash} {request : Request Key Hash}

theorem Shared.Guards.ready {other : ℕ} (hguards : before.Guards id after)
    (hother : other ≠ id) (hready : request.Ready config before other) :
    request.Ready config after other := by
  cases request with
  | grant work =>
    intro pending hpending
    obtain ⟨hkeys, hdevice, hprevious⟩ := hready pending hpending
    refine ⟨hkeys, hdevice, ?_⟩
    intro row hrow hactive
    exact hprevious row hrow (grantActive_of_le hguards.clock hactive)
  | sweep work =>
    intro hlocked
    exact hguards.holds hother (hready hlocked)
  | revoke | write => trivial

theorem Trusting.put {next : Request Key Hash} (hgood : Trusting config state)
    (hrequest : state.requests id = some request)
    (hmove : FlightMove config state.shared id request shared next)
    (htrusted : shared.rows.Trusted config shared.clock)
    (hready : ∀ work, next = .grant work → next.Ready config shared id) :
    Trusting config (state.put id (shared, next)) := by
  constructor
  · exact hgood.fresh.put hrequest _
  · exact htrusted
  · apply Pool.forall_put
    · cases next with
      | grant work => exact hready work rfl
      | sweep work => exact hmove.holds work rfl
      | revoke | write => trivial
    · intro other found hother hfound
      exact hmove.guards.ready hother (hgood.ready other found hfound)

theorem Trusting.start (hgood : Trusting config state)
    (hready : request.Ready config state.shared state.started) :
    Trusting config (state.start request) := by
  constructor
  · exact hgood.fresh.start _
  · exact hgood.trusted
  · apply Pool.forall_start
    · exact hready
    · exact hgood.ready

theorem Trusting.change (hgood : Trusting config state) (hclock : state.shared.clock ≤ shared.clock)
    (hupdates : shared.updates = state.shared.updates) (hrows : shared.rows = state.shared.rows) :
    Trusting config { state with shared := shared } := by
  have hguards : ∀ id, state.shared.Guards id shared := fun id =>
    ⟨hclock, fun _ _ hother => ⟨hupdates.trans hother, hrows⟩⟩
  constructor
  · exact hgood.fresh
  · simp only [hrows]
    exact hgood.trusted.later hclock
  · intro other request hrequest
    exact (hguards (other + 1)).ready (by omega)
      (hgood.ready other request hrequest)

/-! ## Grants and revocations -/

theorem Grant.ready_of_pending {work : Grant Key} {pc : GrantPc Key}
    (hready : (Request.grant work : Request Key Hash).Ready config before id)
    (hclock : after.clock = before.clock)
    (hpending : ∀ pending, pc.pending = some pending → work.pc.pending = some pending) :
    (Request.grant (work.goto pc) : Request Key Hash).Ready config after id := by
  intro pending hafter
  rw [hclock]
  exact hready pending (hpending pending hafter)

/-- The captured members at a commit are those of the replaced row. -/
theorem captures_of_commit {event : GrantEvent Key}
    (htrusted : state.shared.rows.Trusted config state.shared.clock) :
    Pending.Captures config state.shared.clock event (state.shared.rows.capture event) := by
  constructor
  · rfl
  · intro row hrow
    exact htrusted.keyed _ row hrow
  · intro row hrow hactive entry hentry hnames
    have hmember := (htrusted.trusts _ row hrow hactive).hasMember hnames
    have hlookup : entry.2 = state.shared.rows.members.lookup entry.1 := by
      simp only [Rows.capture, List.mem_cons, List.not_mem_nil, or_false] at hentry
      rcases hentry with hentry | hentry <;> rw [hentry]
    rw [hlookup]
    exact hmember

theorem Trusting.grant {work next : Grant Key} (hgood : Trusting config state)
    (hsync : Synced state) (hreads : outcome.reads = true)
    (hrequest : state.requests id = some (.grant work))
    (hguard : ∀ pending, work.pc = .revert pending →
      state.shared.rows.grants.lookup work.event.device = some work.event.row →
        Grant.RevertIsSafe config state.shared work.event pending)
    (hwork : work.step config group state.shared id outcome = some (shared, next)) :
    Trusting config (state.put id (shared, .grant next)) := by
  have hready := hgood.ready id _ hrequest
  have hmove : FlightMove config state.shared id (.grant work) shared (.grant next) :=
    flightMove_grant hsync hreads hwork
  cases Grant.move_of_step hsync hreads hwork with
  | quiet _ pc hclock hrows _ _ hpending =>
    refine hgood.put hrequest hmove ?_ fun _ _ => Grant.ready_of_pending hready hclock hpending
    rw [hrows, hclock]
    exact hgood.trusted
  | refuse =>
    refine hgood.put hrequest hmove hgood.trusted fun _ _ pending hpending => ?_
    cases hpending
  | commit _ _ _ hconflict hclock _ hrows =>
    refine hgood.put hrequest hmove ?_ fun _ _ pending hpending => ?_
    · rw [hrows, hclock]
      exact hgood.trusted.commitGrant hconflict
    · cases hpending
      rw [hclock]
      exact captures_of_commit hgood.trusted
  | revert _ pending hpc _ hcurrent hclock _ hrows =>
    have hcaptures := hready pending (by rw [hpc]; rfl)
    have hsafe := hguard pending hpc hcurrent
    have hkey : work.event.device ∈ pending.members.map Prod.fst := by
      rw [hcaptures.keys]
      exact List.mem_cons_self
    refine hgood.put hrequest hmove ?_ fun _ _ pending hpending => ?_
    · rw [hrows, hclock]
      apply hgood.trusted.revert hkey hcaptures.device hsafe.others
      intro row hrow hactive
      exact ⟨hcaptures.previous row hrow hactive, hsafe.previous row hrow hactive⟩
    · cases hpending

theorem Trusting.revoke {work next : Revoke Key} (hgood : Trusting config state)
    (hsync : Synced state) (hreads : outcome.reads = true)
    (hrequest : state.requests id = some (.revoke work))
    (hwork : work.step config state.shared outcome = some (shared, next)) :
    Trusting config (state.put id (shared, .revoke next)) := by
  refine hgood.put hrequest (flightMove_revoke hsync hreads hwork) ?_
    fun _ hgrant => by cases hgrant
  cases Revoke.move_of_step hsync hreads hwork with
  | quiet => exact hgood.trusted
  | commit _ _ _ _ hclock _ hrows =>
    rw [hrows, hclock]
    exact hgood.trusted.commitRevoke _ _ _

/-! ## Sweeps -/

theorem Sweep.issuer_of_mem_adjusted {sweep : Sweep Key Hash}
    {entry : Key × Member Key} {issuer : Key} (hentry : entry ∈ sweep.adjusted config)
    (hmember : sweep.snapshot.HasMember entry.1 issuer) : entry.2.issuer = issuer := by
  simp only [Sweep.adjusted, List.mem_filterMap] at hentry
  obtain ⟨found, hfound, hentry⟩ := hentry
  split at hentry
  · split at hentry
    · cases hentry
      obtain ⟨member, hlookup, hissuer⟩ := hmember
      have hmem : sweep.snapshot.members.lookup found.1 = some found.2 :=
        AList.mem_lookup_iff.mpr hfound
      rw [hlookup, Option.some.injEq] at hmem
      rw [← hissuer, hmem]
    · cases hentry
  · cases hentry

/-- The commit of a sweep: the keys it takes out are not active, and the
others keep their issuers. -/
theorem Sweep.Holds.trusted_commit {work : Sweep Key Hash}
    (hholds : work.Holds config state.shared id)
    (htrusted : state.shared.rows.Trusted config state.shared.clock) :
    ((work.adjusted config).foldl
      (fun rows entry => rows.writeMember entry.1 entry.2)
      (work.transferred.foldl (fun rows entry => rows.deleteMember entry.1)
        state.shared.rows)).Trusted config state.shared.clock := by
  apply htrusted.members
  · simp
  · intro key issuer hactive hmember
    apply Rows.HasMember.foldl_writeMember
    · apply hmember.foldl_deleteMember
      intro entry hentry heq
      have hinactive := hholds.leaving entry (List.mem_append_left _ hentry)
      rw [hholds.snapshot, ← heq] at hinactive
      have hearlier := Rows.keyActive_of_le hholds.now hactive
      rw [hinactive] at hearlier
      cases hearlier
    · intro entry hentry heq
      apply Sweep.issuer_of_mem_adjusted hentry
      rw [hholds.snapshot, ← heq]
      exact hmember

variable [DecidableEq Hash]
variable {action : Action Key Hash}

theorem Trusting.sweep {work next : Sweep Key Hash} (hgood : Trusting config state)
    (hsync : Synced state) (hreads : outcome.reads = true)
    (hrequest : state.requests id = some (.sweep work))
    (hwork : work.step config state.shared id outcome = some (shared, next)) :
    Trusting config (state.put id (shared, .sweep next)) := by
  have hready := hgood.ready id _ hrequest
  refine hgood.put hrequest (flightMove_sweep hsync hreads hready hwork) ?_
    fun _ hgrant => by cases hgrant
  rw [(Sweep.step_inFlight hwork).2]
  rcases Sweep.rows_of_step hwork hsync hreads with hrows | ⟨hpc, hrows⟩ | ⟨_, hrows⟩
  · rw [hrows]
    exact hgood.trusted
  · rw [hrows]
    exact (hready (by rw [hpc]; rfl)).trusted_commit hgood.trusted
  · rw [hrows]
    apply hgood.trusted.members
    · simp
    · intro found issuer _ hmember
      exact Rows.HasMember.foldl_putBack _ hmember hmember

omit [DecidableEq Hash] in
theorem Trusting.write {work next : Write Key Hash} (hgood : Trusting config state)
    (hrequest : state.requests id = some (.write work))
    (hwork : work.step config state.shared outcome = some (shared, next)) :
    Trusting config (state.put id (shared, .write next)) := by
  refine hgood.put hrequest (flightMove_write hwork) ?_ fun _ hgrant => by cases hgrant
  obtain ⟨hrows, hclock, _⟩ := Write.step_rows hwork
  rw [hrows, hclock]
  exact hgood.trusted

/-! ## Runs -/

omit [DecidableEq Hash] in
theorem SafeRevertStep.reads (hguard : SafeRevertStep config state action) :
    action.reads = true := by
  cases action with
  | advance id outcome => exact hguard.1
  | _ => rfl

theorem Trusting.step {after : State Key Hash} (hgood : Trusting config state)
    (hsync : Synced state) (hguard : SafeRevertStep config state action)
    (hstep : DeviceGrants.step config group state action = some after) : Trusting config after := by
  cases action with
  | tick seconds =>
    cases hstep
    exact hgood.change (Nat.le_add_right _ _) rfl rfl
  | grant event =>
    cases hstep
    apply hgood.start
    intro pending hpending
    cases hpending
  | revoke | write =>
    cases hstep
    exact hgood.start trivial
  | sweep =>
    cases hstep
    apply hgood.start
    intro hlocked
    cases hlocked
  | advance id outcome =>
    simp only [DeviceGrants.step, Option.bind_eq_some_iff, Option.map_eq_some_iff] at hstep
    obtain ⟨request, hrequest, result, hresult, rfl⟩ := hstep
    cases request with obtain ⟨next, hnext, rfl⟩ := Option.map_eq_some_iff.mp hresult
    | grant work =>
      exact hgood.grant hsync hguard.1 hrequest
        (fun pending => hguard.2 work pending hrequest) hnext
    | revoke work =>
      exact hgood.revoke hsync hguard.1 hrequest hnext
    | sweep work =>
      exact hgood.sweep hsync hguard.1 hrequest hnext
    | write work =>
      exact hgood.write hrequest hnext
  | _ =>
    cases hstep
    exact hgood.change (le_refl _) rfl rfl

omit [DecidableEq Hash] in
theorem trusting_initial {clock : ℕ} {rows : Rows Key}
    (htrusted : rows.Trusted config clock) (core : List Key)
    (claims : List (Key × Hash)) (moved : List (Moved Key Hash)) :
    Trusting config (State.initial clock rows core claims moved) := by
  constructor
  · intro id _
    rfl
  · exact htrusted
  · intro id request hrequest
    cases hrequest

/-- In every run from trusted rows in which what is committed is read back and
each revert is safe, both keys of every active grant are members under its
issuer. -/
theorem live_grants_stay_trusted
    (config : Config Key) (group : Key → Bool) (clock : ℕ) (rows : Rows Key)
    (core : List Key) (claims : List (Key × Hash))
    (moved : List (Moved Key Hash)) (state : State Key Hash) (hrows : rows.Trusted config clock)
    (hreach : Reaches (step config group) (SafeRevertStep config)
      (State.initial clock rows core claims moved) state)
    (device : Key) (row : GrantRow Key) (hrow : state.shared.rows.grants.lookup device = some row)
    (hactive : grantActive config state.shared.clock row = true) :
    state.shared.rows.HasMember row.device row.issuer ∧
      state.shared.rows.HasMember row.recovery row.issuer := by
  obtain ⟨_, hgood⟩ : Synced state ∧ Trusting config state :=
    Synced.invariant (fun _ _ hguard => hguard.reads)
      (synced_initial clock rows core claims moved) hreach
      (trusting_initial hrows core claims moved)
      fun _ _ _ hsync hgood hguard hstep => hgood.step hsync hguard hstep
  exact hgood.trusted.trusts device row hrow hactive

def loneRevertCheck (config : Config Key) (state : State Key Hash) : Action Key Hash → Bool
  | .advance id outcome =>
    outcome.reads && match state.requests id with
    | some (.grant { event := event, pc := .revert pending }) =>
      pending.previous.isNone &&
        state.shared.rows.grants.entries.all fun entry =>
          decide (entry.1 = event.device) || !grantActive config state.shared.clock entry.2
    | _ => true
  | _ => true

omit [DecidableEq Hash] in
theorem safeRevertStep_of_check (hcheck : loneRevertCheck config state action = true) :
    SafeRevertStep config state action := by
  cases action with
  | advance id outcome =>
    refine ⟨(Bool.and_eq_true_iff.mp hcheck).1, fun grant pending hrequest hpc _ => ?_⟩
    obtain ⟨event, pc⟩ := grant
    simp only at hpc
    simp only [loneRevertCheck, hrequest, hpc, Bool.and_eq_true,
      Option.isNone_iff_eq_none, List.all_eq_true, Bool.or_eq_true,
      decide_eq_true_eq, Bool.not_eq_true'] at hcheck
    obtain ⟨_, hnone, hlone⟩ := hcheck
    constructor
    · intro device row hlookup hdevice hactive
      rcases hlone ⟨device, row⟩ (AList.mem_lookup_iff.mp hlookup) with
        hsame | hinactive
      · exact absurd hsame hdevice
      · rw [hinactive] at hactive
        cases hactive
    · intro row hrow
      rw [hnone] at hrow
      cases hrow
  | _ => trivial

/-- The first grant of device 10 is reverted, the second one accepted. -/
theorem live_grants_stay_trusted_after_revert : ∃ state : State ℕ ℕ,
      Reaches (step singleOwner fun _ => false) (SafeRevertStep singleOwner)
        (State.initial 0 ⟨∅, ∅, ∅⟩ [] [] []) state ∧
      state.shared.rows.grants.lookup 10 = some (hourGrant 10 2 1).row ∧
      state.shared.rows.HasMember 10 1 ∧ state.shared.rows.HasMember 20 1 := by
  have hrun : (checkedRun (step singleOwner fun _ => false) (loneRevertCheck singleOwner)
      (State.initial 0 ⟨∅, ∅, ∅⟩ [] [] [] : State ℕ ℕ)
      [.grant (hourGrant 10 1 0), .advance 0 .ok, .advance 0 .ok,
        .advance 0 .ok, .advance 0 .failed, .advance 0 .ok, .advance 0 .ok,
        .advance 0 .ok, .grant (hourGrant 10 2 1), .advance 1 .ok,
        .advance 1 .ok, .advance 1 .ok, .advance 1 .ok]).any
        (fun state => decide (state.shared.clock = 0 ∧ state.shared.rows.grants.lookup 10 =
            some (hourGrant 10 2 1).row)) = true := by
    decide
  obtain ⟨state, hreach, htest⟩ := exists_reaches_of_check safeRevertStep_of_check hrun
  obtain ⟨hclock, hrow⟩ := of_decide_eq_true htest
  have hempty : Rows.Trusted (⟨∅, ∅, ∅⟩ : Rows ℕ) singleOwner 0 := by
    constructor <;>
    · intro device row hlookup
      cases hlookup
  have hactive : grantActive singleOwner state.shared.clock (hourGrant 10 2 1).row = true := by
    rw [hclock]
    decide
  exact ⟨state, hreach, hrow,
    live_grants_stay_trusted singleOwner (fun _ => false) 0 _ [] [] [] state
      hempty hreach 10 _ hrow hactive⟩

/-- Devices 10 and 11 share recovery key 20.  The core refuses the grant of
10 after 11's was accepted, and its revert deletes the key 11 relies on. -/
theorem revert_drops_shared_recovery : ∃ (state : State ℕ ℕ) (device : ℕ) (row : GrantRow ℕ),
      Reaches (step singleOwner fun _ => false) everyStep
        (State.initial 0 ⟨∅, ∅, ∅⟩ [] [] []) state ∧
      state.shared.updates = none ∧
      state.shared.rows.grants.lookup device = some row ∧
      grantActive singleOwner state.shared.clock row = true ∧
      ¬ state.shared.rows.HasMember row.recovery row.issuer := by
  have hrun : (runActions (step singleOwner fun _ => false)
      (State.initial 0 ⟨∅, ∅, ∅⟩ [] [] [] : State ℕ ℕ)
      [.grant (hourGrant 10 1 0), .grant (hourGrant 11 1 1),
        .advance 0 .ok, .advance 0 .ok, .advance 1 .ok, .advance 1 .ok,
        .advance 1 .ok, .advance 1 .ok, .advance 0 .ok, .advance 0 .failed,
        .advance 0 .ok]).any
        (fun state => decide (state.shared.updates = none ∧
          state.shared.rows.grants.lookup 11 = some (hourGrant 11 1 1).row ∧
          grantActive singleOwner state.shared.clock (hourGrant 11 1 1).row = true ∧
          state.shared.rows.members.lookup 20 = none)) = true := by
    decide
  obtain ⟨state, hreach, htest⟩ := exists_reaches_of_runActions hrun
  obtain ⟨hfree, hrow, hactive, hmember⟩ := of_decide_eq_true htest
  refine ⟨state, 11, _, hreach, hfree, hrow, hactive, ?_⟩
  rintro ⟨member, hlookup, _⟩
  have habsent : state.shared.rows.members.lookup 20 = some member := hlookup
  rw [hmember] at habsent
  cases habsent

end DeviceGrants
end Wildbloom
