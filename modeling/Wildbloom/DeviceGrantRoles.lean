import Wildbloom.DeviceGrantOrder

/-!
# Key roles stay apart

A grant is refused when one of its keys has another role in the rows of the
moment.  But a grant that reverts later brings back the row it replaced, which
nobody has checked against the grants accepted in between.  The roles stay
apart in runs in which no grant is accepted against a row that a revert may
still bring back.
-/

namespace Wildbloom
namespace DeviceGrants

open Runs

variable {Key Hash : Type}

structure Roles (Key : Type) where
  device : Key
  recovery : Key
  issuer : Key

def GrantRow.roles (row : GrantRow Key) : Roles Key :=
  ⟨row.device, row.recovery, row.issuer⟩

/-- The device of one is the recovery key of the other, or two issuers have one
recovery key. -/
def Roles.Clash (one two : Roles Key) : Prop :=
  one.device = two.recovery ∨ two.device = one.recovery ∨
    one.recovery = two.recovery ∧ one.issuer ≠ two.issuer

theorem Roles.Clash.symm {one two : Roles Key} (hclash : one.Clash two) : two.Clash one := by
  rcases hclash with hdevice | hdevice | ⟨hrecovery, hissuer⟩
  · exact Or.inr (Or.inl hdevice)
  · exact Or.inl hdevice
  · exact Or.inr (Or.inr ⟨hrecovery.symm, Ne.symm hissuer⟩)

/-- No key is the device of one row and the recovery key of another, and the
rows with one recovery key have one issuer. -/
def Rows.RolesApart (rows : Rows Key) : Prop :=
  ∀ row ∈ rows.rows, ∀ other ∈ rows.rows, (row ≠ other → row.device ≠ other.recovery) ∧
    (row.recovery = other.recovery → row.issuer = other.issuer)

variable [DecidableEq Key] {id : ℕ}

/-- A row of the table, or one that a revert may bring back, has these roles. -/
def HasRoles (state : State Key Hash) (roles : Roles Key) : Prop :=
  (∃ device row, state.shared.rows.grants.lookup device = some row ∧ row.roles = roles) ∨
    ∃ id event pending row, MayRevert state id event pending ∧
      pending.previous = some row ∧ row.roles = roles

/-- What is committed is read back, and a grant is accepted only if its row does
not clash with a row of another device that a revert may bring back. -/
def ApartGrantStep (state : State Key Hash) : Action Key Hash → Prop
  | .advance id outcome => outcome.reads = true ∧ ∀ work,
      state.requests id = some (.grant work) → work.pc = .commit →
      ∀ other event pending row, MayRevert state other event pending →
        pending.previous = some row → row.device ≠ work.event.device →
        ¬work.event.row.roles.Clash row.roles
  | _ => True

/-- The rows in use, and those that may come back, do not clash. -/
structure Apart (state : State Key Hash) : Prop where
  stacked : Stacked state
  roles : ∀ one two, HasRoles state one → HasRoles state two → one.device ≠ two.device →
    ¬one.Clash two

section Steps

variable {state after : State Key Hash} {config : Config Key} {group : Key → Bool}
  {rows : Rows Key} {row : GrantRow Key} {event : GrantEvent Key} {roles : Roles Key}

/-- What the check of a grant says about the other rows. -/
theorem not_clash_of_checkGrantConflicts
    (hconflict : rows.checkGrantConflicts config group event = none)
    (hrow : row ∈ rows.rows) (hne : row.device ≠ event.device) :
    ¬event.row.roles.Clash row.roles := by
  simp only [Rows.checkGrantConflicts, Option.orElse_eq_orElse,
    Option.orElse_eq_or, Option.or_eq_none_iff, List.findSome?_eq_none_iff] at hconflict
  have hnone := hconflict.2.2.1 row hrow
  rw [if_neg hne] at hnone
  split_ifs at hnone with hroles hissuer
  rintro (hdevice | hdevice | ⟨hrecovery, howner⟩)
  · exact hroles (Or.inl hdevice.symm)
  · exact hroles (Or.inr hdevice)
  · exact hissuer ⟨hrecovery.symm, fun hsame => howner hsame.symm⟩

theorem hasRoles_of_lookup {device : Key}
    (hrow : state.shared.rows.grants.lookup device = some row) : HasRoles state row.roles :=
  Or.inl ⟨device, row, hrow, rfl⟩

/-- What a revert would bring back after a step was there before it. -/
theorem hasRoles_of_mayRevert (htable : TableStep state after) {pending : Pending Key}
    (hmay : MayRevert after id event pending) (hprevious : pending.previous = some row) :
    HasRoles state row.roles := by
  have hold : MayRevert state id event pending → HasRoles state row.roles := fun hbefore =>
    Or.inr ⟨id, event, pending, row, hbefore, hprevious, rfl⟩
  cases htable with
  | keep _ _ hpending | revoke _ _ _ hpending => exact hold (hpending _ _ _ hmay)
  | revert _ _ _ _ _ _ _ hpending => exact hold (hpending _ _ _ hmay).2
  | commit _ _ _ _ _ hpending =>
    rcases hpending _ _ _ hmay with ⟨_, _, hcaptured⟩ | ⟨_, hbefore⟩
    · exact hasRoles_of_lookup (hcaptured.symm.trans hprevious)
    · exact hold hbefore

/-- A grant that is accepted clashes with no row in use and none that may come
back. -/
theorem not_clash_of_commit {outcome : Outcome} {work : Grant Key}
    (hguard : ApartGrantStep state (.advance id outcome))
    (hrequest : state.requests id = some (.grant work)) (hpc : work.pc = .commit)
    (hconflict : state.shared.rows.checkGrantConflicts config group work.event = none)
    (hroles : HasRoles state roles) (hne : roles.device ≠ work.event.device) :
    ¬work.event.row.roles.Clash roles := by
  rcases hroles with ⟨device, row, hrow, rfl⟩ | ⟨other, event, pending, row, hmay, hprevious, rfl⟩
  · exact not_clash_of_checkGrantConflicts hconflict (Rows.mem_rows.mpr ⟨device, hrow⟩) hne
  · exact hguard.2 work hrequest hpc other event pending row hmay hprevious hne

variable [DecidableEq Hash] {action : Action Key Hash}

/-- A step gives no key a new role, but for a grant that was checked. -/
theorem hasRoles_of_step (hstacked : Stacked state) (hsync : Synced state)
    (hreads : action.reads = true)
    (hstep : step config group state action = some after) {device : Key}
    (hrow : after.shared.rows.grants.lookup device = some row) :
    HasRoles state row.roles ∨
      ∃ id outcome work, action = .advance id outcome ∧ row = work.event.row ∧
        state.requests id = some (.grant work) ∧ work.pc = .commit ∧
        state.shared.rows.checkGrantConflicts config group work.event = none := by
  cases action with
  | advance id outcome =>
    rcases advance_cases hsync hreads hstep with ⟨work, shared, next, hrequest, hmove, rfl⟩ |
      ⟨work, shared, next, hmove, rfl⟩ | ⟨shared, next, hgrants, _, _, _, rfl⟩
    · cases hmove with
      | quiet _ pc hclock hrows =>
        rw [Pool.shared_put, hrows] at hrow
        exact Or.inl (hasRoles_of_lookup hrow)
      | refuse => exact Or.inl (hasRoles_of_lookup hrow)
      | commit _ hpc hfree hconflict hclock hupdates hrows =>
        rw [Pool.shared_put, hrows] at hrow
        have hwritten := (Rows.lookup_writeGrant work.event.row device).symm.trans hrow
        split_ifs at hwritten
        · cases hwritten
          exact Or.inr ⟨id, outcome, work, rfl, rfl, hrequest, hpc, hconflict⟩
        · exact Or.inl (hasRoles_of_lookup hwritten)
      | revert _ pending hpc hfree hcurrent hclock hupdates hrows =>
        have hmay : MayRevert state id work.event pending :=
          ⟨work, hrequest, rfl, by rw [hpc]; rfl⟩
        rw [Pool.shared_put, hrows,
          Rows.lookup_revert (hstacked.previous id _ pending hmay)] at hrow
        split_ifs at hrow
        · exact Or.inl (Or.inr ⟨id, _, pending, row, hmay, hrow, rfl⟩)
        · exact Or.inl (hasRoles_of_lookup hrow)
    · cases hmove with
      | quiet => exact Or.inl (hasRoles_of_lookup hrow)
      | commit _ hpc hfree hnewer hclock hupdates hrows =>
        rw [Pool.shared_put, hrows] at hrow
        rcases commitRevoke_cases hstacked.keyed work.event.device work.event.createdAt
            state.shared.clock with ⟨old, hold, hgrants, _⟩ | ⟨_, hgrants, _⟩
        · rw [hgrants] at hrow
          split_ifs at hrow
          · cases hrow
            have hroles : HasRoles state old.roles := hasRoles_of_lookup hold
            exact Or.inl hroles
          · exact Or.inl (hasRoles_of_lookup hrow)
        · rw [hgrants] at hrow
          exact Or.inl (hasRoles_of_lookup hrow)
    · rw [Pool.shared_put, hgrants] at hrow
      exact Or.inl (hasRoles_of_lookup hrow)
  | _ =>
    cases hstep
    exact Or.inl (hasRoles_of_lookup hrow)

omit [DecidableEq Key] [DecidableEq Hash] in
theorem ApartGrantStep.reads (hguard : ApartGrantStep state action) : action.reads = true := by
  cases action with
  | advance id outcome => exact hguard.1
  | _ => rfl

theorem Apart.step (hapart : Apart state) (hsync : Synced state)
    (hguard : ApartGrantStep state action)
    (hstep : step config group state action = some after) : Apart after := by
  have htable := tableStep_of_step hsync hguard.reads hstep
  refine ⟨hapart.stacked.step htable, ?_⟩
  -- Roles were there before, or are those of the one grant that was accepted.
  have hroles : ∀ roles, HasRoles after roles → HasRoles state roles ∨
      ∃ id outcome work, action = .advance id outcome ∧ roles = work.event.row.roles ∧
        state.requests id = some (.grant work) ∧ work.pc = .commit ∧
        state.shared.rows.checkGrantConflicts config group work.event = none := by
    rintro roles (⟨device, row, hrow, rfl⟩ | ⟨id, event, pending, row, hmay, hprevious, rfl⟩)
    · rcases hasRoles_of_step hapart.stacked hsync hguard.reads hstep hrow with
        hold | ⟨id, outcome, work, hact, rfl, hcommit⟩
      · exact Or.inl hold
      · exact Or.inr ⟨id, outcome, work, hact, rfl, hcommit⟩
    · exact Or.inl (hasRoles_of_mayRevert htable hmay hprevious)
  intro one two hone htwo hne
  rcases hroles one hone with hone | ⟨id, outcome, work, rfl, rfl, hrequest, hpc, hconflict⟩
  · rcases hroles two htwo with htwo | ⟨id, outcome, work, rfl, rfl, hrequest, hpc, hconflict⟩
    · exact hapart.roles one two hone htwo hne
    · exact fun hclash =>
        not_clash_of_commit hguard hrequest hpc hconflict hone hne hclash.symm
  · rcases hroles two htwo with htwo | ⟨_, _, other, ⟨⟩, rfl, hsame, _⟩
    · exact not_clash_of_commit hguard hrequest hpc hconflict htwo (Ne.symm hne)
    · rw [hrequest] at hsame
      cases hsame
      exact absurd rfl hne

omit [DecidableEq Hash] in
theorem Apart.rolesApart (hapart : Apart state) : state.shared.rows.RolesApart := by
  intro row hrow other hother
  obtain ⟨device, hrow⟩ := Rows.mem_rows.mp hrow
  obtain ⟨key, hother⟩ := Rows.mem_rows.mp hother
  by_cases hsame : row.device = other.device
  · rw [hapart.stacked.keyed _ _ hrow, hapart.stacked.keyed _ _ hother] at hsame
    rw [hsame, hother] at hrow
    cases hrow
    exact ⟨fun hne => absurd rfl hne, fun _ => rfl⟩
  · have hclear := hapart.roles _ _ (hasRoles_of_lookup hrow) (hasRoles_of_lookup hother) hsame
    refine ⟨fun _ hclash => hclear (Or.inl hclash), fun hrecovery => ?_⟩
    by_contra hissuer
    exact hclear (Or.inr (Or.inr ⟨hrecovery, hissuer⟩))

/-- In every run from rows whose roles are apart, in which what is committed is
read back and no grant is accepted that clashes with a row of another device
that a revert may bring back, the roles are apart in every state reached. -/
theorem key_roles_stay_apart (config : Config Key) (group : Key → Bool) (clock : ℕ)
    (rows : Rows Key) (core : List Key) (claims : List (Key × Hash))
    (moved : List (Moved Key Hash)) (state : State Key Hash)
    (hkeyed : ∀ device row, rows.grants.lookup device = some row → row.device = device)
    (hrows : rows.RolesApart) (hreach : Reaches (step config group) ApartGrantStep
      (State.initial clock rows core claims moved) state) : state.shared.rows.RolesApart := by
  have hstart : Apart (State.initial clock rows core claims moved) := by
    refine ⟨(holding_initial hkeyed core claims moved).stacked, ?_⟩
    rintro one two (⟨device, row, hrow, rfl⟩ | ⟨_, _, _, _, ⟨_, ⟨⟩, _⟩, _⟩)
      (⟨key, other, hother, rfl⟩ | ⟨_, _, _, _, ⟨_, ⟨⟩, _⟩, _⟩) hne
    have hfirst := hrows row (Rows.mem_rows.mpr ⟨device, hrow⟩) other
      (Rows.mem_rows.mpr ⟨key, hother⟩)
    have hsecond := hrows other (Rows.mem_rows.mpr ⟨key, hother⟩) row
      (Rows.mem_rows.mpr ⟨device, hrow⟩)
    have hdiff : row ≠ other := by
      rintro rfl
      exact hne rfl
    rintro (hclash | hclash | ⟨hrecovery, hissuer⟩)
    · exact hfirst.1 hdiff hclash
    · exact hsecond.1 (Ne.symm hdiff) hclash
    · exact hissuer (hfirst.2 hrecovery)
  obtain ⟨_, hend⟩ : Synced state ∧ Apart state :=
    Synced.invariant (fun _ _ hguard => hguard.reads)
      (synced_initial clock rows core claims moved) hreach hstart
      fun _ _ _ hsync hapart hguard hstep => hapart.step hsync hguard hstep
  exact hend.rolesApart

end Steps

def Request.restoresNothing : Request Key Hash → Bool
  | .grant work => work.pc.pending.all fun pending => pending.previous.isNone
  | _ => true

def firstGrantsCheck (state : State Key Hash) : Action Key Hash → Bool
  | .advance _ outcome => outcome.reads &&
      (List.range state.started).all fun id => (state.requests id).all Request.restoresNothing
  | _ => true

omit [DecidableEq Key] in
/-- Grants of devices that had no row bring nothing back. -/
theorem apartGrantStep_of_check {state : State Key Hash} {action : Action Key Hash}
    (hfresh : state.Fresh) (hcheck : firstGrantsCheck state action = true) :
    ApartGrantStep state action := by
  cases action with
  | advance id outcome =>
    obtain ⟨hreads, hall⟩ := Bool.and_eq_true_iff.mp hcheck
    refine ⟨hreads, ?_⟩
    rintro _ _ _ other event pending row ⟨grant, hgrant, _, hpending⟩ hprevious
    have hnothing := List.all_eq_true.mp hall other
      (List.mem_range.mpr (hfresh.lt_started hgrant))
    simp [hgrant, Request.restoresNothing, hpending, hprevious] at hnothing
  | _ => trivial

/-- Devices 10 and 11 are granted with one recovery key, the second while the
push of the first is under way. -/
theorem key_roles_stay_apart_after_two_grants : ∃ state : State ℕ ℕ,
    Reaches (step singleOwner fun _ => false) ApartGrantStep
      (State.initial 0 ⟨∅, ∅, ∅⟩ [] [] []) state ∧
    state.shared.rows.grants.lookup 10 = some (hourGrant 10 1 0).row ∧
    state.shared.rows.grants.lookup 11 = some (hourGrant 11 1 1).row ∧
    state.shared.rows.RolesApart := by
  have hrun : (checkedRun (step singleOwner fun _ => false) firstGrantsCheck
      (State.initial 0 ⟨∅, ∅, ∅⟩ [] [] [] : State ℕ ℕ)
      [.grant (hourGrant 10 1 0), .advance 0 .ok, .advance 0 .ok,
        .grant (hourGrant 11 1 1), .advance 1 .ok, .advance 1 .ok, .advance 0 .ok,
        .advance 0 .ok]).any
        (fun state => decide (
          state.shared.rows.grants.lookup 10 = some (hourGrant 10 1 0).row ∧
          state.shared.rows.grants.lookup 11 = some (hourGrant 11 1 1).row)) = true := by
    decide
  obtain ⟨state, hreach, htest⟩ := exists_reaches_of_checkedRun (fun state => state.Fresh)
    (fun _ _ => apartGrantStep_of_check) (fun _ _ _ => fresh_step) (fun _ _ => rfl) hrun
  obtain ⟨hfirst, hsecond⟩ := of_decide_eq_true htest
  exact ⟨state, hreach, hfirst, hsecond, key_roles_stay_apart _ _ 0 _ [] [] [] _
    (by rintro _ _ ⟨⟩) (by rintro _ ⟨⟩) hreach⟩

/-- Device 10 moves from recovery key 20 to 21, and key 20 becomes a device.
The core refuses the second grant of device 10, and its revert makes key 20 a
recovery key again. -/
theorem revert_gives_a_device_a_second_role : ∃ (state : State ℕ ℕ) (row other : GrantRow ℕ),
    Reaches (step singleOwner fun _ => false) everyStep (State.initial 0 ⟨∅, ∅, ∅⟩ [] [] []) state ∧
    row ∈ state.shared.rows.rows ∧ other ∈ state.shared.rows.rows ∧ row ≠ other ∧
    row.device = other.recovery := by
  have hrun : (runActions (step singleOwner fun _ => false)
      (State.initial 0 ⟨∅, ∅, ∅⟩ [] [] [] : State ℕ ℕ)
      ([.grant (hourGrant 10 1 0)] ++ List.replicate 4 (.advance 0 .ok) ++
        [.grant { hourGrant 10 2 1 with recovery := 21 }, .advance 1 .ok, .advance 1 .ok,
          .grant { hourGrant 20 3 2 with recovery := 22 }, .advance 2 .ok, .advance 2 .ok,
          .advance 1 .ok, .advance 1 .failed, .advance 1 .ok])).any
        (fun state => decide (
          { hourGrant 20 3 2 with recovery := 22 }.row ∈ state.shared.rows.rows ∧
          (hourGrant 10 1 0).row ∈ state.shared.rows.rows)) = true := by
    decide
  obtain ⟨state, hreach, htest⟩ := exists_reaches_of_runActions hrun
  obtain ⟨hrow, hother⟩ := of_decide_eq_true htest
  exact ⟨state, _, _, hreach, hrow, hother, by decide, rfl⟩

end DeviceGrants
end Wildbloom
