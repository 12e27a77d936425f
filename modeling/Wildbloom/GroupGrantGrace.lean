import Wildbloom.GroupGrantFinality

/-!
# The grace of an ended grant

A device whose grant ended may delete its own claims for seven days more.  The
end is computed from the rows and floors at hand, so a floor that is pruned or
replaced can move it later.  Where no floor that ends a retained grant goes away
before the grant's own revocation or expiration is seven days past, a grace that
is over stays over.
-/

namespace Wildbloom
namespace GroupGrants

open Runs KeyedTables

variable {Key : Type} [DecidableEq Key] {now later : ℕ} {rows : GroupRows Key}
  {row : GroupGrantRow Key} {device : Key} {enrolled : Key → Bool} {ended : ℕ}

/-! ## When a grace is over -/

def OverAlone (now : ℕ) (row : GroupGrantRow Key) : Prop :=
  (∃ revoked, row.revokedAt = some revoked ∧ revoked + selfDeleteGrace ≤ now) ∨
    row.expiration + selfDeleteGrace ≤ now

/-- Seven days have passed since the grant ended, by its own end or by the
floor that covers it. -/
def Over (now : ℕ) (rows : GroupRows Key) (row : GroupGrantRow Key) : Prop :=
  OverAlone now row ∨ ∃ floor, rows.floors.lookup row.group = some floor ∧
      row.createdAt ≤ floor.createdAt ∧
      floor.createdAt + selfDeleteGrace ≤ now

omit [DecidableEq Key] in
theorem OverAlone.tick (hover : OverAlone now row) (hle : now ≤ later) : OverAlone later row := by
  rcases hover with ⟨revoked, hrevoked, hpassed⟩ | hpassed
  · exact .inl ⟨revoked, hrevoked, hpassed.trans hle⟩
  · exact .inr (hpassed.trans hle)

theorem Over.tick (hover : Over now rows row) (hle : now ≤ later) : Over later rows row := by
  rcases hover with halone | ⟨floor, hfloor, hcovers, hpassed⟩
  · exact .inl (halone.tick hle)
  · exact .inr ⟨floor, hfloor, hcovers, hpassed.trans hle⟩

theorem mem_ends : ended ∈ row.revokedAt.toList ++
        ((rows.coveringFloor row).map (·.createdAt)).toList ++
        (if row.expiration ≤ now then [row.expiration] else []) ↔
      row.revokedAt = some ended ∨ (∃ floor, rows.floors.lookup row.group = some floor ∧
          row.createdAt ≤ floor.createdAt ∧ floor.createdAt = ended) ∨
        row.expiration ≤ now ∧ row.expiration = ended := by
  simp only [List.mem_append, Option.mem_toList, Option.map_eq_some_iff,
    GroupRows.coveringFloor_eq_some, or_assoc,
    and_assoc]
  refine or_congr_right (or_congr_right ?_)
  split_ifs with hexpired <;> simp [hexpired, eq_comm]

theorem over_of_endedAt (hended : rows.endedAt now row = some ended)
    (hpassed : ended + selfDeleteGrace ≤ now) : Over now rows row := by
  rw [GroupRows.endedAt, List.min?_eq_some_iff, mem_ends] at hended
  rcases hended.1 with hrevoked | ⟨floor, hfloor, hcovers, rfl⟩ | ⟨_, rfl⟩
  · exact .inl (.inl ⟨ended, hrevoked, hpassed⟩)
  · exact .inr ⟨floor, hfloor, hcovers, hpassed⟩
  · exact .inl (.inr hpassed)

theorem Over.endedAt_le (hover : Over now rows row) (hended : rows.endedAt now row = some ended) :
    ended + selfDeleteGrace ≤ now := by
  rw [GroupRows.endedAt, List.min?_eq_some_iff] at hended
  have hfirst : ∀ other, _ → ended ≤ other :=
    fun other hother => hended.2 other (mem_ends.mpr hother)
  rcases hover with (⟨revoked, hrevoked, hpassed⟩ | hpassed) | ⟨floor, hfloor, hcovers, hpassed⟩
  · have hle := hfirst revoked (.inl hrevoked)
    omega
  · have hle := hfirst row.expiration (.inr (.inr ⟨by omega, rfl⟩))
    omega
  · have hle := hfirst floor.createdAt (.inr (.inl ⟨floor, hfloor, hcovers, rfl⟩))
    omega

def Shut (enrolled : Key → Bool) (device : Key) (now : ℕ) (rows : GroupRows Key) : Prop :=
  ∀ id row, rows.grants.lookup id = some row → row.device = device →
    .delete ∈ row.scopes → enrolled row.keeper = true → Over now rows row

theorem Shut.not_inGrace (hshut : Shut enrolled device now rows) :
    rows.inGrace enrolled now .delete device = false := by
  rw [GroupRows.inGrace, List.any_eq_false]
  intro row hrow
  obtain ⟨⟨id, hid⟩, hdevice⟩ := GroupRows.mem_rowsFor.mp hrow
  simp only [Bool.and_eq_true, decide_eq_true_eq, not_and, and_imp]
  intro hscope henrolled hgrace
  have hover := hshut id row hid hdevice hscope henrolled
  cases hended : rows.endedAt now row with
  | none => simp [hended] at hgrace
  | some ended =>
    have hpassed := hover.endedAt_le hended
    rw [hended, Option.any_some, decide_eq_true_eq] at hgrace
    omega

theorem shut_of_not_inGrace (hended : ∀ row ∈ rows.rowsFor device, (rows.endedAt now row).isSome)
    (hgrace : rows.inGrace enrolled now .delete device = false) :
    Shut enrolled device now rows := by
  intro id row hid hdevice hscope henrolled
  have hrow := GroupRows.mem_rowsFor.mpr ⟨⟨id, hid⟩, hdevice⟩
  obtain ⟨ended, hend⟩ := Option.isSome_iff_exists.mp (hended row hrow)
  rw [GroupRows.inGrace, List.any_eq_false] at hgrace
  have hnot := hgrace row hrow
  simp only [hscope, henrolled, hend, decide_true, Option.any_some,
    Bool.true_and, decide_eq_true_eq, not_lt] at hnot
  exact over_of_endedAt hend hnot

/-! ## The steps that keep an end -/

def Retained (now : ℕ) (row : GroupGrantRow Key) : Prop :=
  now ≤ row.retainUntil + selfDeleteGrace

/-- A prune drops no floor, and a reset replaces none, that ends a retained
delete grant whose own revocation or expiration is not seven days past; a
restart keeps the enrolled keepers. -/
def EndKeepingStep (state : State Key) : Action Key → Prop
  | .prune =>
    ∀ id row, state.shared.db.grants.lookup id = some row →
      .delete ∈ row.scopes → Retained state.shared.clock row →
      ∀ floor, state.shared.db.coveringFloor row = some floor →
        floor.expiresAt < state.shared.clock → OverAlone state.shared.clock row
  | .advance id _ _ =>
    ∀ post plan group newFloor, state.requests id = some (.post post) → post.pc = .commit plan →
      plan.floor = some (group, newFloor) →
      ∀ id row, state.shared.db.grants.lookup id = some row →
        .delete ∈ row.scopes → row.group = group →
        ∀ floor, state.shared.db.coveringFloor row = some floor → OverAlone state.shared.clock row
  | .restart settings _ =>
    ∀ key, settings.enrolled key = state.shared.settings.enrolled key
  | _ => True

def GroupEvent.Names (event : GroupEvent Key) (device : Key) : Prop :=
  ∃ terms, event.body = .grant terms ∧ terms.device = device

def SilentStep (device : Key) (state : State Key) (action : Action Key) : Prop :=
  ∀ id devices outcome post plan, action = .advance id devices outcome →
    state.requests id = some (.post post) → post.pc = .commit plan → ¬post.event.Names device

variable {signed : GroupEvent Key → Prop} {state stepped : State Key} {action : Action Key}

theorem lookup_prune {id : Key × Key} (hrow : (rows.prune now).grants.lookup id = some row) :
    rows.grants.lookup id = some row ∧ Retained now row := by
  simp only [GroupRows.prune, lookup_keepEntries, Option.filter_eq_some_iff,
    decide_eq_true_eq] at hrow
  exact ⟨hrow.1, by unfold Retained; omega⟩

theorem lookup_floors_prune {group : Key × Key} {floor : Floor Key}
    (hfloor : rows.floors.lookup group = some floor) :
    (rows.prune now).floors.lookup group = some floor ∨ floor.expiresAt < now := by
  simp only [GroupRows.prune, lookup_keepEntries, hfloor,
    Option.filter_eq_some_iff, decide_eq_true_eq]
  by_cases hold : floor.expiresAt < now
  · exact .inr hold
  · exact .inl (by simpa using hold)

/-- What ends a row of the database in the snapshot ends it in the database
too, or its own end is long past. -/
def Explained (shared : Shared Key) : Prop :=
  ∀ id row floor, shared.db.grants.lookup id = some row →
    .delete ∈ row.scopes → shared.snapshot.coveringFloor row = some floor →
      OverAlone shared.clock row ∨ shared.db.floors.lookup row.group = some floor

theorem Explained.prune (hexplained : Explained state.shared)
    (hkeeping : EndKeepingStep state .prune) :
    Explained { state.shared with db := state.shared.db.prune state.shared.clock } := by
  intro id row floor hrow hscope hcovers
  obtain ⟨hold, hretained⟩ := lookup_prune hrow
  rcases hexplained id row floor hold hscope hcovers with halone | hfloor
  · exact .inl halone
  · rcases lookup_floors_prune hfloor with hkept | hlapsed
    · exact .inr hkept
    · have hends : state.shared.db.coveringFloor row = some floor :=
        GroupRows.coveringFloor_eq_some.mpr ⟨hfloor, (GroupRows.coveringFloor_eq_some.mp hcovers).2⟩
      exact .inl (hkeeping id row hold hscope hretained floor hends hlapsed)

/-! ## A grace that is over -/

theorem Shut.tick (hshut : Shut enrolled device now rows) (hle : now ≤ later) :
    Shut enrolled device later rows :=
  fun id row hrow hdevice hscope henrolled =>
    (hshut id row hrow hdevice hscope henrolled).tick hle

theorem Shut.prune (hshut : Shut enrolled device state.shared.clock state.shared.db)
    (hkeeping : EndKeepingStep state .prune) :
    Shut enrolled device state.shared.clock (state.shared.db.prune state.shared.clock) := by
  intro id row hrow hdevice hscope henrolled
  obtain ⟨hold, hretained⟩ := lookup_prune hrow
  rcases hshut id row hold hdevice hscope henrolled with
    halone | ⟨floor, hfloor, hcovers, hpassed⟩
  · exact .inl halone
  · rcases lookup_floors_prune hfloor with hkept | hlapsed
    · exact .inr ⟨floor, hkept, hcovers, hpassed⟩
    · have hends : state.shared.db.coveringFloor row = some floor :=
        GroupRows.coveringFloor_eq_some.mpr ⟨hfloor, hcovers⟩
      exact .inl (hkeeping id row hold hscope hretained floor hends hlapsed)

section

variable (horderly : Orderly signed state) {number : ℕ} {devices : Devices Key} {outcome : Outcome}
  {work : Post Key} {plan : Plan Key} (hrequest : state.requests number = some (.post work))
  (hpc : work.pc = .commit plan) (hkeeping : EndKeepingStep state (.advance number devices outcome))
include horderly hrequest hpc hkeeping

/-- A commit: a reset that replaces a floor finds the rows under it over, and a
new row is newer than the floor of its group. -/
theorem Explained.commit (hexplained : Explained state.shared) :
    Explained { state.shared with db := state.shared.db.write plan } := by
  obtain ⟨_, authority, earlier, _, hdecides⟩ :=
    (horderly.posts number _ hrequest work rfl).writing plan (by rw [hpc]; rfl)
  have hkept := horderly.synced (horderly.settled_of_commit hrequest hpc)
  intro id row floor hrow hscope hcovers
  obtain ⟨hfloor, hle⟩ := GroupRows.coveringFloor_eq_some.mp hcovers
  cases hdecides with
  | held => exact hexplained id row floor hrow hscope hcovers
  | reset room server hbody hnewer =>
    refine (hexplained id row floor hrow hscope hcovers).elim .inl
      fun hdb => ?_
    by_cases hgroup : row.group = (work.event.keeper, room)
    · have hends : state.shared.db.coveringFloor row = some floor :=
        GroupRows.coveringFloor_eq_some.mpr ⟨hdb, hle⟩
      exact .inl (hkeeping work _ _ _ hrequest hpc rfl id row hrow hscope hgroup floor hends)
    · refine .inr ?_
      simp only [GroupRows.write, resetPlan, Option.elim_none,
        Option.elim_some, GroupRows.writeFloor, AList.lookup_insert_ne hgroup]
      exact hdb
  | grant terms hbody hfits =>
    simp only [lookup_grants_write fun old hold =>
      hfits.same old (hkept.grant hold)] at hrow
    rw [floors_write_grantPlan]
    split_ifs at hrow with hid
    · rw [Option.some.injEq] at hrow
      subst hrow
      have hlt := hfits.floor floor hfloor
      simp only [grantRow] at hle
      omega
    · exact hexplained id row floor hrow hscope hcovers

theorem Shut.commit (hshut : Shut enrolled device state.shared.clock state.shared.db)
    (hsilent : SilentStep device state (.advance number devices outcome)) :
    Shut enrolled device state.shared.clock (state.shared.db.write plan) := by
  obtain ⟨_, authority, earlier, _, hdecides⟩ :=
    (horderly.posts number _ hrequest work rfl).writing plan (by rw [hpc]; rfl)
  have hkept := horderly.synced (horderly.settled_of_commit hrequest hpc)
  intro id row hrow hdevice hscope henrolled
  cases hdecides with
  | held => exact hshut id row hrow hdevice hscope henrolled
  | reset room server hbody hnewer =>
    rcases hshut id row hrow hdevice hscope henrolled with
      halone | ⟨floor, hfloor, hcovers, hpassed⟩
    · exact .inl halone
    · by_cases hgroup : row.group = (work.event.keeper, room)
      · have hends : state.shared.db.coveringFloor row = some floor :=
          GroupRows.coveringFloor_eq_some.mpr ⟨hfloor, hcovers⟩
        exact .inl (hkeeping work _ _ _ hrequest hpc rfl id row hrow hscope hgroup floor hends)
      · refine .inr ⟨floor, ?_, hcovers, hpassed⟩
        simp only [GroupRows.write, resetPlan, Option.elim_none,
          Option.elim_some, GroupRows.writeFloor,
          AList.lookup_insert_ne hgroup]
        exact hfloor
  | grant terms hbody hfits =>
    simp only [lookup_grants_write fun old hold =>
      hfits.same old (hkept.grant hold)] at hrow
    rw [Over, floors_write_grantPlan]
    split_ifs at hrow with hid
    · rw [Option.some.injEq] at hrow
      subst hrow
      exact absurd ⟨terms, hbody, hdevice⟩ (hsilent number devices outcome work _ rfl hrequest hpc)
    · exact hshut id row hrow hdevice hscope henrolled

end

theorem Explained.step (hexplained : Explained state.shared)
    (horderly : Orderly signed state) (hkeeping : EndKeepingStep state action)
    (hstep : GroupGrants.step state action = some stepped) : Explained stepped.shared := by
  have hmove := tableMove_of_step hstep
  generalize stepped.shared = next at hmove
  cases hmove with
  | tick seconds =>
    intro id row floor hrow hscope hcovers
    exact (hexplained id row floor hrow hscope hcovers).imp_left (·.tick (Nat.le_add_right _ _))
  | prune => exact hexplained.prune hkeeping
  | restart | reload =>
    intro id row floor _ _ hcovers
    exact .inr (GroupRows.coveringFloor_eq_some.mp hcovers).1
  | commit number devices outcome work plan hrequest hpc =>
    exact hexplained.commit horderly hrequest hpc hkeeping
  | keep _ _ hclock _ hdb hsnapshot =>
    intro id row floor
    rw [hclock, hdb, hsnapshot]
    exact hexplained id row floor

def BothShut (device : Key) (shared : Shared Key) : Prop :=
  OnTables (Shut shared.settings.enrolled device) shared

theorem BothShut.step (hshut : BothShut device state.shared)
    (horderly : Orderly signed state) (hkeeping : EndKeepingStep state action)
    (hsilent : SilentStep device state action)
    (hstep : GroupGrants.step state action = some stepped) : BothShut device stepped.shared := by
  have hmove := tableMove_of_step hstep
  generalize stepped.shared = next at hmove
  cases hmove with
  | tick seconds =>
    exact ⟨hshut.snapshot.tick (Nat.le_add_right _ _), hshut.db.tick (Nat.le_add_right _ _)⟩
  | prune => exact ⟨hshut.snapshot, hshut.db.prune hkeeping⟩
  | restart settings devices =>
    have hsame : settings.enrolled = state.shared.settings.enrolled :=
      funext hkeeping
    have hdb : Shut settings.enrolled device state.shared.clock
        state.shared.db := by
      rw [hsame]
      exact hshut.db
    exact ⟨hdb, hdb⟩
  | reload => exact ⟨hshut.db, hshut.db⟩
  | commit number devices outcome work plan hrequest hpc =>
    exact ⟨hshut.snapshot, hshut.db.commit horderly hrequest hpc hkeeping hsilent⟩
  | keep _ _ hclock hsettings hdb hsnapshot =>
    constructor
    · rw [hclock, hsettings, hsnapshot]
      exact hshut.snapshot
    · rw [hclock, hsettings, hdb]
      exact hshut.db

/-- Where the snapshot is shut for a device of which nothing is being recorded,
so is the database. -/
theorem bothShut_of_snapshot (horderly : Orderly signed state) (hexplained : Explained state.shared)
    (hrecording : ∀ id post plan, state.requests id = some (.post post) →
      post.pc = .reload plan → ¬post.event.Names device)
    (hshut : Shut state.shared.settings.enrolled device state.shared.clock state.shared.snapshot) :
    BothShut device state.shared := by
  have hsource : ∀ id row, state.shared.db.grants.lookup id = some row →
      row.device = device → state.shared.snapshot.grants.lookup id = some row
      := by
    intro id row hrow hdevice
    by_cases hsettled : Settled state
    · exact (horderly.synced hsettled).grant hrow
    · simp only [Settled, not_forall, not_not] at hsettled
      obtain ⟨number, _, hrequest, post, rfl, plan, hpc⟩ := hsettled
      obtain ⟨_, authority, earlier, _, hdecides⟩ :=
        (horderly.posts number _ hrequest post rfl).writing plan (by rw [hpc]; rfl)
      have hfull :=
        (horderly.reloading number _ hrequest post rfl plan hpc).grant hrow
      cases hdecides with
      | held | reset => exact hfull
      | grant terms hbody hfits =>
        rw [lookup_grants_write hfits.same] at hfull
        split_ifs at hfull with hid
        · rw [Option.some.injEq] at hfull
          subst hfull
          exact absurd ⟨terms, hbody, hdevice⟩ (hrecording number post _ hrequest hpc)
        · exact hfull
  refine ⟨hshut, fun id row hrow hdevice hscope henrolled => ?_⟩
  rcases hshut id row (hsource id row hrow hdevice) hdevice hscope henrolled
    with halone | ⟨floor, hfloor, hcovers, hpassed⟩
  · exact .inl halone
  · have hends : state.shared.snapshot.coveringFloor row = some floor :=
      GroupRows.coveringFloor_eq_some.mpr ⟨hfloor, hcovers⟩
    rcases hexplained id row floor hrow hscope hends with halone | hdb
    · exact .inl halone
    · exact .inr ⟨floor, hdb, hcovers, hpassed⟩

/-- In runs that keep the ends of retained delete grants: once a device whose
grants have all ended is out of its grace, it stays out as long as no event that
names it is recorded. -/
theorem grace_stays_closed {clock : ℕ} {settings : Settings Key}
    {devices : Devices Key} {state later : State Key}
    (hreach : Reaches step (fun state action => EndKeepingStep state action ∧ Loads state action)
      (State.initial clock settings devices) state)
    (hrecording : ∀ id post plan, state.requests id = some (.post post) →
      post.pc = .reload plan → ¬post.event.Names device)
    (hended : ∀ row ∈ state.shared.snapshot.rowsFor device,
      (state.shared.snapshot.endedAt state.shared.clock row).isSome = true)
    (hclosed : state.shared.snapshot.inGrace state.shared.settings.enrolled
      state.shared.clock .delete device = false)
    (hlater : Reaches step
      (fun state action => (EndKeepingStep state action ∧ Loads state action) ∧
        SilentStep device state action)
      state later) :
    later.shared.snapshot.inGrace later.shared.settings.enrolled
      later.shared.clock .delete device = false := by
  have hstart : Orderly (fun _ => True) state ∧ Explained state.shared := by
    apply hreach.invariant
    · exact ⟨Orderly.initial clock settings devices, fun _ _ _ hrow => (by cases hrow)⟩
    · rintro before after action ⟨horderly, hexplained⟩ ⟨hkeeping, hloads⟩ hstep
      exact ⟨horderly.step (fun _ _ => trivial) hloads hstep,
        hexplained.step horderly hkeeping hstep⟩
  have hshut := bothShut_of_snapshot hstart.1 hstart.2 hrecording
    (shut_of_not_inGrace hended hclosed)
  have hend : Orderly (fun _ => True) later ∧ BothShut device later.shared := by
    apply hlater.invariant
    · exact ⟨hstart.1, hshut⟩
    · rintro before after action ⟨horderly, hshut⟩ ⟨⟨hkeeping, hloads⟩, hsilent⟩ hstep
      exact ⟨horderly.step (fun _ _ => trivial) hloads hstep,
        hshut.step horderly hkeeping hsilent hstep⟩
  exact hend.2.snapshot.not_inGrace

def longGrant : GroupEvent ℕ where
  id := 21
  keeper := 1
  createdAt := 100
  expiration := 100 + maxGrantSeconds
  body := .grant { smallTerms with scopes := [.delete] }

def resetAtOnce : GroupEvent ℕ where
  id := 22
  keeper := 1
  createdAt := 100
  expiration := 200
  body := .reset 2 9

def outOfGrace (state : State ℕ) : Bool :=
  decide (state.shared.updates = none) &&
    (state.shared.snapshot.rowsFor 3).all (fun row =>
      (state.shared.snapshot.endedAt state.shared.clock row).isSome) &&
    !state.shared.snapshot.inGrace state.shared.settings.enrolled state.shared.clock .delete 3

theorem outOfGrace_iff {state : State ℕ} : outOfGrace state = true ↔ state.shared.updates = none ∧
      (∀ row ∈ state.shared.snapshot.rowsFor 3,
        (state.shared.snapshot.endedAt state.shared.clock row).isSome = true) ∧
      state.shared.snapshot.inGrace state.shared.settings.enrolled
        state.shared.clock .delete 3 = false := by
  simp [outOfGrace, and_assoc]

def isApart : Action ℕ → Bool
  | .advance _ _ _ => false
  | _ => true

/-- A reset ended the grant; eight days later its grace is over.  Ninety days
after the reset its floor is pruned while the row is kept, and the grant's end
is its expiration again, which is not seven days past. -/
theorem grace_reopens_after_a_prune : ∃ state later : State ℕ,
      Reaches step everyStep (State.initial 100 smallNode noDevices) state ∧
      (∀ id post plan, state.requests id = some (.post post) →
        post.pc = .reload plan → ¬post.event.Names 3) ∧
      (∀ row ∈ state.shared.snapshot.rowsFor 3,
        (state.shared.snapshot.endedAt state.shared.clock row).isSome = true) ∧
      state.shared.snapshot.inGrace state.shared.settings.enrolled
        state.shared.clock .delete 3 = false ∧
      Reaches step (SilentStep 3) state later ∧
      later.shared.snapshot.inGrace later.shared.settings.enrolled
        later.shared.clock .delete 3 = true := by
  have hrun : (runActions step (State.initial 100 smallNode noDevices)
      (postThrough longGrant 0 ++ postThrough resetAtOnce 1 ++ [.tick (8 * 24 * 60 * 60)])).any
        (fun state => outOfGrace state && (checkedRun step (fun _ => isApart) state
            [.tick (82 * 24 * 60 * 60 + 1), .prune, .restart smallNode noDevices]).any
            fun later => later.shared.snapshot.inGrace
              later.shared.settings.enrolled later.shared.clock .delete 3) =
        true := by
    decide
  obtain ⟨state, hreach, htest⟩ := exists_reaches_of_runActions hrun
  rw [Bool.and_eq_true, outOfGrace_iff] at htest
  obtain ⟨⟨hunlocked, hended, hclosed⟩, hrest⟩ := htest
  have hsilent : ∃ later, Reaches step (SilentStep 3) state later ∧ _ :=
    exists_reaches_of_check
      (by
        rintro state action hcheck id devices outcome post plan rfl
        cases hcheck) hrest
  obtain ⟨later, hlater, hopen⟩ := hsilent
  have hordered : Ordered (fun _ => True) state :=
    ordered_of_reaches (hreach.mono fun _ _ _ _ _ => trivial)
  refine ⟨state, later, hreach, ?_, hended, hclosed, hlater, hopen⟩
  intro id post plan hpost hpc
  exact absurd hpc (hordered.settled_of_unlocked hunlocked id _ hpost post rfl plan)

def floorlessCheck (state : State ℕ) : Action ℕ → Bool
  | .restart _ _ => false
  | action => !action.isCutOff && decide (state.shared.db.floors.entries = [])

theorem endKeepingStep_of_floorless {state : State ℕ} {action : Action ℕ}
    (hcheck : floorlessCheck state action = true) :
    EndKeepingStep state action ∧ Loads state action := by
  have hnone : ∀ row floor, state.shared.db.floors.entries = [] →
      state.shared.db.coveringFloor row ≠ some floor := by
    intro row floor hempty hcovers
    have hfloor := (GroupRows.coveringFloor_eq_some.mp hcovers).1
    have hmem := AList.mem_lookup_iff.mp hfloor
    rw [hempty] at hmem
    cases hmem
  cases action with
  | restart => cases hcheck
  | prune =>
    simp only [floorlessCheck, Bool.and_eq_true, decide_eq_true_eq] at hcheck
    refine ⟨fun id row _ _ _ floor hcovers => ?_, loads_of_check rfl⟩
    exact absurd hcovers (hnone row floor hcheck.2)
  | advance number devices outcome =>
    simp only [floorlessCheck, Bool.and_eq_true, decide_eq_true_eq] at hcheck
    refine ⟨?_, loads_of_check (by simpa using hcheck.1)⟩
    intro post plan group newFloor _ _ _ id row _ _ _ floor hcovers
    exact absurd hcovers (hnone row floor hcheck.2)
  | _ => exact ⟨trivial, loads_of_check rfl⟩

def shortGrant : GroupEvent ℕ := { longGrant with id := 23, expiration := 200 }

/-- A grant expires, its grace passes, and a later prune does not reopen it. -/
theorem grace_stays_closed_after_expiration : ∃ state later : State ℕ,
      Reaches step (fun state action => EndKeepingStep state action ∧ Loads state action)
        (State.initial 100 smallNode noDevices) state ∧
      Reaches step
        (fun state action => (EndKeepingStep state action ∧ Loads state action) ∧
          SilentStep 3 state action)
        state later ∧
      later.shared.snapshot.inGrace later.shared.settings.enrolled
        later.shared.clock .delete 3 = false := by
  have hrun : (checkedRun step floorlessCheck (State.initial 100 smallNode noDevices)
      (postThrough shortGrant 0 ++ [.tick (8 * 24 * 60 * 60)])).any
        (fun state => outOfGrace state && (checkedRun step
            (fun state action => floorlessCheck state action && isApart action) state
            [.prune, .tick 5]).any fun _ => true) = true := by
    decide
  have hreached : ∃ state, Reaches step
      (fun state action => EndKeepingStep state action ∧ Loads state action)
      (State.initial 100 smallNode noDevices) state ∧ _ :=
    exists_reaches_of_check endKeepingStep_of_floorless hrun
  obtain ⟨state, hreach, htest⟩ := hreached
  rw [Bool.and_eq_true, outOfGrace_iff] at htest
  obtain ⟨⟨hunlocked, hended, hclosed⟩, hrest⟩ := htest
  have hsilent : ∃ later, Reaches step (fun state action =>
      (EndKeepingStep state action ∧ Loads state action) ∧
        SilentStep 3 state action) state later ∧ _ :=
    exists_reaches_of_check
      (by
        intro state action hcheck
        rw [Bool.and_eq_true] at hcheck
        refine ⟨endKeepingStep_of_floorless hcheck.1, ?_⟩
        rintro id devices outcome post plan rfl
        cases hcheck.2) hrest
  obtain ⟨later, hlater, _⟩ := hsilent
  have hordered : Ordered (fun _ => True) state :=
    ordered_of_reaches (hreach.mono fun _ _ _ _ _ => trivial)
  exact ⟨state, later, hreach, hlater, grace_stays_closed hreach
      (fun id post plan hpost hpc => absurd hpc
        (hordered.settled_of_unlocked hunlocked id _ hpost post rfl plan))
      hended hclosed hlater⟩

end GroupGrants
end Wildbloom
