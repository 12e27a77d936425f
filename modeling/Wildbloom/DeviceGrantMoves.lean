import Wildbloom.DeviceGrantMembers
import Wildbloom.DeviceGrantModel
import Wildbloom.GuardedRuns

/-!
# What requests can do

`Grant.Move` and `Revoke.Move` list the steps of the two requests that change
the rows of device grants, where what is committed is read back: the snapshot
is then what the database has.  A grant changes rows when it commits and when
it reverts; a revocation when it commits.  `Sweep.Move` says what a sweep does
to the lock and the keys it takes out; it changes members only.
-/

namespace Wildbloom
namespace DeviceGrants

open Runs

variable {Key Hash : Type} [DecidableEq Key] {config : Config Key} {group : Key → Bool}
  {shared next : Shared Key Hash} {id : ℕ} {outcome : Outcome} {event : GrantEvent Key} {key : Key}
  {sweep : Sweep Key Hash}

def GrantPc.pending : GrantPc Key → Option (Pending Key)
  | .waitPush pending => some pending
  | .pushing pending _ => some pending
  | .revert pending => some pending
  | _ => none

def Rows.capture (rows : Rows Key) (event : GrantEvent Key) : Pending Key where
  previous := rows.grants.lookup event.device
  members :=
    [(event.device, rows.members.lookup event.device),
      (event.recovery, rows.members.lookup event.recovery)]

def Pending.Names (pending : Pending Key) (key : Key) : Prop :=
  (∃ row, pending.previous = some row ∧ row.names key = true) ∨
    ∃ member, (key, some member) ∈ pending.members

theorem knows_of_capture {rows : Rows Key} (hnames : (rows.capture event).Names key) :
    rows.knows key = true := by
  rcases hnames with ⟨row, hrow, hnames⟩ | ⟨member, hmember⟩
  · exact Rows.knows_of_names hrow hnames
  · apply Rows.knows_iff.mpr
    left
    rw [← AList.lookup_isSome]
    simp only [Rows.capture, List.mem_cons, Prod.mk.injEq, List.not_mem_nil, or_false] at hmember
    rcases hmember with ⟨hkey, hfound⟩ | ⟨hkey, hfound⟩ <;>
      rw [hkey, ← hfound] <;> rfl

/-- A grant that meets no conflict is of keys that no group has. -/
theorem Rows.free_of_checkGrantConflicts {rows : Rows Key}
    (hconflict : rows.checkGrantConflicts config group event = none)
    (hnames : event.row.names key = true) : group key = false := by
  simp only [Rows.checkGrantConflicts, Option.orElse_eq_orElse,
    Option.orElse_eq_or, Option.or_eq_none_iff] at hconflict
  obtain ⟨hdevice, hrecovery, _⟩ := hconflict
  rcases (event.row.names_iff key).mp hnames with rfl | rfl
  · split_ifs at hdevice with _ hgroup
    simpa [GrantEvent.row] using hgroup
  · split_ifs at hrecovery with _ hgroup
    simpa [GrantEvent.row] using hgroup

namespace Grant

variable {grant after : Grant Key}

variable (config group shared grant)

inductive Move : Shared Key Hash → Grant Key → Prop
  | quiet (next : Shared Key Hash) (pc : GrantPc Key)
      (hclock : next.clock = shared.clock) (hrows : next.rows = shared.rows)
      (hupdates : next.updates = shared.updates) (hcommit : grant.pc ≠ .commit)
      (hpending : ∀ pending, pc.pending = some pending → grant.pc.pending = some pending) :
      Move next (grant.goto pc)
  | refuse (answer : Answer) (hpc : grant.pc = .commit)
      (hfree : shared.updates = none) : Move shared (grant.goto (.answered answer))
  | commit (next : Shared Key Hash) (hpc : grant.pc = .commit)
      (hfree : shared.updates = none)
      (hconflict : shared.rows.checkGrantConflicts config group grant.event = none)
      (hclock : next.clock = shared.clock) (hupdates : next.updates = shared.updates)
      (hrows : next.rows = shared.rows.commitGrant config shared.clock grant.event) :
      Move next (grant.goto (.waitPush (shared.rows.capture grant.event)))
  | revert (next : Shared Key Hash) (pending : Pending Key)
      (hpc : grant.pc = .revert pending) (hfree : shared.updates = none)
      (hcurrent : shared.rows.grants.lookup grant.event.device = some grant.event.row)
      (hclock : next.clock = shared.clock) (hupdates : next.updates = shared.updates)
      (hrows : next.rows = shared.rows.revert grant.event.device pending.previous pending.members) :
      Move next (grant.goto .waitRepush)

variable {config group shared grant}

theorem move_of_step (hsync : shared.db = shared.rows) (hreads : outcome.reads = true)
    (hstep : grant.step config group shared id outcome = some (next, after)) :
    Move config group shared grant next after := by
  obtain ⟨event, pc⟩ := grant
  cases pc with simp only [step] at hstep
  | verify =>
    split at hstep <;> cases hstep <;>
      exact .quiet _ _ rfl rfl rfl (by simp) (by simp [GrantPc.pending])
  | commit =>
    by_cases hfree : shared.updates = none
    · rw [if_neg (not_not.mpr hfree)] at hstep
      split at hstep
      · cases hstep
        exact .refuse _ rfl hfree
      next hconflict =>
        rw [if_pos hreads] at hstep
        split_ifs at hstep <;> cases hstep
        · exact .refuse _ rfl hfree
        · exact .refuse _ rfl hfree
        · refine .commit _ rfl hfree hconflict rfl rfl ?_
          simp [Shared.store, hreads, hsync, Rows.commitGrant]
    · rw [if_pos hfree] at hstep
      cases hstep
  | waitPush pending =>
    split_ifs at hstep
    cases hstep
    exact .quiet _ _ rfl rfl rfl (by simp) (by simp [GrantPc.pending])
  | pushing pending keys =>
    split_ifs at hstep <;> cases hstep <;>
      exact .quiet _ _ rfl rfl rfl (by simp)
        (by simp [GrantPc.pending])
  | revert pending =>
    rw [if_pos hreads] at hstep
    split_ifs at hstep with hlock hcurrent _ <;> cases hstep
    · exact .quiet _ _ rfl rfl rfl (by simp) (by simp [GrantPc.pending])
    · refine .revert _ pending rfl (not_not.mp hlock) hcurrent rfl rfl ?_
      simp [Shared.store, hreads, hsync]
    · exact .quiet _ _ rfl rfl rfl (by simp) (by simp [GrantPc.pending])
  | waitRepush =>
    split_ifs at hstep
    cases hstep
    exact .quiet _ _ rfl rfl rfl (by simp) (by simp [GrantPc.pending])
  | repushing keys =>
    cases hstep
    exact .quiet _ _ rfl rfl rfl (by simp) (by simp [GrantPc.pending])
  | answered answer =>
    cases hstep

theorem step_inFlight (hstep : grant.step config group shared id outcome = some (next, after)) :
    next.inFlight = shared.inFlight ∧ next.claims = shared.claims := by
  simp only [step] at hstep
  repeat' split at hstep
  all_goals cases hstep <;> exact ⟨rfl, rfl⟩

theorem synced_of_step (hsync : shared.db = shared.rows) (hreads : outcome.reads = true)
    (hstep : grant.step config group shared id outcome = some (next, after)) :
    next.db = next.rows := by
  simp only [step, Shared.store, hreads, if_true] at hstep
  repeat' split at hstep
  all_goals cases hstep <;> first | exact hsync | rfl

end Grant

namespace Revoke

variable {revoke after : Revoke Key}

inductive Move (shared : Shared Key Hash) (revoke : Revoke Key) :
    Shared Key Hash → Revoke Key → Prop
  | quiet (pc : RevokePc) (hpc : pc ≠ .answered .revoked) :
      Move shared revoke shared (revoke.goto pc)
  | commit (next : Shared Key Hash) (hpc : revoke.pc = .commit)
      (hfree : shared.updates = none)
      (hnewer : ∀ last, shared.rows.lastEventAt revoke.event.device = some last →
          last < revoke.event.createdAt)
      (hclock : next.clock = shared.clock) (hupdates : next.updates = shared.updates)
      (hrows : next.rows = shared.rows.commitRevoke revoke.event.device
        revoke.event.createdAt shared.clock) :
      Move shared revoke next (revoke.goto (.answered .revoked))

theorem move_of_step (hsync : shared.db = shared.rows) (hreads : outcome.reads = true)
    (hstep : revoke.step config shared outcome = some (next, after)) :
    Move shared revoke next after := by
  obtain ⟨event, pc⟩ := revoke
  cases pc with
  | verify =>
    simp only [step] at hstep
    split at hstep <;> cases hstep <;> exact .quiet _ (by simp)
  | commit =>
    simp only [step] at hstep
    rw [if_pos hreads] at hstep
    split_ifs at hstep with hlock hnewer _ _ <;> cases hstep
    · exact .quiet _ (by simp)
    · exact .quiet _ (by simp)
    · exact .quiet _ (by simp)
    · refine .commit _ rfl (not_not.mp hlock) ?_ rfl rfl ?_
      · intro last hlast
        simpa [hlast] using hnewer
      · simp [Shared.store, hreads, hsync, Rows.commitRevoke]
  | answered answer =>
    cases hstep

theorem step_inFlight (hstep : revoke.step config shared outcome = some (next, after)) :
    next.inFlight = shared.inFlight ∧ next.claims = shared.claims := by
  simp only [step] at hstep
  repeat' split at hstep
  all_goals cases hstep <;> exact ⟨rfl, rfl⟩

theorem synced_of_step (hsync : shared.db = shared.rows) (hreads : outcome.reads = true)
    (hstep : revoke.step config shared outcome = some (next, after)) :
    next.db = next.rows := by
  simp only [step, Shared.store, hreads, if_true] at hstep
  repeat' split at hstep
  all_goals cases hstep <;> first | exact hsync | rfl

end Revoke

/-! ## Sweeps -/

def SweepPc.isLocked : SweepPc Key Hash → Bool
  | .lock | .waitPush | .pushing _ | .putBack | .done => false
  | _ => true

def SweepPc.ended : SweepPc Key Hash → List (Key × Member Key)
  | .move ended => ended
  | .listing key member ended => (key, member) :: ended
  | .moving key member _ _ ended => (key, member) :: ended
  | _ => []

def Sweep.leaving (sweep : Sweep Key Hash) : List (Key × Member Key) :=
  sweep.transferred ++ sweep.pc.ended

def SweepPc.current : SweepPc Key Hash → Option Key
  | .listing key _ _ => some key
  | .moving key _ _ _ _ => some key
  | _ => none

def Sweep.closed (sweep : Sweep Key Hash) : List Key :=
  sweep.transferred.map Prod.fst ++ sweep.pc.current.toList

omit [DecidableEq Key] in
theorem Sweep.transferred_mem_closed {entry : Key × Member Key}
    (hentry : entry ∈ sweep.transferred) :
    entry.1 ∈ sweep.closed :=
  List.mem_append_left _ (List.mem_map_of_mem hentry)

omit [DecidableEq Key] in
theorem Sweep.current_mem_closed (hcurrent : sweep.pc.current = some key) : key ∈ sweep.closed := by
  apply List.mem_append_right
  rw [hcurrent]
  exact List.mem_cons_self

namespace Sweep

variable {before after : Shared Key Hash} {work next : Sweep Key Hash} {member : Member Key}

inductive Move (config : Config Key) (before : Shared Key Hash) (id : ℕ)
    (work : Sweep Key Hash) (after : Shared Key Hash) (next : Sweep Key Hash) : Prop
  | lock (hfree : before.updates = none) (hlocked : work.pc.isLocked = false)
      (hupdates : after.updates = some id) (hrows : after.rows = before.rows)
      (hnow : next.now = before.clock) (hsnapshot : next.snapshot = before.rows)
      (hleaving : next.leaving = []) (hclosed : next.closed = [])
  | inside (hlocked : work.pc.isLocked = true)
      (hupdates : after.updates = before.updates)
      (hrows : after.rows = before.rows) (hnow : next.now = work.now)
      (hsnapshot : next.snapshot = work.snapshot)
      (hleaving : ∀ entry ∈ next.leaving, entry ∈ work.leaving ∨ entry ∈ work.ended config)
      (hclosed : ∀ key ∈ next.closed, key ∈ work.closed ∨ before.inFlight key = 0)
  | unlock (hlocked : work.pc.isLocked = true)
      (hfinished : next.pc.isLocked = false)
  | outside (hlocked : work.pc.isLocked = false)
      (hstill : next.pc.isLocked = false) (hupdates : after.updates = before.updates)
      (hrows : after.rows = before.rows ∨ before.updates = none)

theorem move_inside (hlocked : work.pc.isLocked = true) (hupdates : after.updates = before.updates)
    (hrows : after.rows = before.rows) (hnow : next.now = work.now)
    (hsnapshot : next.snapshot = work.snapshot) (htransferred : next.transferred = work.transferred)
    (hended : ∀ entry ∈ next.pc.ended, entry ∈ work.pc.ended ∨ entry ∈ work.ended config)
    (hcurrent : ∀ key, next.pc.current = some key →
      work.pc.current = some key ∨ before.inFlight key = 0) :
    Move config before id work after next := by
  refine .inside hlocked hupdates hrows hnow hsnapshot ?_ ?_
  · intro entry hentry
    rw [Sweep.leaving, htransferred] at hentry
    rcases List.mem_append.mp hentry with hentry | hentry
    · exact Or.inl (List.mem_append_left _ hentry)
    · exact (hended entry hentry).imp_left fun hmem =>
        List.mem_append_right _ hmem
  · intro key hkey
    rw [Sweep.closed, htransferred] at hkey
    rcases List.mem_append.mp hkey with hkey | hkey
    · exact Or.inl (List.mem_append_left _ hkey)
    · rw [Option.mem_toList] at hkey
      exact (hcurrent key hkey).imp_left Sweep.current_mem_closed

theorem move_idle {pc : SweepPc Key Hash} (hlocked : work.pc.isLocked = true)
    (hupdates : after.updates = before.updates)
    (hrows : after.rows = before.rows) (hended : pc.ended = []) (hcurrent : pc.current = none) :
    Move config before id work after (work.goto pc) := by
  refine move_inside hlocked hupdates hrows rfl rfl rfl ?_ ?_
  · intro entry hentry
    rw [Sweep.goto, hended] at hentry
    cases hentry
  · intro key hkey
    rw [Sweep.goto, hcurrent] at hkey
    cases hkey

theorem move_transferred {ended : List (Key × Member Key)}
    (hpc : work.pc = .moving key member [] false ended) :
    Move config before id work before
      { work with transferred := work.transferred ++ [(key, member)], pc := .move ended } := by
  refine .inside (by rw [hpc]; rfl) rfl rfl rfl rfl ?_ ?_
  · intro entry hentry
    left
    simp only [Sweep.leaving, SweepPc.ended, List.mem_append, hpc, List.mem_cons] at hentry ⊢
    tauto
  · intro found hfound
    left
    simp only [Sweep.closed, SweepPc.current, List.map_append, List.map_cons,
      List.map_nil, Option.toList_none, List.append_nil, List.mem_append,
      List.mem_singleton, hpc, Option.toList_some] at hfound ⊢
    exact hfound

theorem move_moving {page : List (Key × Hash)} {full : Bool} {ended : List (Key × Member Key)}
    (hpc : work.pc = .moving key member page full ended) (hupdates : after.updates = before.updates)
    (hrows : after.rows = before.rows) (hnow : next.now = work.now)
    (hsnapshot : next.snapshot = work.snapshot) (htransferred : next.transferred = work.transferred)
    (hend : next.pc.ended = (key, member) :: ended ∧ next.pc.current = some key ∨
      next.pc = .move ended) : Move config before id work after next := by
  refine move_inside (by rw [hpc]; rfl) hupdates hrows hnow hsnapshot htransferred ?_ ?_
  · rw [hpc]
    intro entry hentry
    rcases hend with ⟨hended, _⟩ | hmove
    · rw [hended] at hentry
      exact Or.inl hentry
    · rw [hmove] at hentry
      exact Or.inl (List.mem_cons_of_mem _ hentry)
  · rw [hpc]
    intro found hfound
    rcases hend with ⟨_, hcurrent⟩ | hmove
    · rw [hcurrent] at hfound
      exact Or.inl hfound
    · rw [hmove] at hfound
      cases hfound

section

variable [DecidableEq Hash] (hstep : work.step config before id outcome = some (after, next))
include hstep

theorem move_of_step : Move config before id work after next := by
  obtain ⟨now, snapshot, attempted, transferred, pc⟩ := work
  cases pc with
  | lock =>
    simp only [step] at hstep
    split_ifs at hstep with hlock
    cases hstep
    exact .lock (not_not.mp hlock) rfl rfl rfl rfl rfl rfl rfl
  | restore due =>
    cases due with
    | nil =>
      cases hstep
      refine move_inside rfl rfl rfl rfl rfl rfl ?_ ?_
      · exact fun entry hentry => Or.inr hentry
      · rintro _ ⟨⟩
    | cons key due =>
      simp only [step] at hstep
      repeat' split at hstep
      all_goals
        cases hstep
        exact move_idle rfl rfl rfl rfl rfl
  | restoring key todo due =>
    cases todo with
    | nil =>
      cases hstep
      exact move_idle rfl rfl rfl rfl rfl
    | cons moved todo =>
      simp only [step] at hstep
      split at hstep <;> cases hstep <;>
        exact move_idle rfl rfl rfl rfl rfl
  | move ended =>
    cases ended with
    | nil =>
      cases hstep
      exact move_idle rfl rfl rfl rfl rfl
    | cons entry ended =>
      obtain ⟨key, member⟩ := entry
      simp only [step] at hstep
      split_ifs at hstep with hidle <;> cases hstep
      · refine move_inside rfl rfl rfl rfl rfl rfl ?_ ?_
        · exact fun entry hentry => Or.inl hentry
        · rintro _ ⟨⟩
          exact Or.inr hidle
      · refine move_inside rfl rfl rfl rfl rfl rfl ?_ ?_
        · exact fun entry hentry => Or.inl (List.mem_cons_of_mem _ hentry)
        · rintro _ ⟨⟩
  | listing key member ended =>
    cases hstep
    refine move_inside rfl rfl rfl rfl rfl rfl ?_ ?_
    · exact fun entry hentry => Or.inl hentry
    · exact fun key hkey => Or.inl hkey
  | moving key member page full ended =>
    cases page with
    | nil =>
      simp only [step] at hstep
      cases full with
      | true =>
        cases hstep
        exact move_moving rfl rfl rfl rfl rfl rfl (.inl ⟨rfl, rfl⟩)
      | false =>
        cases hstep
        exact move_transferred rfl
    | cons claim page =>
      simp only [step] at hstep
      split at hstep <;> cases hstep
      · exact move_moving rfl rfl rfl rfl rfl rfl (.inl ⟨rfl, rfl⟩)
      · exact move_moving rfl rfl rfl rfl rfl rfl (.inl ⟨rfl, rfl⟩)
      all_goals exact move_moving rfl rfl rfl rfl rfl rfl (.inr rfl)
  | commit =>
    simp only [step] at hstep
    split_ifs at hstep <;> cases hstep <;>
      exact .unlock rfl rfl
  | waitPush =>
    simp only [step] at hstep
    split_ifs at hstep
    cases hstep
    exact .outside rfl rfl rfl (.inl rfl)
  | pushing keys =>
    simp only [step] at hstep
    split_ifs at hstep <;> cases hstep <;>
      exact .outside rfl rfl rfl (.inl rfl)
  | putBack =>
    simp only [step] at hstep
    split_ifs at hstep with hlock
    cases hstep
    exact .outside rfl rfl rfl (.inr (not_not.mp hlock))
  | done =>
    cases hstep

theorem step_inFlight : after.inFlight = before.inFlight ∧ after.clock = before.clock := by
  simp only [step] at hstep
  repeat' split at hstep
  all_goals cases hstep <;> exact ⟨rfl, rfl⟩

variable (hsync : before.db = before.rows) (hreads : outcome.reads = true)
include hsync hreads

theorem synced_of_step : after.db = after.rows := by
  simp only [step, Shared.store, hreads, if_true] at hstep
  repeat' split at hstep
  all_goals cases hstep <;> first | exact hsync | rfl

/-- A sweep changes members alone, when it commits and when it puts them back. -/
theorem rows_of_step : after.rows = before.rows ∨
      work.pc = .commit ∧ after.rows = (work.adjusted config).foldl
          (fun rows entry => rows.writeMember entry.1 entry.2)
          (work.transferred.foldl (fun rows entry => rows.deleteMember entry.1) before.rows) ∨
      before.updates = none ∧ after.rows = (work.landed outcome).foldl (fun rows entry =>
            if (before.rows.members.lookup entry.1).isSome then rows
            else rows.writeMember entry.1 entry.2) before.rows := by
  rw [← synced_of_step hstep hsync hreads]
  nth_rewrite 1 [← hsync]
  simp only [step, Shared.store, hreads, if_true] at hstep
  repeat' split at hstep
  all_goals cases hstep <;>
    first
    | exact Or.inl rfl
    | exact Or.inr (Or.inl ⟨by assumption, by rw [← hsync]⟩)
    | exact Or.inr (Or.inr ⟨not_not.mp (by assumption), by rw [← hsync]⟩)

theorem step_rows :
    after.rows.grants = before.rows.grants ∧ after.rows.markers = before.rows.markers := by
  have hwrite : ∀ (rows : Rows Key) (entry : Key × Member Key),
      (rows.writeMember entry.1 entry.2).markers = rows.markers :=
    fun _ _ => rfl
  have hdelete : ∀ (rows : Rows Key) (entry : Key × Member Key),
      (rows.deleteMember entry.1).markers = rows.markers := fun _ _ => rfl
  rcases rows_of_step hstep hsync hreads with hrows | ⟨_, hrows⟩ | ⟨_, hrows⟩
  · rw [hrows]
    exact ⟨rfl, rfl⟩
  · rw [hrows]
    exact ⟨by simp, (Rows.foldl_keep Rows.markers hwrite _ _).trans
      (Rows.foldl_keep Rows.markers hdelete _ _)⟩
  · rw [hrows]
    refine ⟨by simp, Rows.foldl_keep Rows.markers ?_ _ _⟩
    intro rows entry
    split <;> rfl

end

end Sweep

/-! ## Writes -/

theorem Write.step_rows {work next : Write Key Hash} {before after : Shared Key Hash}
    (hstep : work.step config before outcome = some (after, next)) :
    after.rows = before.rows ∧ after.clock = before.clock ∧ after.updates = before.updates := by
  simp only [Write.step] at hstep
  repeat' split at hstep
  all_goals cases hstep <;> exact ⟨rfl, rfl, rfl⟩

/-- A write goes on to its end; it is let through where its key is active. -/
theorem Write.step_pc {work next : Write Key Hash} {before after : Shared Key Hash}
    (hstep : work.step config before outcome = some (after, next)) :
    ∃ pc, next = work.goto pc ∧ work.pc ≠ .done ∧ (work.pc = .land true → pc = .finish) ∧
      (work.pc = .finish → pc = .done) ∧
      (pc = .land true → before.rows.keyActive config before.clock work.key = true) := by
  cases hpc : work.pc with simp only [Write.step, hpc] at hstep
  | check =>
    cases hstep
    refine ⟨_, rfl, by simp, by simp, by simp, ?_⟩
    split <;> simp_all
  | land counted =>
    cases hstep
    cases counted <;> exact ⟨_, rfl, by simp, by simp, by simp, by simp⟩
  | done =>
    cases hstep
  | _ =>
    cases hstep
    refine ⟨_, rfl, by simp, by simp, by simp, ?_⟩
    try split
    all_goals simp

/-! ## Snapshots -/

variable [DecidableEq Hash] {state after : State Key Hash} {action : Action Key Hash}

def Action.reads : Action Key Hash → Bool
  | .advance _ outcome => outcome.reads
  | _ => true

/-- What a step commits is read back. -/
def Loads (_ : State Key Hash) (action : Action Key Hash) : Prop :=
  action.reads = true

omit [DecidableEq Key] [DecidableEq Hash] in
theorem loads_of_reads (hreads : action.reads = true) : Loads state action :=
  hreads

/-- The snapshot is what the database has. -/
def Synced (state : State Key Hash) : Prop :=
  state.shared.db = state.shared.rows

omit [DecidableEq Key] [DecidableEq Hash] in
theorem synced_initial (clock : ℕ) (rows : Rows Key) (core : List Key)
    (claims : List (Key × Hash)) (moved : List (Moved Key Hash)) :
    Synced (State.initial clock rows core claims moved) :=
  rfl

theorem Synced.step (hsync : Synced state) (hreads : action.reads = true)
    (hstep : step config group state action = some after) : Synced after := by
  cases action with
  | advance id outcome =>
    simp only [DeviceGrants.step, Option.bind_eq_some_iff, Option.map_eq_some_iff] at hstep
    obtain ⟨request, _, result, hresult, rfl⟩ := hstep
    cases request with obtain ⟨next, hwork, rfl⟩ := Option.map_eq_some_iff.mp hresult
    | grant work => exact Grant.synced_of_step hsync hreads hwork
    | revoke work => exact Revoke.synced_of_step hsync hreads hwork
    | sweep work => exact Sweep.synced_of_step hwork hsync hreads
    | write work =>
      simp only [Write.step] at hwork
      repeat' split at hwork
      all_goals cases hwork <;> exact hsync
  | _ =>
    cases hstep
    exact hsync

theorem fresh_step (hfresh : state.Fresh)
    (hstep : step config group state action = some after) : after.Fresh := by
  cases action with
  | advance id outcome =>
    simp only [step, Option.bind_eq_some_iff, Option.map_eq_some_iff] at hstep
    obtain ⟨request, hrequest, result, _, rfl⟩ := hstep
    exact hfresh.put hrequest _
  | grant | revoke | sweep | write =>
    cases hstep
    exact hfresh.start _
  | _ =>
    cases hstep
    exact hfresh

/-- An invariant of a run that reads back what it commits may be proved with
the snapshot as the database. -/
theorem Synced.invariant {guard : State Key Hash → Action Key Hash → Prop}
    {start : State Key Hash} {Inv : State Key Hash → Prop}
    (hreads : ∀ state action, guard state action → action.reads = true) (hsync : Synced start)
    (hreach : Reaches (DeviceGrants.step config group) guard start state) (hstart : Inv start)
    (hkeep : ∀ before after action, Synced before → Inv before → guard before action →
      DeviceGrants.step config group before action = some after → Inv after) :
    Synced state ∧ Inv state := by
  apply hreach.invariant
  · exact ⟨hsync, hstart⟩
  · rintro before after action ⟨hsync, hbefore⟩ hguard hstep
    exact ⟨hsync.step (hreads _ _ hguard) hstep, hkeep _ _ _ hsync hbefore hguard hstep⟩

end DeviceGrants
end Wildbloom
