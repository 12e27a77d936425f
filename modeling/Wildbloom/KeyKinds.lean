import Wildbloom.DeviceGrantMoves
import Wildbloom.GroupGrantRuns

/-!
# A key is one kind of key

A device grant checks its keys against the group tables, and a group event
checks its device against the device rows, each under a lock of its own.

The device side reads only the group's enrolments and its table of keys.  A
group row without a key is invisible to it, so a key can become both a group
device and a device of an owner.  In runs in which the two sections from check
to commit exclude one another, no checked key has such a row, no revert brings
back a key that a group took meanwhile, and both sides read back what they
commit, every key keeps to one kind.
-/

namespace Wildbloom
namespace KeyKinds

open Runs DeviceGrants GroupGrants

variable {Key Hash : Type}

/-- `look` is the device grant between its conflict check and its commit, with
the keys that the group side claimed when it checked. -/
structure State (Key Hash : Type) where
  device : DeviceGrants.State Key Hash
  group : GroupGrants.State Key
  look : Option (ℕ × (Key → Bool)) := none

inductive Action (Key : Type)
  | tick (seconds : ℕ)
  | grant (event : GrantEvent Key)
  | revoke (event : RevokeEvent Key)
  | look (id : ℕ)
  | device (id : ℕ) (outcome : DeviceGrants.Outcome)
  | post (event : GroupEvent Key)
  | group (id : ℕ) (outcome : GroupGrants.Outcome)
  | prune

section Steps

variable [DecidableEq Key] [DecidableEq Hash]

def groupClaimsKey (shared : GroupGrants.Shared Key) (key : Key) : Bool :=
  shared.settings.enrolled key || (shared.snapshot.keys.lookup key).isSome

def otherAuthorityKeys (config : Config Key) (rows : Rows Key) (key : Key) : Bool :=
  decide (key ∈ config.owners) || decide (key ∈ config.reserved) ||
    decide (key ∈ config.cli) || rows.knows key

def devicesOf (config : Config Key) (rows : Rows Key) : Devices Key where
  authority := otherAuthorityKeys config rows
  friends := rows.members.entries.map fun entry =>
    { pubkey := entry.1
      byteLimit := entry.2.byteLimit
      grantId := .device entry.1
      issuer := some entry.2.issuer }
  named := by
    simp only [List.mem_map]
    rintro _ ⟨entry, hentry, rfl⟩
    have hlookup : rows.members.lookup entry.1 = some entry.2 :=
      AList.mem_lookup_iff.mpr hentry
    simp [otherAuthorityKeys, Rows.knows, hlookup]

namespace State

def onDevice (config : Config Key) (view : Key → Bool)
    (state : State Key Hash) (action : DeviceGrants.Action Key Hash) : Option (State Key Hash) :=
  (DeviceGrants.step config view state.device action).map fun device =>
    { state with device := device }

def onGroup (state : State Key Hash) (action : GroupGrants.Action Key) : Option (State Key Hash) :=
  (GroupGrants.step state.group action).map fun group =>
    { state with group := group }

def setLock (state : State Key Hash) (look : Option (ℕ × (Key → Bool))) : State Key Hash :=
  { state with
    device :=
      { state.device with shared := { state.device.shared with updates := look.map Prod.fst } }
    look := look }

def isReady (state : State Key Hash) (id : ℕ) : Bool :=
  match state.device.requests id with
  | some (.grant { event := _, pc := .commit }) => true
  | _ => false

end State

/-- A grant's check and its commit are two steps under the device lock; the
check reads the group tables, under no lock of theirs. -/
def step (config : Config Key) (state : State Key Hash) : Action Key → Option (State Key Hash)
  | .tick seconds =>
    (state.onDevice config (fun _ => false) (.tick seconds)).bind fun state =>
      state.onGroup (.tick seconds)
  | .grant event => state.onDevice config (fun _ => false) (.grant event)
  | .revoke event => state.onDevice config (fun _ => false) (.revoke event)
  | .look id =>
    if state.isReady id ∧ state.device.shared.updates = none then
      some (state.setLock (some (id, groupClaimsKey state.group.shared)))
    else none
  | .device id outcome =>
    match state.look with
    | some (holder, view) =>
      if holder = id then
        (state.setLock none).onDevice config view (.advance id outcome)
      else state.onDevice config view (.advance id outcome)
    | none =>
      if state.isReady id then none
      else state.onDevice config (fun _ => false) (.advance id outcome)
  | .post event => state.onGroup (.post event)
  | .group id outcome =>
    state.onGroup (.advance id (devicesOf config state.device.shared.rows) outcome)
  | .prune =>
    (state.onDevice config (fun _ => false) .prune).bind fun state =>
      state.onGroup .prune

def State.initial (clock : ℕ) (rows : Rows Key) (settings : Settings Key)
    (config : Config Key) : State Key Hash where
  device := .initial clock rows [] [] []
  group := .initial clock settings (devicesOf config rows)

/-! ## The condition on runs -/

/-- The two sections from check to commit exclude one another, a key that is
checked has no group row without a group key, a revert that takes effect brings
back no key that has a group by then, and what is committed is read back. -/
def ApartStep (state : State Key Hash) : Action Key → Prop
  | .look id =>
    state.group.shared.updates = none ∧
      ∀ grant, state.device.requests id = some (.grant grant) → ∀ key,
        grant.event.row.names key = true →
        state.group.shared.snapshot.keys.lookup key = none →
          state.group.shared.snapshot.rowsFor key = []
  | .device id outcome => outcome.reads = true ∧ ∀ grant pending,
      state.device.requests id = some (.grant grant) →
      grant.pc = .revert pending →
      state.device.shared.rows.grants.lookup grant.event.device = some grant.event.row →
        state.group.shared.updates = none ∧ ∀ key, pending.Names key →
          state.group.shared.snapshot.groupOf key = none
  | .group id outcome => ∀ post, state.group.requests id = some (.post post) →
      (post.pc.isPlanning = true → state.look = none) ∧
        ∀ plan, post.pc = .reload plan → outcome ≠ .gone
  | _ => True

end Steps

/-! ## Groups of keys -/

section Tables

variable [DecidableEq Key] {rows part full : GroupRows Key} {key : Key}

theorem groupOf_eq_none : rows.groupOf key = none ↔ rows.keys.lookup key = none ∧
      ∀ id row, rows.grants.lookup id = some row → row.device ≠ key := by
  have hrows : rows.rowsFor key = [] ↔
      ∀ id row, rows.grants.lookup id = some row → row.device ≠ key := by
    simp only [List.eq_nil_iff_forall_not_mem, GroupRows.mem_rowsFor, not_and, forall_exists_index]
    exact forall_comm
  rw [← hrows, GroupRows.groupOf]
  cases rows.keys.lookup key <;> simp

theorem groupOf_of_kept {now : ℕ} (hkept : Kept now part full)
    (hnone : full.groupOf key = none) : part.groupOf key = none := by
  rw [groupOf_eq_none] at hnone ⊢
  refine ⟨by rw [hkept.keys, hnone.1], fun id row hrow => ?_⟩
  exact hnone.2 id row (hkept.grant hrow)

theorem groupOf_write {enrolled authority : Key → Bool} {now : ℕ}
    {event : GroupEvent Key} {plan : Plan Key}
    (hdecides : Decides enrolled authority rows event now plan) (hnone : rows.groupOf key = none)
    (hother : ∀ terms, event.body = .grant terms → terms.device ≠ key) :
    (rows.write plan).groupOf key = none := by
  cases hdecides with
  | held | reset => exact hnone
  | grant terms hbody hfits =>
    have hgroup := (groupKeyConflict_eq_false.mp hfits.free).2.2.1
    have hdevice := hother terms hbody
    rw [groupOf_eq_none] at hnone ⊢
    constructor
    · rw [lookup_keys_write rfl hgroup, if_neg fun hboth => hdevice hboth.2.symm]
      exact hnone.1
    · intro id row hrow
      rw [lookup_grants_write hfits.same] at hrow
      split_ifs at hrow
      · cases hrow
        exact hdevice
      · exact hnone.2 id row hrow

end Tables

/-! ## The invariant -/

section Invariant

variable [DecidableEq Key]

def Free (shared : GroupGrants.Shared Key) (key : Key) : Prop :=
  shared.snapshot.groupOf key = none ∧ shared.settings.enrolled key = false

def Plain (enrolled : Key → Bool) : DeviceGrants.Request Key Hash → Prop
  | .grant work => ∀ pending, work.pc.pending = some pending →
      ∀ key, pending.Names key → enrolled key = false
  | .revoke _ => True
  | .sweep _ | .write _ => False

structure OneKind (state : State Key Hash) : Prop where
  orderly : Orderly (fun _ => True) state.group
  kinds : ∀ key, state.device.shared.rows.knows key = true → Free state.group.shared key
  /-- No device grant takes the device of an event that is being written. -/
  writing : ∀ id request, state.group.requests id = some request →
    ∀ post, request = .post post → ∀ plan, post.pc.writing = some plan →
      ∀ terms, post.event.body = .grant terms → state.device.shared.rows.knows terms.device = false
  /-- What a grant saw free is still free when it commits. -/
  looking : ∀ id view, state.look = some (id, view) → state.group.shared.updates = none ∧
      ∃ grant, state.device.requests id = some (.grant grant) ∧ ∀ key,
        grant.event.row.names key = true → view key = false → Free state.group.shared key
  fresh : state.device.Fresh
  plain : ∀ id request, state.device.requests id = some request →
    Plain state.group.shared.settings.enrolled request
  locked : state.device.shared.updates = state.look.map Prod.fst
  synced : Synced state.device

variable {config : Config Key} {state : State Key Hash} {id : ℕ}
  {next : DeviceGrants.Shared Key Hash} {action : GroupGrants.Action Key}
  {shared : GroupGrants.Shared Key} {post : Post Key}

theorem OneKind.initial {clock : ℕ} {rows : Rows Key} {settings : Settings Key}
    (hkeepers : ∀ key, settings.enrolled key = true → otherAuthorityKeys config rows key = false) :
    OneKind (State.initial clock rows settings config : State Key Hash) := by
  refine ⟨Orderly.initial _ _ _, fun key hknows => ⟨rfl, ?_⟩,
    fun _ _ hrequest => (by cases hrequest), fun _ _ hlook => (by cases hlook),
    fun _ _ => rfl, fun _ _ hrequest => (by cases hrequest), rfl, rfl⟩
  have hknown : rows.knows key = true := hknows
  change settings.enrolled key = false
  by_contra henrolled
  have hother := hkeepers key (by simpa using henrolled)
  simp only [otherAuthorityKeys, Bool.or_eq_false_iff] at hother
  rw [hother.2] at hknown
  cases hknown

def apartCheck (state : State Key Hash) : Action Key → Bool
  | .look id =>
    state.group.shared.updates.isNone &&
      match state.device.requests id with
      | some (.grant grant) =>
        (state.group.shared.snapshot.rowsFor grant.event.device).isEmpty &&
          (state.group.shared.snapshot.rowsFor grant.event.recovery).isEmpty
      | _ => true
  | .device id outcome =>
    outcome.reads && match state.device.requests id with
    | some (.grant { event := _, pc := .revert _ }) => false
    | _ => true
  | .group _ outcome => state.look.isNone && decide (outcome ≠ .gone)
  | _ => true

theorem apartStep_of_check {action : Action Key}
    (hcheck : apartCheck state action = true) : ApartStep state action := by
  cases action with
  | look id =>
    simp only [apartCheck, Bool.and_eq_true, Option.isNone_iff_eq_none] at hcheck
    refine ⟨hcheck.1, fun grant hgrant key hnames _ => ?_⟩
    have hrows := hcheck.2
    simp only [hgrant, Bool.and_eq_true, List.isEmpty_iff] at hrows
    rcases (grant.event.row.names_iff key).mp hnames with rfl | rfl
    · exact hrows.1
    · exact hrows.2
  | device id outcome =>
    refine ⟨(Bool.and_eq_true_iff.mp hcheck).1, fun grant pending hgrant hpc => ?_⟩
    obtain ⟨event, pc⟩ := grant
    cases hpc
    simp [apartCheck, hgrant] at hcheck
  | group id outcome =>
    simp only [apartCheck, Bool.and_eq_true, Option.isNone_iff_eq_none, decide_eq_true_eq] at hcheck
    exact fun _ _ => ⟨fun _ => hcheck.1, fun _ _ => hcheck.2⟩
  | _ => trivial

omit [DecidableEq Key] in
theorem isReady_of_commit {work : Grant Key}
    (hrequest : state.device.requests id = some (.grant work))
    (hpc : work.pc = .commit) : state.isReady id = true := by
  obtain ⟨event, pc⟩ := work
  cases hpc
  simp only [State.isReady, hrequest]

omit [DecidableEq Key] in
theorem grant_of_isReady (hready : state.isReady id = true) :
    ∃ grant, state.device.requests id = some (.grant grant) := by
  unfold State.isReady at hready
  split at hready
  next hrequest =>
    exact ⟨_, hrequest⟩
  · cases hready

theorem groupStep_tables {before after : GroupGrants.State Key}
    (hstep : GroupGrants.step before action = some after)
    (hrestart : ∀ settings devices, action ≠ .restart settings devices) :
    after.shared.settings = before.shared.settings ∧
      (after.shared.snapshot = before.shared.snapshot ∨
        ∃ id work plan, before.requests id = some (.post work) ∧
          work.pc = .reload plan ∧ after.shared.snapshot = before.shared.db) := by
  have hmove := tableMove_of_step hstep
  generalize after.shared = next at hmove ⊢
  cases hmove with
  | restart settings devices => exact absurd rfl (hrestart settings devices)
  | reload id devices outcome work plan hrequest hpc =>
    exact ⟨rfl, .inr ⟨id, work, plan, hrequest, hpc, rfl⟩⟩
  | keep _ _ _ hsettings _ hsnapshot => exact ⟨hsettings, .inl hsnapshot⟩
  | _ => exact ⟨rfl, .inl rfl⟩

/-- An event comes to be written only for a device that the device rows do not
know. -/
theorem knows_of_writing {rows : Rows Key} {next : GroupGrants.Shared Key} {after : Post Key}
    {plan : Plan Key} {terms : Terms Key}
    (hmove : Post.Move shared (devicesOf config rows) id post next after)
    (hbefore : post.pc.writing = some plan → rows.knows terms.device = false)
    (hplan : after.pc.writing = some plan) (hbody : post.event.body = .grant terms) :
    rows.knows terms.device = false := by
  cases hmove with
  | lock decided hpc hunlocked hevaluate hwrites =>
    cases decides_of_evaluate hevaluate with
    | held => cases hwrites
    | reset room server hreset =>
      rw [hbody] at hreset
      cases hreset
    | grant found hfound hfits =>
      rw [hbody, Body.grant.injEq] at hfound
      subst hfound
      have hfree := (groupKeyConflict_eq_false.mp hfits.free).1
      simp only [devicesOf, otherAuthorityKeys, Bool.or_eq_false_iff] at hfree
      exact hfree.2
  | commit decided hpc =>
    cases hplan
    exact hbefore (by rw [hpc]; rfl)
  | _ => cases hplan

theorem unlocked_of_move {devices : Devices Key} {next : GroupGrants.Shared Key} {after : Post Key}
    (hmove : Post.Move shared devices id post next after) (hunlocked : shared.updates = none)
    (hplanning : post.pc.isPlanning = false) : next.updates = none := by
  cases hmove with
  | lock _ hpc =>
    rcases hpc with ⟨hpc, _⟩ | ⟨_, hpc⟩ <;> rw [hpc] at hplanning <;>
      cases hplanning
  | refuse | held | reload | unloaded => simp [GroupGrants.Shared.release, hunlocked]
  | _ =>
    exact hunlocked

section

variable (hone : OneKind state) {request : DeviceGrants.Request Key Hash} {view : Key → Bool}
include hone

theorem OneKind.not_writing (hfree : state.group.shared.updates = none)
    (hrequest : state.group.requests id = some (.post post)) (plan : Plan Key) :
    post.pc.writing ≠ some plan := by
  intro hwriting
  have hlock := (hone.orderly.posts id _ hrequest post rfl).locked plan hwriting
  rw [hfree] at hlock
  cases hlock

/-! ## Device steps -/

theorem OneKind.putDevice {next : DeviceGrants.Request Key Hash}
    {shared : DeviceGrants.Shared Key Hash} (hrequest : state.device.requests id = some request)
    (hholder : ∀ view, state.look ≠ some (id, view)) (hsync : shared.db = shared.rows)
    (hupdates : shared.updates = state.device.shared.updates)
    (hplain : Plain state.group.shared.settings.enrolled next)
    (hkinds : ∀ key, shared.rows.knows key = true → Free state.group.shared key)
    (hwriting : (∀ key, shared.rows.knows key = true → state.device.shared.rows.knows key = true) ∨
      state.group.shared.updates = none) :
    OneKind { state with device := state.device.put id (shared, next) } := by
  refine ⟨hone.orderly, hkinds, ?_, ?_, hone.fresh.put hrequest _, ?_,
    hupdates.trans hone.locked, hsync⟩
  · rintro other _ hrequest post rfl plan hplan terms hbody
    rcases hwriting with hknows | hfree
    · have hbefore := hone.writing other _ hrequest post rfl plan hplan terms hbody
      by_contra hknown
      rw [hknows _ (by simpa using hknown)] at hbefore
      cases hbefore
    · exact absurd hplan (hone.not_writing hfree hrequest plan)
  · intro holder view hlook
    obtain ⟨hunlocked, grant, hgrant, hseen⟩ := hone.looking holder view hlook
    refine ⟨hunlocked, grant, ?_, hseen⟩
    have hne : holder ≠ id := by
      rintro rfl
      exact hholder view hlook
    simp only [Pool.put, Function.update_of_ne hne]
    exact hgrant
  · exact Pool.forall_put hplain fun other found _ => hone.plain other found

theorem OneKind.grantMove {work after : Grant Key}
    (hrequest : state.device.requests id = some (.grant work))
    (hholder : ∀ view, state.look ≠ some (id, view)) (hsync : next.db = next.rows)
    (hview : work.pc = .commit → state.device.shared.updates = none →
      state.group.shared.updates = none ∧ ∀ key,
        work.event.row.names key = true → view key = false → Free state.group.shared key)
    (hrevert : ∀ pending, work.pc = .revert pending →
      state.device.shared.rows.grants.lookup work.event.device = some work.event.row →
        state.group.shared.updates = none ∧ ∀ key, pending.Names key →
          state.group.shared.snapshot.groupOf key = none)
    (hmove : Grant.Move config view state.device.shared work next after) :
    OneKind { state with device := state.device.put id (next, .grant after) } := by
  have hplain := hone.plain id _ hrequest
  cases hmove with
  | quiet _ pc hclock hrows hupdates hcommit hpending =>
    refine hone.putDevice hrequest hholder hsync hupdates ?_ ?_ (.inl ?_)
    · intro pending hafter
      exact hplain pending (hpending pending hafter)
    · rw [hrows]
      exact hone.kinds
    · rw [hrows]
      exact fun _ hknows => hknows
  | refuse reason hpc hfree =>
    exact hone.putDevice hrequest hholder hsync rfl (fun _ hpending => by cases hpending)
      hone.kinds (.inl fun _ hknows => hknows)
  | commit _ hpc hfree hconflict hclock hupdates hrows =>
    obtain ⟨hgroup, hseen⟩ := hview hpc hfree
    refine hone.putDevice hrequest hholder hsync hupdates ?_ ?_ (.inr hgroup)
    · rintro _ ⟨⟩ key hnames
      exact (hone.kinds key (knows_of_capture hnames)).2
    · intro key hknows
      rw [hrows] at hknows
      rcases Rows.knows_commitGrant hknows with hbefore | hnames
      · exact hone.kinds key hbefore
      · exact hseen key hnames (Rows.free_of_checkGrantConflicts hconflict hnames)
  | revert _ pending hpc hfree hcurrent hclock hupdates hrows =>
    obtain ⟨hgroup, hback⟩ := hrevert pending hpc hcurrent
    refine hone.putDevice hrequest hholder hsync hupdates
      (fun _ hpending => by cases hpending) ?_ (.inr hgroup)
    intro key hknows
    rw [hrows] at hknows
    rcases Rows.knows_revert hknows with hbefore | hnames
    · exact hone.kinds key hbefore
    · exact ⟨hback key hnames, hplain pending (by rw [hpc]; rfl) key hnames⟩

theorem OneKind.revokeMove {work after : Revoke Key}
    (hrequest : state.device.requests id = some (.revoke work))
    (hholder : ∀ view, state.look ≠ some (id, view)) (hsync : next.db = next.rows)
    (hmove : Revoke.Move state.device.shared work next after) : OneKind
      { state with device := state.device.put id (next, .revoke after) } := by
  cases hmove with
  | quiet =>
    exact hone.putDevice hrequest hholder hsync rfl trivial hone.kinds (.inl fun _ hknows => hknows)
  | commit _ hpc hfree hnewer hclock hupdates hrows =>
    have hknown : ∀ key, next.rows.knows key = true →
        state.device.shared.rows.knows key = true := by
      intro key hknows
      rw [hrows] at hknows
      exact Rows.knows_commitRevoke hknows
    exact hone.putDevice hrequest hholder hsync hupdates trivial
      (fun key hknows => hone.kinds key (hknown key hknows)) (.inl hknown)

theorem OneKind.start (hplain : Plain state.group.shared.settings.enrolled request) :
    OneKind { state with device := state.device.start request } := by
  refine ⟨hone.orderly, hone.kinds, hone.writing, ?_, hone.fresh.start request,
    Pool.forall_start hplain hone.plain, hone.locked, hone.synced⟩
  intro holder view hlook
  obtain ⟨hunlocked, grant, hgrant, hseen⟩ := hone.looking holder view hlook
  refine ⟨hunlocked, grant, ?_, hseen⟩
  have hne : holder ≠ state.device.started :=
    (hone.fresh.lt_started hgrant).ne
  simp only [Pool.start, Function.update_of_ne hne]
  exact hgrant

theorem OneKind.change {shared : DeviceGrants.Shared Key Hash}
    (hdb : shared.db = state.device.shared.db) (hrows : shared.rows = state.device.shared.rows)
    (hupdates : shared.updates = state.device.shared.updates) :
    OneKind { state with device := { state.device with shared := shared } } := by
  refine ⟨hone.orderly, ?_, ?_, hone.looking, hone.fresh, hone.plain, hupdates.trans hone.locked,
    hdb.trans (hone.synced.trans hrows.symm)⟩
  · simp only [hrows]
    exact hone.kinds
  · simp only [hrows]
    exact hone.writing

theorem OneKind.unlock : OneKind (state.setLock none) :=
  ⟨hone.orderly, hone.kinds, hone.writing, fun _ _ hlook => (by cases hlook),
    hone.fresh, hone.plain, rfl, hone.synced⟩

theorem OneKind.look (hready : state.isReady id = true)
    (hguard : ApartStep state (.look id)) : OneKind
      (state.setLock (some (id, groupClaimsKey state.group.shared))) := by
  refine ⟨hone.orderly, hone.kinds, hone.writing, ?_, hone.fresh, hone.plain, rfl, hone.synced⟩
  intro holder view hlook
  simp only [State.setLock, Option.some.injEq, Prod.mk.injEq] at hlook
  obtain ⟨rfl, rfl⟩ := hlook
  obtain ⟨grant, hgrant⟩ := grant_of_isReady hready
  refine ⟨hguard.1, grant, hgrant, fun key hnames hseen => ?_⟩
  simp only [groupClaimsKey, Bool.or_eq_false_iff,
    Option.isSome_eq_false_iff, Option.isNone_iff_eq_none] at hseen
  have hrows := hguard.2 grant hgrant key hnames hseen.2
  refine ⟨?_, hseen.1⟩
  simp [State.setLock, GroupRows.groupOf, hseen.2, hrows]

variable [DecidableEq Hash] {stepped : State Key Hash} {outcome : DeviceGrants.Outcome}

theorem OneKind.advanceDevice (hholder : ∀ view, state.look ≠ some (id, view))
    (hview : ∀ work, state.device.requests id = some (.grant work) →
      work.pc = .commit → state.device.shared.updates = none →
        state.group.shared.updates = none ∧ ∀ key,
          work.event.row.names key = true → view key = false → Free state.group.shared key)
    (hguard : ApartStep state (.device id outcome))
    (hstep : state.onDevice config view (.advance id outcome) = some stepped) :
    OneKind stepped := by
  simp only [State.onDevice, DeviceGrants.step, Option.map_eq_some_iff,
    Option.bind_eq_some_iff] at hstep
  obtain ⟨_, ⟨request, hrequest, result, hresult, rfl⟩, rfl⟩ := hstep
  have hplain := hone.plain id request hrequest
  cases request with
  | sweep | write => exact hplain.elim
  | grant work =>
    obtain ⟨⟨next, after⟩, hwork, rfl⟩ := Option.map_eq_some_iff.mp hresult
    exact hone.grantMove hrequest hholder (Grant.synced_of_step hone.synced hguard.1 hwork)
      (hview work hrequest) (fun pending => hguard.2 work pending hrequest)
      (Grant.move_of_step hone.synced hguard.1 hwork)
  | revoke work =>
    obtain ⟨⟨next, after⟩, hwork, rfl⟩ := Option.map_eq_some_iff.mp hresult
    exact hone.revokeMove hrequest hholder (Revoke.synced_of_step hone.synced hguard.1 hwork)
      (Revoke.move_of_step hone.synced hguard.1 hwork)

theorem OneKind.deviceStep (hguard : ApartStep state (.device id outcome))
    (hstep : step config state (.device id outcome) = some stepped) : OneKind stepped := by
  simp only [step] at hstep
  cases hlook : state.look with
  | none =>
    simp only [hlook] at hstep
    split_ifs at hstep with hready
    refine hone.advanceDevice (by simp [hlook]) ?_ hguard hstep
    intro work hrequest hpc
    exact absurd (isReady_of_commit hrequest hpc) hready
  | some held =>
    obtain ⟨holder, view⟩ := held
    simp only [hlook] at hstep
    split_ifs at hstep with hheld
    · subst hheld
      refine hone.unlock.advanceDevice (fun _ hnone => by cases hnone) ?_
        hguard hstep
      intro work hrequest _ _
      obtain ⟨hfree, found, hfound, hseen⟩ := hone.looking holder view hlook
      have hsame : some (DeviceGrants.Request.grant work) =
          some (.grant found) := hrequest.symm.trans hfound
      cases hsame
      exact ⟨hfree, hseen⟩
    · refine hone.advanceDevice ?_ ?_ hguard hstep
      · rintro other hother
        rw [hlook, Option.some.injEq, Prod.mk.injEq] at hother
        exact hheld hother.1
      · intro work _ _ hunlocked
        rw [hone.locked, hlook] at hunlocked
        cases hunlocked

/-! ## Group steps -/

omit [DecidableEq Hash] in
theorem OneKind.groupChange {group : GroupGrants.State Key}
    (hloads : GroupGrants.Loads state.group action)
    (hstep : GroupGrants.step state.group action = some group)
    (hrestart : ∀ settings devices, action ≠ .restart settings devices)
    (hwriting : ∀ id request, group.requests id = some request →
      ∀ post, request = .post post → ∀ plan, post.pc.writing = some plan →
        ∀ terms, post.event.body = .grant terms →
          state.device.shared.rows.knows terms.device = false)
    (hlooking : ∀ held, state.look = some held →
      state.group.shared.updates = none → group.shared.updates = none) :
    OneKind { state with group := group } := by
  obtain ⟨hsettings, hsnapshot⟩ := groupStep_tables hstep hrestart
  refine ⟨hone.orderly.step (fun _ _ => trivial) hloads hstep, ?_, hwriting, ?_,
    hone.fresh, ?_, hone.locked, hone.synced⟩
  · intro key hknows
    obtain ⟨hgroup, henrolled⟩ := hone.kinds key hknows
    refine ⟨?_, by rw [hsettings]; exact henrolled⟩
    rcases hsnapshot with hsame | ⟨id, work, plan, hrequest, hpc, hreload⟩
    · rw [hsame]
      exact hgroup
    · have hpending : work.pc.writing = some plan := by rw [hpc]; rfl
      obtain ⟨_, _, _, _, hdecides⟩ :=
        (hone.orderly.posts id _ hrequest work rfl).writing plan hpending
      rw [hreload]
      apply groupOf_of_kept (hone.orderly.reloading id _ hrequest work rfl plan hpc)
      apply groupOf_write hdecides hgroup
      rintro terms hbody rfl
      rw [hone.writing id _ hrequest work rfl plan hpending terms hbody] at hknows
      cases hknows
  · intro holder view hlook
    obtain ⟨hfree, grant, hgrant, hseen⟩ := hone.looking holder view hlook
    refine ⟨hlooking _ hlook hfree, grant, hgrant, fun key hnames hview => ?_⟩
    obtain ⟨hgroup, henrolled⟩ := hseen key hnames hview
    refine ⟨?_, by rw [hsettings]; exact henrolled⟩
    rcases hsnapshot with hsame | ⟨id, work, plan, hrequest, hpc, _⟩
    · rw [hsame]
      exact hgroup
    · exact absurd (by rw [hpc]; rfl) (hone.not_writing hfree hrequest plan)
  · rw [hsettings]
    exact hone.plain

theorem OneKind.groupStep {outcome : GroupGrants.Outcome}
    (hguard : ApartStep state (.group id outcome))
    (hstep : step config state (.group id outcome) = some stepped) : OneKind stepped := by
  simp only [step, State.onGroup, Option.map_eq_some_iff] at hstep
  obtain ⟨group, hgroup, rfl⟩ := hstep
  have hloads : GroupGrants.Loads state.group
      (.advance id (devicesOf config state.device.shared.rows) outcome) := by
    rintro _ _ work plan ⟨⟩ hrequest hpc
    exact (hguard work hrequest).2 plan hpc rfl
  rcases step_advance hgroup with
    ⟨work, next, after, hrequest, hmove, rfl⟩ |
    ⟨pc, next, later, hrequest, hpolicy, rfl⟩
  · refine hone.groupChange hloads hgroup (by simp) (Pool.forall_put ?_ ?_) ?_
    · rintro _ ⟨⟩ plan hplan terms hbody
      rw [hmove.event_eq] at hbody
      exact knows_of_writing hmove
        (fun hpending => hone.writing id _ hrequest work rfl plan hpending terms hbody) hplan hbody
    · exact fun other found _ => hone.writing other found
    · intro held hlook hunlocked
      refine unlocked_of_move hmove hunlocked ?_
      by_contra hplanning
      rw [(hguard work hrequest).1 (by simpa using hplanning)] at hlook
      cases hlook
  · refine hone.groupChange hloads hgroup (by simp) (Pool.forall_put (by simp) ?_) ?_
    · exact fun other found _ => hone.writing other found
    · intro held _ hunlocked
      cases pc with
      | done => cases hpolicy
      | wait =>
        simp only [policyStep] at hpolicy
        split_ifs at hpolicy
        cases hpolicy
        exact hunlocked
      | pushing grants =>
        simp only [policyStep] at hpolicy
        split_ifs at hpolicy <;> cases hpolicy <;>
          simp [GroupGrants.Shared.release, hunlocked]

/-! ## Runs -/

theorem OneKind.step {action : Action Key} (hguard : ApartStep state action)
    (hstep : KeyKinds.step config state action = some stepped) : OneKind stepped := by
  cases action with
  | tick seconds =>
    cases hstep
    have hgroup : GroupGrants.step state.group (.tick seconds) = some _ := rfl
    exact (hone.groupChange (loads_of_check rfl) hgroup (by simp) hone.writing
      fun _ _ hfree => hfree).change rfl rfl rfl
  | grant event =>
    cases hstep
    exact hone.start fun _ hpending => by cases hpending
  | revoke event =>
    cases hstep
    exact hone.start trivial
  | look id =>
    simp only [KeyKinds.step] at hstep
    split_ifs at hstep with hready
    cases hstep
    exact hone.look hready.1 hguard
  | device id outcome => exact hone.deviceStep hguard hstep
  | post event =>
    cases hstep
    have hgroup : GroupGrants.step state.group (.post event) = some _ := rfl
    refine hone.groupChange (loads_of_check rfl) hgroup (by simp)
      (Pool.forall_start ?_ hone.writing) fun _ _ hfree => hfree
    rintro _ ⟨⟩ _ hplan
    cases hplan
  | group id outcome => exact hone.groupStep hguard hstep
  | prune =>
    cases hstep
    have hgroup : GroupGrants.step state.group .prune = some _ := rfl
    exact (hone.groupChange (loads_of_check rfl) hgroup (by simp) hone.writing
      fun _ _ hfree => hfree).change rfl rfl rfl

end

variable [DecidableEq Hash]

/-- No key that the device rows know is a group device or a keeper, in every
run whose steps keep the two sides apart and read back what they commit. -/
theorem keys_are_of_one_kind (config : Config Key) (clock : ℕ)
    (rows : Rows Key) (settings : Settings Key) (state : State Key Hash)
    (hkeepers : ∀ key, settings.enrolled key = true → otherAuthorityKeys config rows key = false)
    (hreach : Reaches (KeyKinds.step config) ApartStep
      (State.initial clock rows settings config) state)
    (key : Key) (hknows : state.device.shared.rows.knows key = true) :
    state.group.shared.snapshot.groupOf key = none ∧
      state.group.shared.settings.enrolled key = false := by
  have hone : OneKind state :=
    hreach.invariant (OneKind.initial hkeepers)
      fun _ _ _ hone hguard hstep => hone.step hguard hstep
  exact hone.kinds key hknows

end Invariant

/-! ## A small node -/

def loneOwner : Config ℕ := ⟨[7], [], []⟩

def ownerGrant (device : ℕ) : GrantEvent ℕ :=
  { hourGrant device 100 0 with owner := 7 }

def keeperEvent (revoked : Bool) : GroupEvent ℕ where
  id := 30
  keeper := 1
  createdAt := 90
  expiration := 200
  body := .grant { smallTerms with revoked := revoked }

theorem loneOwner_no_keeper (key : ℕ) (henrolled : smallNode.enrolled key = true) :
    otherAuthorityKeys loneOwner ⟨∅, ∅, ∅⟩ key = false := by
  have hkey : key = 1 := by
    by_contra hne
    rw [Settings.enrolled, smallNode, AList.lookup_insert_ne hne] at henrolled
    cases henrolled
  subst hkey
  decide

/-- Device 3 joins a group; device 10 gets a grant of an owner. -/
theorem keys_are_of_one_kind_after_both : ∃ state : State ℕ ℕ, Reaches (step loneOwner) ApartStep
        (State.initial 100 ⟨∅, ∅, ∅⟩ smallNode loneOwner) state ∧
      state.device.shared.rows.knows 10 = true ∧
      state.group.shared.snapshot.groupOf 3 = some (1, 2) ∧
      state.group.shared.snapshot.groupOf 10 = none ∧
      state.group.shared.settings.enrolled 10 = false := by
  have hrun : (checkedRun (step loneOwner) apartCheck
      (State.initial 100 ⟨∅, ∅, ∅⟩ smallNode loneOwner : State ℕ ℕ)
      [.post (keeperEvent false), .group 0 .ok, .group 0 .ok, .group 0 .ok,
        .group 0 .ok, .grant (ownerGrant 10), .device 0 .ok, .look 0,
        .device 0 .ok]).any
        (fun state => decide (state.device.shared.rows.knows 10 = true ∧
          state.group.shared.snapshot.groupOf 3 = some (1, 2))) = true := by
    decide
  have hend : ∃ state : State ℕ ℕ, Reaches (step loneOwner) ApartStep
      (State.initial 100 ⟨∅, ∅, ∅⟩ smallNode loneOwner) state ∧ _ :=
    exists_reaches_of_check apartStep_of_check hrun
  obtain ⟨state, hreach, htest⟩ := hend
  obtain ⟨hknows, hgroup⟩ := of_decide_eq_true htest
  exact ⟨state, hreach, hknows, hgroup, keys_are_of_one_kind loneOwner 100 ⟨∅, ∅, ∅⟩ smallNode state
      loneOwner_no_keeper hreach 10 hknows⟩

/-- A revocation for a device that the node has never seen leaves a row without
a key, and the owner's grant to the same device does not see it. -/
theorem group_device_takes_an_owner_grant : (∀ key, smallNode.enrolled key = true →
      otherAuthorityKeys loneOwner ⟨∅, ∅, ∅⟩ key = false) ∧
    ∃ (state : State ℕ ℕ) (key : ℕ), Reaches (step loneOwner) everyStep
        (State.initial 100 ⟨∅, ∅, ∅⟩ smallNode loneOwner) state ∧
      state.device.shared.rows.knows key = true ∧
      state.group.shared.snapshot.groupOf key = some (1, 2) := by
  refine ⟨loneOwner_no_keeper, ?_⟩
  have hrun : (runActions (step loneOwner)
      (State.initial 100 ⟨∅, ∅, ∅⟩ smallNode loneOwner : State ℕ ℕ)
      [.post (keeperEvent true), .group 0 .ok, .group 0 .ok, .group 0 .ok,
        .group 0 .ok, .grant (ownerGrant 3), .device 0 .ok, .look 0,
        .device 0 .ok]).any
        (fun state => decide (state.device.shared.rows.knows 3 = true ∧
          state.group.shared.snapshot.groupOf 3 = some (1, 2))) = true := by
    decide
  obtain ⟨state, hreach, htest⟩ := exists_reaches_of_runActions hrun
  obtain ⟨hknows, hgroup⟩ := of_decide_eq_true htest
  exact ⟨state, 3, hreach, hknows, hgroup⟩

end KeyKinds
end Wildbloom
