import Wildbloom.GroupGrantFinality

/-!
# One group and one active grant for each device

The rows of a device and its key row name one keeper and room.  Of two rows of
a device one is dead for good: revoked, expired, or covered by a floor that is
pruned only after the row has expired.
-/

namespace Wildbloom
namespace GroupGrants

open Runs KeyedTables

variable {Key : Type} [DecidableEq Key] {now later : ℕ}
  {rows part full : GroupRows Key} {row : GroupGrantRow Key}
variable {event : GroupEvent Key} {terms : Terms Key}
  {enrolled authority : Key → Bool} {earlier : ℕ} {id : Key × Key}
  {signed : GroupEvent Key → Prop}

/-! ## One group -/

structure OneGroup (rows : GroupRows Key) : Prop where
  grants : ∀ id row other found, rows.grants.lookup id = some row →
    rows.grants.lookup other = some found → row.device = found.device → row.group = found.group
  keys : ∀ id row key, rows.grants.lookup id = some row →
    rows.keys.lookup row.device = some key → row.group = key.group

theorem OneGroup.forget (hone : OneGroup full) (hkept : Kept now part full) : OneGroup part := by
  refine ⟨fun id row other found hrow hfound => ?_, fun id row key hrow hkey => ?_⟩
  · exact hone.grants id row other found (hkept.grant hrow) (hkept.grant hfound)
  · rw [hkept.keys] at hkey
    exact hone.keys id row key (hkept.grant hrow) hkey

variable (hfits : Fits enrolled authority rows event terms earlier)

section

include hfits

/-- Every row of the device after a grant is of the event's group. -/
theorem group_of_write
    (hrow : (rows.write (grantPlan rows event terms)).grants.lookup id =
      some row) (hdevice : row.device = terms.device) : row.group = (event.keeper, terms.room) := by
  rw [lookup_grants_write hfits.same] at hrow
  split_ifs at hrow with hid
  · rw [Option.some.injEq] at hrow
    subst hrow
    rfl
  · exact (groupKeyConflict_eq_false.mp hfits.free).2.2.2 id row hrow hdevice

theorem lookup_of_write
    (hrow : (rows.write (grantPlan rows event terms)).grants.lookup id =
      some row) (hdevice : row.device ≠ terms.device) : rows.grants.lookup id = some row := by
  rw [lookup_grants_write hfits.same] at hrow
  split_ifs at hrow with hid
  · rw [Option.some.injEq] at hrow
    subst hrow
    exact absurd rfl hdevice
  · exact hrow

theorem OneGroup.grant (hone : OneGroup rows) :
    OneGroup (rows.write (grantPlan rows event terms)) := by
  have hgroup := (groupKeyConflict_eq_false.mp hfits.free).2.2.1
  refine ⟨fun id row other found hrow hfound hsame => ?_, fun id row key hrow hkey => ?_⟩
  · by_cases hdevice : row.device = terms.device
    · rw [group_of_write hfits hrow hdevice, group_of_write hfits hfound (hsame ▸ hdevice)]
    · exact hone.grants id row other found (lookup_of_write hfits hrow hdevice)
        (lookup_of_write hfits hfound (hsame ▸ hdevice)) hsame
  · rw [lookup_keys_write rfl hgroup] at hkey
    by_cases hdevice : row.device = terms.device
    · rw [group_of_write hfits hrow hdevice]
      split_ifs at hkey
      · rw [Option.some.injEq] at hkey
        subst hkey
        rfl
      · exact (hgroup key (hdevice ▸ hkey)).symm
    · rw [if_neg fun hboth => hdevice hboth.2] at hkey
      exact hone.keys id row key (lookup_of_write hfits hrow hdevice) hkey

end

/-! ## One active grant -/

/-- The row is not active now and will never be, whatever is enrolled. -/
def Dead (now : ℕ) (rows : GroupRows Key) (row : GroupGrantRow Key) : Prop :=
  row.active = false ∨ row.expiration ≤ now ∨ rows.covered row = true

theorem Dead.not_active (hdead : Dead now rows row) (enrolled : Key → Bool) :
    rows.isActive enrolled now row = false := by
  by_contra hactive
  rw [Bool.not_eq_false, GroupRows.isActive_iff] at hactive
  obtain ⟨hon, hrunning, hopen, _⟩ := hactive
  rcases hdead with hoff | hexpired | hcovered
  · rw [hoff] at hon
    cases hon
  · omega
  · rw [hcovered] at hopen
    cases hopen

theorem dead_of_not_active (hle : now ≤ later) (henrolled : enrolled row.keeper = true)
    (hnot : rows.isActive enrolled now row = false) : Dead later rows row := by
  by_contra hdead
  simp only [Dead, not_or, not_le, Bool.not_eq_false, Bool.not_eq_true] at hdead
  have hactive : rows.isActive enrolled now row = true :=
    GroupRows.isActive_iff.mpr ⟨hdead.1, by omega, hdead.2.2, henrolled⟩
  rw [hnot] at hactive
  cases hactive

theorem Dead.tick (hdead : Dead now rows row) (hle : now ≤ later) : Dead later rows row :=
  hdead.imp_right fun hended => hended.imp_left fun hexpired => by omega

/-- A floor is pruned only after the grants it covers have expired. -/
theorem Dead.forget (hdead : Dead now full row) (htraced : Traced signed full)
    (hrow : full.grants.lookup id = some row) (hkept : Kept now part full) : Dead now part row := by
  rcases hdead with hoff | hexpired | hcovered
  · exact .inl hoff
  · exact .inr (.inl hexpired)
  · obtain ⟨floor, hfloor, hle⟩ := GroupRows.covered_iff.mp hcovered
    rcases hkept.floors row.group with hsame | ⟨_, hlost⟩
    · exact .inr (.inr (GroupRows.covered_iff.mpr ⟨floor, hsame ▸ hfloor, hle⟩))
    · have hlapsed := hlost floor hfloor
      have hexpires := (htraced.floors _ floor hfloor).1
      have hlife := htraced.lifetime hrow
      rw [floorRetention] at hexpires
      exact .inr (.inl (by omega))

theorem Dead.reset (hdead : Dead now rows row) {room : Key}
    (hnewer : ∀ floor, rows.floors.lookup (event.keeper, room) = some floor →
      floor.createdAt < event.createdAt) :
    Dead now (rows.writeFloor (event.keeper, room) event.floor) row := by
  refine hdead.imp_right fun hended => hended.imp_right fun hcovered => ?_
  obtain ⟨floor, hfloor, hle⟩ := GroupRows.covered_iff.mp hcovered
  refine GroupRows.covered_iff.mpr ?_
  by_cases hgroup : row.group = (event.keeper, room)
  · rw [hgroup] at hfloor ⊢
    have hlt := hnewer floor hfloor
    exact ⟨event.floor, AList.lookup_insert _, hle.trans hlt.le⟩
  · refine ⟨floor, ?_, hle⟩
    rw [GroupRows.writeFloor, AList.lookup_insert_ne hgroup]
    exact hfloor

def Lone (now : ℕ) (rows : GroupRows Key) : Prop :=
  ∀ id row other found, rows.grants.lookup id = some row →
    rows.grants.lookup other = some found → id ≠ other →
      row.device = found.device → Dead now rows row ∨ Dead now rows found

section

include hfits

theorem dead_beside (htraced : Traced signed rows) (henrolled : enrolled event.keeper = true)
    (hle : earlier ≤ now) (hrevoked : terms.revoked = false)
    (hrow : rows.grants.lookup id = some row) (hid : id ≠ (event.keeper, terms.grantId))
    (hdevice : row.device = terms.device) : Dead now rows row := by
  have hgroup := (groupKeyConflict_eq_false.mp hfits.free).2.2.2 id row hrow hdevice
  have hkeeper : row.keeper = event.keeper := congrArg Prod.fst hgroup
  have hgrantId : row.grantId ≠ terms.grantId := by
    intro hsame
    apply hid
    rw [(htraced.grants id row hrow).1, hkeeper, hsame]
  have hnot := hfits.alone hrevoked row
    (GroupRows.mem_rowsFor.mpr ⟨⟨id, hrow⟩, hdevice⟩) hgrantId hgroup
  exact dead_of_not_active hle (hkeeper ▸ henrolled) hnot

theorem Lone.grant (hlone : Lone now rows) (htraced : Traced signed rows)
    (henrolled : enrolled event.keeper = true) (hle : earlier ≤ now) :
    Lone now (rows.write (grantPlan rows event terms)) := by
  have hfloors : ∀ row, Dead now rows row →
      Dead now (rows.write (grantPlan rows event terms)) row := by
    intro row hdead
    simpa [Dead, GroupRows.covered, GroupRows.coveringFloor] using hdead
  have hbeside : ∀ id row, rows.grants.lookup id = some row →
      id ≠ (event.keeper, terms.grantId) → row.device = terms.device →
        Dead now (rows.write (grantPlan rows event terms)) row ∨
          Dead now (rows.write (grantPlan rows event terms))
            (grantRow (rows.grants.lookup (event.keeper, terms.grantId)) event terms) := by
    intro id row hrow hid hdevice
    cases hrevoked : terms.revoked with
    | true => exact .inr (.inl (by simp [grantRow, hrevoked]))
    | false =>
      exact .inl (hfloors row (dead_beside hfits htraced henrolled hle hrevoked hrow hid hdevice))
  intro id row other found hrow hfound hne hsame
  rw [lookup_grants_write hfits.same] at hrow hfound
  split_ifs at hrow hfound with hid hother hother
  · exact absurd (hid.trans hother.symm) hne
  · rw [Option.some.injEq] at hrow
    subst hrow
    exact (hbeside other found hfound hother hsame.symm).symm
  · rw [Option.some.injEq] at hfound
    subst hfound
    exact hbeside id row hrow hid hsame
  · exact (hlone id row other found hrow hfound hne hsame).imp (hfloors row) (hfloors found)

end

structure Exclusive (now : ℕ) (rows : GroupRows Key) : Prop where
  traced : Traced (fun _ => True) rows
  oneGroup : OneGroup rows
  lone : Lone now rows

theorem exclusive_rule : TableRule (fun _ : GroupEvent Key => True) Exclusive where
  tick hexclusive hle :=
    ⟨hexclusive.traced, hexclusive.oneGroup,
      fun id row other found hrow hfound hne hsame =>
        (hexclusive.lone id row other found hrow hfound hne hsame).imp (·.tick hle) (·.tick hle)⟩
  forget := by
    intro now part full hexclusive hkept
    refine ⟨(traced_rule _).forget hexclusive.traced hkept, hexclusive.oneGroup.forget hkept, ?_⟩
    intro id row other found hrow hfound hne hsame
    have hfullRow := hkept.grant hrow
    have hfullFound := hkept.grant hfound
    exact (hexclusive.lone id row other found hfullRow hfullFound hne hsame).imp
      (·.forget hexclusive.traced hfullRow hkept) (·.forget hexclusive.traced hfullFound hkept)
  reset := by
    intro now rows event room server enrolled hexclusive hadmitted hbody hnewer
    refine ⟨(traced_rule _).reset now hexclusive.traced hexclusive.traced hadmitted hbody hnewer,
      ⟨hexclusive.oneGroup.grants, hexclusive.oneGroup.keys⟩, ?_⟩
    intro id row other found hrow hfound hne hsame
    exact (hexclusive.lone id row other found hrow hfound hne hsame).imp
      (·.reset hnewer) (·.reset hnewer)
  grant := by
    intro earlier now rows event terms enrolled authority hexclusive hadmitted hbody hfits hle
    exact ⟨(traced_rule _).grant now hexclusive.traced hexclusive.traced hadmitted hbody hfits,
      hexclusive.oneGroup.grant hfits,
      hexclusive.lone.grant hfits hexclusive.traced hadmitted.enrolled hle⟩

theorem exclusive_empty (now : ℕ) : Exclusive now ({} : GroupRows Key) := by
  refine ⟨traced_empty, ⟨?_, ?_⟩, ?_⟩
  · exact fun _ _ _ _ hrow => by cases hrow
  · exact fun _ _ _ hrow => by cases hrow
  · exact fun _ _ _ _ hrow => by cases hrow

theorem Lone.eq_of_active (hlone : Lone now rows) {device : Key}
    {found : GroupGrantRow Key} (hrow : row ∈ rows.rowsFor device)
    (hfound : found ∈ rows.rowsFor device) (hactive : rows.isActive enrolled now row = true)
    (hother : rows.isActive enrolled now found = true) : row = found := by
  obtain ⟨⟨id, hid⟩, hdevice⟩ := GroupRows.mem_rowsFor.mp hrow
  obtain ⟨⟨other, hlookup⟩, hsame⟩ := GroupRows.mem_rowsFor.mp hfound
  by_cases hne : id = other
  · rw [hne, hlookup, Option.some.injEq] at hid
    exact hid.symm
  · rcases hlone id row other found hid hlookup hne (hdevice.trans hsame.symm) with hdead | hdead
    · rw [hdead.not_active] at hactive
      cases hactive
    · rw [hdead.not_active] at hother
      cases hother

theorem Lone.activeFor_eq (hlone : Lone now rows) {device : Key} (hrow : row ∈ rows.rowsFor device)
    (hactive : rows.isActive enrolled now row = true) :
    rows.activeFor enrolled now device = some row := by
  unfold GroupRows.activeFor
  cases hfind : (rows.rowsFor device).find? (rows.isActive enrolled now) with
  | none =>
    have hnone := List.find?_eq_none.mp hfind row hrow
    exact absurd hactive hnone
  | some found =>
    have hfound := List.mem_of_find?_eq_some hfind
    have hother := List.find?_some hfind
    rw [hlone.eq_of_active hfound hrow hother hactive]

/-! ## Keys stay in their group -/

def Joined (device : Key) (group : Key × Key) (rows : GroupRows Key) : Prop :=
  ∃ key, rows.keys.lookup device = some key ∧ key.group = group

variable {device : Key} {group : Key × Key} {plan : Plan Key}

theorem Joined.write {enrolled authority : Key → Bool} {event : GroupEvent Key} {earlier : ℕ}
    (hjoined : Joined device group part) (hkept : Kept now part full)
    (hdecides : Decides enrolled authority full event earlier plan) :
    Joined device group (part.write plan) := by
  cases hdecides with
  | held | reset => exact hjoined
  | grant terms hbody hfits =>
    have hgroup := (groupKeyConflict_eq_false.mp hfits.free).2.2.1
    obtain ⟨key, hkey, hsame⟩ := hjoined
    rw [Joined, lookup_keys_write (hkept.keys _) hgroup]
    split_ifs with hwrites
    · refine ⟨_, rfl, ?_⟩
      rw [hwrites.2, hkept.keys] at hkey
      rw [← hsame, hgroup key hkey]
      rfl
    · exact ⟨key, hkey, hsame⟩

variable {state stepped : State Key} {action : Action Key} {allowed : GroupEvent Key → Prop}
  {settings : Settings Key} {devices : Devices Key}

theorem joined_db_step (horderly : Orderly allowed state) (hstep : step state action = some stepped)
    (hjoined : Joined device group state.shared.db) : Joined device group stepped.shared.db := by
  generalize hnext : stepped.shared = next
  have hmove : TableMove state action next := hnext ▸ tableMove_of_step hstep
  cases hmove with
  | keep _ _ _ _ hdb =>
    rw [hdb]
    exact hjoined
  | commit id devices outcome work plan hrequest hpc =>
    obtain ⟨_, authority, earlier, _, hdecides⟩ :=
      (horderly.posts id _ hrequest work rfl).writing plan (by rw [hpc]; rfl)
    exact hjoined.write (horderly.synced (horderly.settled_of_commit hrequest hpc)) hdecides
  | _ => exact hjoined

/-- The snapshot shows no key that the database lacks. -/
def Backed (state : State Key) : Prop :=
  ∀ device group, Joined device group state.shared.snapshot → Joined device group state.shared.db

theorem Backed.step (hbacked : Backed state) (horderly : Orderly allowed state)
    (hstep : GroupGrants.step state action = some stepped) : Backed stepped := by
  intro device group hjoined
  have hkept : Joined device group state.shared.db →
      Joined device group stepped.shared.db := joined_db_step horderly hstep
  have hmove := tableMove_of_step hstep
  generalize stepped.shared = next at hmove hjoined hkept
  cases hmove with
  | restart | reload => exact hjoined
  | keep _ _ _ _ _ hsnapshot =>
    rw [hsnapshot] at hjoined
    exact hkept (hbacked device group hjoined)
  | _ => exact hkept (hbacked device group hjoined)

theorem backed_of_reaches {clock : ℕ}
    (hreach : Reaches step Loads (State.initial clock settings devices) state) :
    Orderly (fun _ => True) state ∧ Backed state := by
  apply hreach.invariant
  · exact ⟨Orderly.initial clock settings devices, fun _ _ hjoined => hjoined⟩
  · rintro before after action ⟨horderly, hbacked⟩ hloads hstep
    exact ⟨horderly.step (fun _ _ => trivial) hloads hstep, hbacked.step horderly hstep⟩

def IsTable (state : State Key) (table : GroupRows Key) : Prop :=
  table = state.shared.snapshot ∨ table = state.shared.db

theorem key_group_constant {clock : ℕ} {later : State Key}
    (hreach : Reaches step Loads (State.initial clock settings devices) state)
    (hlater : Reaches step Loads state later) {table laterTable : GroupRows Key}
    (htable : IsTable state table) (hlaterTable : IsTable later laterTable)
    {key laterKey : GroupKey Key} (hkey : table.keys.lookup device = some key)
    (hlaterKey : laterTable.keys.lookup device = some laterKey) : laterKey.group = key.group := by
  have hinDb : ∀ {state : State Key} {table : GroupRows Key}
      {key : GroupKey Key}, Backed state → IsTable state table →
        table.keys.lookup device = some key → Joined device key.group state.shared.db := by
    rintro state table key hbacked (rfl | rfl) hkey
    · exact hbacked device key.group ⟨key, hkey, rfl⟩
    · exact ⟨key, hkey, rfl⟩
  obtain ⟨horderly, hbacked⟩ := backed_of_reaches hreach
  have hstart := hinDb hbacked htable hkey
  have hend : (Orderly (fun _ => True) later ∧ Backed later) ∧
      Joined device key.group later.shared.db := by
    apply hlater.invariant
    · exact ⟨⟨horderly, hbacked⟩, hstart⟩
    · rintro before after action ⟨⟨horderly, hbacked⟩, hjoined⟩ hloads hstep
      exact ⟨⟨horderly.step (fun _ _ => trivial) hloads hstep,
        hbacked.step horderly hstep⟩, joined_db_step horderly hstep hjoined⟩
  obtain ⟨found, hfound, hsame⟩ := hend.2
  obtain ⟨other, hother, hgroup⟩ := hinDb hend.1.2 hlaterTable hlaterKey
  rw [hfound, Option.some.injEq] at hother
  rw [← hgroup, ← hother, hsame]

/-- In every state of a run in which no reload after a commit fails, in the snapshot
and in the database: the rows and the key row of a device name one keeper and room,
those of the key row stay in every later state, and at most one row of the device is
active, which is the one `activeFor` finds. -/
theorem one_group_and_one_active_grant {clock : ℕ} {settings : Settings Key}
    {devices : Devices Key} {state : State Key}
    (hreach : Reaches step Loads (State.initial clock settings devices) state)
    {table : GroupRows Key} (htable : IsTable state table) (device : Key) :
    (∀ row ∈ table.rowsFor device, (∀ found ∈ table.rowsFor device, row.group = found.group) ∧
        ∀ key, table.keys.lookup device = some key → row.group = key.group) ∧
    (∀ key, table.keys.lookup device = some key → ∀ later,
      Reaches step Loads state later → ∀ laterTable, IsTable later laterTable → ∀ laterKey,
          laterTable.keys.lookup device = some laterKey → laterKey.group = key.group) ∧
    ∀ enrolled : Key → Bool, ∀ row ∈ table.rowsFor device,
      table.isActive enrolled state.shared.clock row = true → (∀ found ∈ table.rowsFor device,
          table.isActive enrolled state.shared.clock found = true → found = row) ∧
        table.activeFor enrolled state.shared.clock device = some row := by
  have htables := exclusive_rule.reaches exclusive_empty (hreach.mono fun _ _ hloads =>
    ⟨fun _ _ => trivial, hloads⟩)
  have hexclusive : Exclusive state.shared.clock table := by
    rcases htable with rfl | rfl
    · exact htables.snapshot
    · exact htables.db
  refine ⟨fun row hrow => ⟨fun found hfound => ?_, fun key hkey => ?_⟩, ?_, ?_⟩
  · obtain ⟨⟨id, hid⟩, hdevice⟩ := GroupRows.mem_rowsFor.mp hrow
    obtain ⟨⟨other, hother⟩, hsame⟩ := GroupRows.mem_rowsFor.mp hfound
    exact hexclusive.oneGroup.grants id row other found hid hother (hdevice.trans hsame.symm)
  · obtain ⟨⟨id, hid⟩, rfl⟩ := GroupRows.mem_rowsFor.mp hrow
    exact hexclusive.oneGroup.keys id row key hid hkey
  · intro key hkey later hlater laterTable hlaterTable laterKey hlaterKey
    exact key_group_constant hreach hlater htable hlaterTable hkey hlaterKey
  · intro enrolled row hrow hactive
    exact ⟨fun found hfound hother =>
        hexclusive.lone.eq_of_active hfound hrow hother hactive,
      hexclusive.lone.activeFor_eq hrow hactive⟩

def nextGrant (room : ℕ) : GroupEvent ℕ where
  id := 14
  keeper := 1
  createdAt := 130
  expiration := 1000
  body := .grant { smallTerms with grantId := 6, room := room }

/-- A reset ends a grant of the device, and another one follows. -/
theorem one_group_and_one_active_grant_after_a_reset :
    ∃ (state : State ℕ) (row : GroupGrantRow ℕ),
      Reaches step Loads (State.initial 100 smallNode noDevices) state ∧
      (state.shared.snapshot.rowsFor 3).length = 2 ∧
      (∀ found ∈ state.shared.snapshot.rowsFor 3, row.group = found.group ∧
        (state.shared.snapshot.isActive (fun _ => true) state.shared.clock found = true →
          found = row)) ∧
      state.shared.snapshot.activeFor (fun _ => true) state.shared.clock 3 = some row := by
  have hrun : (checkedRun step (fun _ action => !action.isCutOff)
      (State.initial 100 smallNode noDevices)
      (postThrough oldGrant 0 ++ .tick 20 :: postThrough laterReset 1 ++
        .tick 10 :: postThrough (nextGrant 2) 2)).any (fun state =>
        decide ((state.shared.snapshot.rowsFor 3).length = 2) &&
        decide (grantRow none (nextGrant 2) { smallTerms with grantId := 6 } ∈
          state.shared.snapshot.rowsFor 3) &&
        state.shared.snapshot.isActive (fun _ => true) state.shared.clock
          (grantRow none (nextGrant 2) { smallTerms with grantId := 6 })) = true := by
    decide
  obtain ⟨state, hreach, htest⟩ := exists_reaches_of_check
    (fun hcheck => loads_of_check (by simpa using hcheck)) hrun
  simp only [Bool.and_eq_true, decide_eq_true_eq] at htest
  obtain ⟨⟨htwo, hrow⟩, hactive⟩ := htest
  obtain ⟨hgroups, -, hone⟩ := one_group_and_one_active_grant hreach (.inl rfl) 3
  obtain ⟨hlone, hfound⟩ := hone (fun _ => true) _ hrow hactive
  exact ⟨state, _, hreach, htwo, fun found hin => ⟨(hgroups _ hrow).1 found hin, hlone found hin⟩,
    hfound⟩

/-- A grant is committed and its reload fails.  The next grant of the device, in
another room, is decided on the old snapshot and accepted, and its reload shows
both. -/
theorem unloaded_grant_gets_company : ∃ (state : State ℕ) (one two : GroupGrantRow ℕ),
      Reaches step everyStep (State.initial 100 smallNode noDevices) state ∧
      one ∈ state.shared.snapshot.rowsFor 3 ∧ two ∈ state.shared.snapshot.rowsFor 3 ∧
      one.group ≠ two.group ∧
      state.shared.snapshot.isActive state.shared.settings.enrolled state.shared.clock one = true ∧
      state.shared.snapshot.isActive state.shared.settings.enrolled state.shared.clock two =
        true := by
  have hrun : (runActions step (State.initial 100 smallNode noDevices)
      ([.post oldGrant, .advance 0 noDevices .ok, .advance 0 noDevices .ok,
        .advance 0 noDevices .ok, .advance 0 noDevices .gone] ++
        .tick 30 :: postThrough (nextGrant 7) 1)).any (fun state =>
        decide (∃ one ∈ state.shared.snapshot.rowsFor 3, ∃ two ∈ state.shared.snapshot.rowsFor 3,
          one.group ≠ two.group ∧
          state.shared.snapshot.isActive state.shared.settings.enrolled state.shared.clock one =
            true ∧
          state.shared.snapshot.isActive state.shared.settings.enrolled state.shared.clock two =
            true)) = true := by
    decide
  obtain ⟨state, hreach, htest⟩ := exists_reaches_of_runActions hrun
  obtain ⟨one, hone, two, htwo, hboth⟩ := of_decide_eq_true htest
  exact ⟨state, one, two, hreach, hone, htwo, hboth⟩

end GroupGrants
end Wildbloom
