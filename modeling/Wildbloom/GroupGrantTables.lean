import Wildbloom.GroupGrantRows
import Mathlib.Tactic

/-!
# What an accepted event does to the tables

`Decides` lists what `evaluateGroupEvent` can decide to write, with everything
it checked first.  A table may have lost entries of a fuller one to pruning
(`Kept`); the write of a plan that was made for the fuller one keeps the two in
step.  `TableRule` is a property of tables that time, pruning and every
accepted event keep; `PairRule` is one that is kept even where an event is
decided on one table and written to another.
-/

namespace Wildbloom
namespace GroupGrants

open KeyedTables

variable {Key : Type} [DecidableEq Key] {enrolled authority : Key → Bool}
  {rows part full : GroupRows Key} {event : GroupEvent Key} {terms : Terms Key} {plan : Plan Key}
  {now : ℕ} {row : GroupGrantRow Key} {group : Key × Key}

/-! ## Reading tables -/

namespace GroupRows

theorem mem_rowsFor {device : Key} :
    row ∈ rows.rowsFor device ↔ (∃ id, rows.grants.lookup id = some row) ∧ row.device = device := by
  simp [rowsFor, GroupRows.rows, mem_values]

theorem coveringFloor_eq_some {floor : Floor Key} :
    rows.coveringFloor row = some floor ↔ rows.floors.lookup row.group = some floor ∧
        row.createdAt ≤ floor.createdAt := by
  simp [coveringFloor]

theorem covered_iff : rows.covered row = true ↔
      ∃ floor, rows.floors.lookup row.group = some floor ∧ row.createdAt ≤ floor.createdAt := by
  simp [covered, Option.isSome_iff_exists, coveringFloor_eq_some]

theorem isActive_iff : rows.isActive enrolled now row = true ↔
      row.active = true ∧ now < row.expiration ∧ rows.covered row = false ∧
        enrolled row.keeper = true := by
  simp [isActive, and_assoc]

end GroupRows

theorem groupKeyConflict_eq_false {device : Key} :
    groupKeyConflict enrolled authority rows group device = false ↔
      authority device = false ∧ enrolled device = false ∧
        (∀ key, rows.keys.lookup device = some key → key.group = group) ∧
        ∀ id row, rows.grants.lookup id = some row → row.device = device → row.group = group := by
  have hkeys : (rows.keys.lookup device).any (fun key => decide (key.group ≠ group)) = false ↔
        ∀ key, rows.keys.lookup device = some key → key.group = group := by
    cases rows.keys.lookup device <;> simp
  have hrows : (rows.rowsFor device).any (fun row => decide (row.group ≠ group)) = false ↔
        ∀ id row, rows.grants.lookup id = some row → row.device = device → row.group = group := by
    simp only [List.any_eq_false, GroupRows.mem_rowsFor, decide_eq_true_eq,
      not_not, and_imp, forall_exists_index]
    exact forall_comm
  rw [groupKeyConflict, Bool.or_eq_false_iff, Bool.or_eq_false_iff,
    Bool.or_eq_false_iff, hkeys, hrows, and_assoc, and_assoc]

/-! ## What `evaluateGroupEvent` can decide -/

def GroupRows.Holds (rows : GroupRows Key) (event : GroupEvent Key) : Prop :=
  match event.body with
  | .reset room _ =>
    ∃ floor, rows.floors.lookup (event.keeper, room) = some floor ∧ floor.eventId = event.id
  | .grant terms =>
    ∃ row, rows.grants.lookup (event.keeper, terms.grantId) = some row ∧ row.eventId = event.id

structure Fits (enrolled authority : Key → Bool) (rows : GroupRows Key)
    (event : GroupEvent Key) (terms : Terms Key) (now : ℕ) : Prop where
  free : groupKeyConflict enrolled authority rows (event.keeper, terms.room) terms.device = false
  floor : ∀ floor, rows.floors.lookup (event.keeper, terms.room) = some floor →
      floor.createdAt < event.createdAt
  same : ∀ row, rows.grants.lookup (event.keeper, terms.grantId) = some row →
      row.room = terms.room ∧ row.device = terms.device ∧ row.server = terms.server
  newer : ∀ row, rows.grants.lookup (event.keeper, terms.grantId) = some row →
      row.createdAt < event.createdAt
  final : ∀ row, rows.grants.lookup (event.keeper, terms.grantId) = some row →
      row.active = false → terms.revoked = true
  alone : terms.revoked = false → ∀ other ∈ rows.rowsFor terms.device,
    other.grantId ≠ terms.grantId → other.group = (event.keeper, terms.room) →
        rows.isActive enrolled now other = false

variable (enrolled authority rows event now)

inductive Decides : Plan Key → Prop
  | held (state : Standing) (hholds : rows.Holds event) : Decides (.unchanged state)
  | reset (room server : Key) (hbody : event.body = .reset room server)
      (hnewer : ∀ floor, rows.floors.lookup (event.keeper, room) = some floor →
          floor.createdAt < event.createdAt) : Decides (resetPlan event room)
  | grant (terms : Terms Key) (hbody : event.body = .grant terms)
      (hfits : Fits enrolled authority rows event terms now) : Decides (grantPlan rows event terms)

variable {enrolled authority rows event now} {earlier : ℕ}

theorem checkExisting_eq_none (hcheck : checkExisting event terms row = none) :
    (row.room = terms.room ∧ row.device = terms.device ∧ row.server = terms.server) ∧
      row.createdAt < event.createdAt ∧
      (row.active = false → terms.revoked = true) := by
  unfold checkExisting at hcheck
  split_ifs at hcheck with hid hsame hstale hrevoked
  refine ⟨hsame, by omega, ?_⟩
  intro hactive
  simpa [hactive] using hrevoked

theorem checkExisting_eq_ok (hcheck : checkExisting event terms row = some (.ok plan)) :
    row.eventId = event.id ∧ ∃ state, plan = .unchanged state := by
  unfold checkExisting at hcheck
  by_cases hid : row.eventId = event.id
  · rw [if_pos hid, Option.some.injEq, Except.ok.injEq] at hcheck
    exact ⟨hid, _, hcheck.symm⟩
  · rw [if_neg hid] at hcheck
    split_ifs at hcheck <;> simp at hcheck

theorem decides_reset {room server : Key} (hbody : event.body = .reset room server)
    (hplan : evaluateReset rows event room = .ok plan) :
    Decides enrolled authority rows event now plan := by
  unfold evaluateReset at hplan
  cases hfloor : rows.floors.lookup (event.keeper, room) with
  | none =>
    simp only [hfloor, Except.ok.injEq] at hplan
    subst hplan
    exact .reset room server hbody (by simp [hfloor])
  | some floor =>
    simp only [hfloor] at hplan
    split_ifs at hplan with hid hstale
    · simp only [Except.ok.injEq] at hplan
      subst hplan
      refine .held .reset ?_
      simp only [GroupRows.Holds, hbody]
      exact ⟨floor, hfloor, hid⟩
    · simp only [Except.ok.injEq] at hplan
      subst hplan
      refine .reset room server hbody ?_
      intro found hfound
      rw [hfloor, Option.some.injEq] at hfound
      subst hfound
      omega

theorem decides_of_evaluate (hplan : evaluateGroupEvent enrolled authority rows event now =
      .ok plan) : Decides enrolled authority rows event now plan := by
  unfold evaluateGroupEvent at hplan
  cases hbody : event.body with
  | reset room server =>
    simp only [hbody] at hplan
    exact decides_reset hbody hplan
  | grant terms =>
    simp only [hbody] at hplan
    by_cases hconflict : groupKeyConflict enrolled authority rows
        (event.keeper, terms.room) terms.device = true
    · rw [if_pos hconflict] at hplan
      cases hplan
    rw [if_neg hconflict] at hplan
    by_cases hfloor : (rows.floors.lookup (event.keeper, terms.room)).any
        (fun floor => decide (event.createdAt ≤ floor.createdAt)) = true
    · rw [if_pos hfloor] at hplan
      cases hplan
    rw [if_neg hfloor] at hplan
    have hfloors : ∀ floor, rows.floors.lookup (event.keeper, terms.room) = some floor →
          floor.createdAt < event.createdAt := by
      intro floor hlookup
      simpa [hlookup] using hfloor
    cases hexisting : (rows.grants.lookup
        (event.keeper, terms.grantId)).bind (checkExisting event terms) with
    | some decided =>
      simp only [hexisting] at hplan
      obtain ⟨row, hrow, hcheck⟩ := Option.bind_eq_some_iff.mp hexisting
      rw [hplan] at hcheck
      obtain ⟨hid, state, rfl⟩ := checkExisting_eq_ok hcheck
      refine .held state ?_
      simp only [GroupRows.Holds, hbody]
      exact ⟨row, hrow, hid⟩
    | none =>
      simp only [hexisting] at hplan
      split_ifs at hplan with htaken
      simp only [Except.ok.injEq] at hplan
      subst hplan
      have hrow : ∀ row, rows.grants.lookup (event.keeper, terms.grantId) = some row →
            checkExisting event terms row = none := by
        intro row hlookup
        simpa [hlookup] using hexisting
      refine .grant terms hbody
        ⟨by simpa using hconflict, hfloors,
          fun row hlookup => (checkExisting_eq_none (hrow row hlookup)).1,
          fun row hlookup => (checkExisting_eq_none (hrow row hlookup)).2.1,
          fun row hlookup =>
            (checkExisting_eq_none (hrow row hlookup)).2.2, ?_⟩
      intro hrevoked other hother hid hgroup
      by_contra hactive
      apply htaken
      simp only [hrevoked, List.any_eq_true]
      exact ⟨by simp, other, hother, by simp [hid, hgroup, hactive]⟩

/-! ## Writing tables -/

theorem grants_write_grantPlan : (part.write (grantPlan full event terms)).grants =
    (part.writeGrant (grantRow (full.grants.lookup (event.keeper, terms.grantId)) event
      terms)).grants := by
  simp only [GroupRows.write, grantPlan]
  split_ifs <;> rfl

/-- Where the table has a row of the id, the write keeps that row's room, device and
server. -/
theorem lookup_grants_write_any (part full : GroupRows Key) (event : GroupEvent Key)
    (terms : Terms Key) (id : Key × Key) : ∃ room device server,
    (part.write (grantPlan full event terms)).grants.lookup id =
      if id = (event.keeper, terms.grantId) then
        some { grantRow (full.grants.lookup (event.keeper, terms.grantId)) event terms with
          room := room, device := device, server := server }
      else part.grants.lookup id := by
  rw [grants_write_grantPlan]
  simp only [GroupRows.writeGrant, grantRow]
  by_cases hid : id = (event.keeper, terms.grantId)
  · subst hid
    simp only [AList.lookup_insert, if_true]
    cases part.grants.lookup (event.keeper, terms.grantId) with
    | none => exact ⟨_, _, _, rfl⟩
    | some old => exact ⟨_, _, _, rfl⟩
  · exact ⟨terms.room, terms.device, terms.server, by rw [if_neg hid, AList.lookup_insert_ne hid]⟩

theorem lookup_grants_write (hsame : ∀ old,
      part.grants.lookup (event.keeper, terms.grantId) = some old →
        old.room = terms.room ∧ old.device = terms.device ∧ old.server = terms.server)
    (id : Key × Key) :
    (part.write (grantPlan full event terms)).grants.lookup id =
      if id = (event.keeper, terms.grantId) then
        some (grantRow (full.grants.lookup (event.keeper, terms.grantId)) event terms)
      else part.grants.lookup id := by
  rw [grants_write_grantPlan]
  simp only [GroupRows.writeGrant, grantRow]
  by_cases hid : id = (event.keeper, terms.grantId)
  · rw [if_pos hid, hid, AList.lookup_insert]
    cases hold : part.grants.lookup (event.keeper, terms.grantId) with
    | none => rfl
    | some old =>
      obtain ⟨hroom, hdevice, hserver⟩ := hsame old hold
      simp only [hroom, hdevice, hserver]
  · rw [if_neg hid, AList.lookup_insert_ne hid]

@[simp]
theorem floors_write_grantPlan :
    (part.write (grantPlan full event terms)).floors = part.floors := by
  simp only [GroupRows.write, grantPlan]
  split_ifs <;> rfl

theorem lookup_keys_write (hkeys : part.keys.lookup terms.device = full.keys.lookup terms.device)
    (hgroup : ∀ old, full.keys.lookup terms.device = some old →
      old.group = (event.keeper, terms.room))
    (device : Key) :
    (part.write (grantPlan full event terms)).keys.lookup device =
      if terms.revoked = false ∧ device = terms.device then
        some (groupKey (full.keys.lookup terms.device) event terms)
      else part.keys.lookup device := by
  set known := full.keys.lookup terms.device with hknown
  set key := groupKey known event terms with hkey
  have hwrite : (part.write (grantPlan full event terms)).keys =
      if ¬terms.revoked ∧ known ≠ some key then
        (part.writeKey terms.device key).keys
      else part.keys := by
    simp only [GroupRows.write, grantPlan, ← hknown, ← hkey]
    split_ifs <;> rfl
  rw [hwrite]
  by_cases hdevice : device = terms.device
  · subst hdevice
    by_cases hrevoked : terms.revoked = true
    · simp [hrevoked]
    · rw [Bool.not_eq_true] at hrevoked
      simp only [hrevoked, Bool.false_eq_true, not_false_eq_true, true_and, and_self, if_true]
      split_ifs with hnew
      · simp only [GroupRows.writeKey, AList.lookup_insert, hkeys]
        cases hold : known with
        | none => rfl
        | some old =>
          have := hgroup old hold
          simp only [GroupKey.group, Prod.mk.injEq] at this
          simp only [hkey, groupKey, this]
      · rw [hkeys]
        exact not_not.mp hnew
  · have hother : ¬(terms.revoked = false ∧ device = terms.device) :=
      fun hboth => hdevice hboth.2
    rw [if_neg hother]
    split_ifs
    · simp only [GroupRows.writeKey, AList.lookup_insert_ne hdevice]
    · rfl

/-! ## Tables that lost entries -/

/-- `part` is `full` but for entries that a prune at `now` or before drops. -/
structure Kept (now : ℕ) (part full : GroupRows Key) : Prop where
  grants : ∀ id, part.grants.lookup id = full.grants.lookup id ∨
    part.grants.lookup id = none ∧ ∀ row, full.grants.lookup id = some row →
      row.retainUntil + selfDeleteGrace < now
  floors : ∀ group, part.floors.lookup group = full.floors.lookup group ∨
    part.floors.lookup group = none ∧
      ∀ floor, full.floors.lookup group = some floor → floor.expiresAt < now
  keys : ∀ device, part.keys.lookup device = full.keys.lookup device

namespace Kept

theorem refl (now : ℕ) (rows : GroupRows Key) : Kept now rows rows :=
  ⟨fun _ => .inl rfl, fun _ => .inl rfl, fun _ => rfl⟩

variable {later : ℕ}

section

variable (hkept : Kept now part full)
include hkept

theorem tick (hle : now ≤ later) : Kept later part full := by
  refine ⟨fun id => ?_, fun group => ?_, hkept.keys⟩
  · refine (hkept.grants id).imp_right fun hlost => ⟨hlost.1, ?_⟩
    intro row hrow
    exact (hlost.2 row hrow).trans_le hle
  · refine (hkept.floors group).imp_right fun hlost => ⟨hlost.1, ?_⟩
    intro floor hfloor
    exact (hlost.2 floor hfloor).trans_le hle

theorem grant {id : Key × Key} (hrow : part.grants.lookup id = some row) :
    full.grants.lookup id = some row := by
  rcases hkept.grants id with hsame | ⟨hlost, _⟩
  · rw [← hsame, hrow]
  · rw [hlost] at hrow
    cases hrow

theorem floor {floor : Floor Key} (hfloor : part.floors.lookup group = some floor) :
    full.floors.lookup group = some floor := by
  rcases hkept.floors group with hsame | ⟨hlost, _⟩
  · rw [← hsame, hfloor]
  · rw [hlost] at hfloor
    cases hfloor

theorem prune : Kept now (part.prune now) full := by
  refine ⟨fun id => ?_, fun group => ?_, hkept.keys⟩
  · simp only [GroupRows.prune, lookup_keepEntries]
    cases hrow : part.grants.lookup id with
    | none =>
      refine (hkept.grants id).imp (fun hsame => ?_) fun hlost => ?_
      · rw [← hsame, hrow]
        rfl
      · exact ⟨rfl, hlost.2⟩
    | some row =>
      rw [hkept.grant hrow]
      by_cases hold : row.retainUntil + selfDeleteGrace < now
      · refine .inr ⟨by simpa using hold, ?_⟩
        rintro _ ⟨⟩
        exact hold
      · exact .inl (by simpa using hold)
  · simp only [GroupRows.prune, lookup_keepEntries]
    cases hfloor : part.floors.lookup group with
    | none =>
      refine (hkept.floors group).imp (fun hsame => ?_) fun hlost => ?_
      · rw [← hsame, hfloor]
        rfl
      · exact ⟨rfl, hlost.2⟩
    | some floor =>
      rw [hkept.floor hfloor]
      by_cases hold : floor.expiresAt < now
      · refine .inr ⟨by simp [hold], ?_⟩
        rintro _ ⟨⟩
        exact hold
      · exact .inl (by simpa using hold)

theorem resetWrite (room : Key) :
    Kept now (part.write (resetPlan event room)) (full.write (resetPlan event room)) := by
  refine ⟨hkept.grants, fun group => ?_, hkept.keys⟩
  simp only [GroupRows.write, resetPlan, Option.elim_none, Option.elim_some, GroupRows.writeFloor]
  by_cases hgroup : group = (event.keeper, room)
  · subst hgroup
    exact .inl (by simp only [AList.lookup_insert])
  · simp only [AList.lookup_insert_ne hgroup]
    exact hkept.floors group

theorem grantWrite (hfits : Fits enrolled authority full event terms earlier) :
    Kept now (part.write (grantPlan full event terms))
      (full.write (grantPlan full event terms)) := by
  have hgroup := (groupKeyConflict_eq_false.mp hfits.free).2.2.1
  refine ⟨fun id => ?_, fun group => ?_, fun device => ?_⟩
  · rw [lookup_grants_write fun old hold => hfits.same old (hkept.grant hold),
      lookup_grants_write hfits.same]
    split_ifs
    · exact .inl rfl
    · exact hkept.grants id
  · rw [floors_write_grantPlan, floors_write_grantPlan]
    exact hkept.floors group
  · rw [lookup_keys_write (hkept.keys _) hgroup, lookup_keys_write rfl hgroup, hkept.keys]

theorem write (hdecides : Decides enrolled authority full event earlier plan) :
    Kept now (part.write plan) (full.write plan) := by
  cases hdecides with
  | held => exact hkept
  | reset room => exact hkept.resetWrite room
  | grant terms _ hfits => exact hkept.grantWrite hfits

end

end Kept

/-! ## Properties of tables -/

structure Admitted (allowed : GroupEvent Key → Prop) (enrolled : Key → Bool)
    (event : GroupEvent Key) : Prop where
  allowed : allowed event
  parsed : event.parse = none
  enrolled : enrolled event.keeper = true

/-- What time, pruning and every admitted event keep of a table. -/
structure TableRule (allowed : GroupEvent Key → Prop) (P : ℕ → GroupRows Key → Prop) : Prop where
  tick : ∀ {now later rows}, P now rows → now ≤ later → P later rows
  forget : ∀ {now part full}, P now full → Kept now part full → P now part
  reset : ∀ now {rows event room server} {enrolled : Key → Bool},
    P now rows → Admitted allowed enrolled event → event.body = .reset room server →
      (∀ floor, rows.floors.lookup (event.keeper, room) = some floor →
        floor.createdAt < event.createdAt) →
      P now (rows.writeFloor (event.keeper, room) event.floor)
  grant : ∀ {earlier now rows event terms} {enrolled authority : Key → Bool},
    P now rows → Admitted allowed enrolled event → event.body = .grant terms →
      Fits enrolled authority rows event terms earlier → earlier ≤ now →
      P now (rows.write (grantPlan rows event terms))

theorem TableRule.write {allowed : GroupEvent Key → Prop} {P : ℕ → GroupRows Key → Prop}
    (hrule : TableRule allowed P) (hrows : P now rows) (hadmitted : Admitted allowed enrolled event)
    (hle : earlier ≤ now) (hdecides : Decides enrolled authority rows event earlier plan) :
    P now (rows.write plan) := by
  cases hdecides with
  | held => exact hrows
  | reset room server hbody hnewer =>
    exact hrule.reset now hrows hadmitted hbody hnewer
  | grant terms hbody hfits =>
    exact hrule.grant hrows hadmitted hbody hfits hle

/-- What time, pruning and every admitted event keep of two tables, where the event
is decided on the one and written to the other. -/
structure PairRule (allowed : GroupEvent Key → Prop) (P : ℕ → GroupRows Key → Prop) : Prop where
  tick : ∀ {now later rows}, P now rows → now ≤ later → P later rows
  forget : ∀ {now part full}, P now full → Kept now part full → P now part
  reset : ∀ now {seen rows event room server} {enrolled : Key → Bool},
    P now seen → P now rows → Admitted allowed enrolled event → event.body = .reset room server →
      (∀ floor, seen.floors.lookup (event.keeper, room) = some floor →
        floor.createdAt < event.createdAt) →
      P now (rows.writeFloor (event.keeper, room) event.floor)
  grant : ∀ now {earlier seen rows event terms} {enrolled authority : Key → Bool},
    P now seen → P now rows → Admitted allowed enrolled event → event.body = .grant terms →
      Fits enrolled authority seen event terms earlier →
      P now (rows.write (grantPlan seen event terms))

theorem PairRule.write {allowed : GroupEvent Key → Prop} {P : ℕ → GroupRows Key → Prop}
    {seen : GroupRows Key} (hrule : PairRule allowed P) (hseen : P now seen) (hrows : P now rows)
    (hadmitted : Admitted allowed enrolled event)
    (hdecides : Decides enrolled authority seen event earlier plan) : P now (rows.write plan) := by
  cases hdecides with
  | held => exact hrows
  | reset room server hbody hnewer => exact hrule.reset now hseen hrows hadmitted hbody hnewer
  | grant terms hbody hfits => exact hrule.grant now hseen hrows hadmitted hbody hfits

end GroupGrants
end Wildbloom
