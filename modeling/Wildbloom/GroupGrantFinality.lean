import Wildbloom.GroupGrantRuns

/-!
# Resets and revocations are final

Every row and floor of the tables goes back to a signed event (`Traced`).  A
reset leaves a floor that is replaced only by newer ones and pruned only when
every grant it covers has expired.  A revocation leaves a row that only
revocations replace and that is pruned only after the last expiration that any
event of the id carries.
-/

namespace Wildbloom
namespace GroupGrants

open Runs KeyedTables

variable {Key : Type} [DecidableEq Key] {signed : GroupEvent Key → Prop} {event : GroupEvent Key}
  {now later : ℕ} {rows part full : GroupRows Key} {newer : GroupEvent Key}

theorem lifetime_of_parse (hparse : event.parse = none) : event.createdAt < event.expiration ∧
      event.expiration ≤ event.createdAt + maxGrantSeconds := by
  unfold GroupEvent.parse at hparse
  split_ifs at hparse with _ hlifetime
  omega

/-! ## Where rows and floors come from -/

structure GroupGrantRow.From (row : GroupGrantRow Key)
    (event : GroupEvent Key) (terms : Terms Key) : Prop where
  body : event.body = .grant terms
  keeper : row.keeper = event.keeper
  grantId : row.grantId = terms.grantId
  createdAt : row.createdAt = event.createdAt
  expiration : row.expiration = event.expiration
  active : row.active = !terms.revoked
  eventId : row.eventId = event.id

/-- Rows and floors go back to signed events of a lawful lifetime. -/
structure Traced (signed : GroupEvent Key → Prop) (rows : GroupRows Key) : Prop where
  grants : ∀ id row, rows.grants.lookup id = some row →
    id = (row.keeper, row.grantId) ∧ row.expiration ≤ row.retainUntil ∧
      ∃ event terms, signed event ∧ event.parse = none ∧ row.From event terms
  floors : ∀ group floor, rows.floors.lookup group = some floor →
    floor.expiresAt = floor.createdAt + floorRetention ∧
      ∃ event, signed event ∧ floor.createdAt = event.createdAt ∧ floor.eventId = event.id

theorem Traced.lifetime (htraced : Traced signed rows) {id : Key × Key}
    {row : GroupGrantRow Key} (hrow : rows.grants.lookup id = some row) :
    row.createdAt < row.expiration ∧ row.expiration ≤ row.createdAt + maxGrantSeconds := by
  obtain ⟨_, _, event, terms, _, hparse, hfrom⟩ := htraced.grants id row hrow
  rw [hfrom.createdAt, hfrom.expiration]
  exact lifetime_of_parse hparse

omit [DecidableEq Key] in
theorem le_retainUntil_grantRow (existing : Option (GroupGrantRow Key))
    (event : GroupEvent Key) (terms : Terms Key) :
    event.expiration ≤ (grantRow existing event terms).retainUntil := by
  cases existing with
  | none => exact le_refl _
  | some row => exact le_max_right _ _

omit [DecidableEq Key] in
theorem from_grantRow {terms : Terms Key} (hbody : event.body = .grant terms)
    (existing : Option (GroupGrantRow Key)) (room device server : Key) :
    GroupGrantRow.From { grantRow existing event terms with
      room := room, device := device, server := server } event terms :=
  ⟨hbody, rfl, rfl, rfl, rfl, rfl, rfl⟩

theorem traced_rule (signed : GroupEvent Key → Prop) :
    PairRule signed fun _ rows => Traced signed rows where
  tick htraced _ := htraced
  forget htraced hkept :=
    ⟨fun id row hrow => htraced.grants id row (hkept.grant hrow),
      fun group floor hfloor => htraced.floors group floor (hkept.floor hfloor)⟩
  reset := by
    intro now seen rows event room server enrolled _ htraced hadmitted _ _
    refine ⟨htraced.grants, fun group floor hfloor => ?_⟩
    rcases lookup_insert_cases hfloor with ⟨_, rfl⟩ | ⟨_, hold⟩
    · exact ⟨rfl, event, hadmitted.allowed, rfl, rfl⟩
    · exact htraced.floors group floor hold
  grant := by
    intro now earlier seen rows event terms enrolled authority _ htraced hadmitted hbody hfits
    refine ⟨fun id row hrow => ?_, fun group floor hfloor => ?_⟩
    · obtain ⟨room, device, server, hlookup⟩ := lookup_grants_write_any rows seen event terms id
      rw [hlookup] at hrow
      split_ifs at hrow with hid
      · rw [Option.some.injEq] at hrow
        subst hrow
        exact ⟨hid, le_retainUntil_grantRow _ event terms, event, terms,
          hadmitted.allowed, hadmitted.parsed, from_grantRow hbody _ _ _ _⟩
      · exact htraced.grants id row hrow
    · rw [floors_write_grantPlan] at hfloor
      exact htraced.floors group floor hfloor

theorem traced_empty : Traced signed ({} : GroupRows Key) := by
  constructor <;> intro _ _ hlookup <;> cases hlookup

/-! ## Resets -/

/-- A floor at or above the reset, until every grant it covers has expired. -/
def Floored (event : GroupEvent Key) (now : ℕ) (rows : GroupRows Key) : Prop :=
  ∀ room server, event.body = .reset room server → event.createdAt + floorRetention < now ∨
      ∃ floor, rows.floors.lookup (event.keeper, room) = some floor ∧
        event.createdAt ≤ floor.createdAt

theorem Floored.tick (hfloored : Floored event now rows) (hle : now ≤ later) :
    Floored event later rows := by
  intro room server hbody
  exact (hfloored room server hbody).imp_left fun hlapsed => by omega

theorem Floored.forget (hfloored : Floored event now full)
    (htraced : Traced signed full) (hkept : Kept now part full) : Floored event now part := by
  intro room server hbody
  rcases hfloored room server hbody with hlapsed | ⟨floor, hfloor, hle⟩
  · exact .inl hlapsed
  · rcases hkept.floors (event.keeper, room) with hsame | ⟨_, hlost⟩
    · exact .inr ⟨floor, hsame ▸ hfloor, hle⟩
    · have hexpires := (htraced.floors _ floor hfloor).1
      have hlapsed := hlost floor hfloor
      exact .inl (by omega)

theorem Floored.lapse (hfloored : Floored event later rows) (now : ℕ) :
    Floored event now rows ∨ ∀ other, Floored event later other := by
  by_cases hlapsed : event.createdAt + floorRetention < later
  · exact .inr fun _ _ _ _ => .inl hlapsed
  · exact .inl fun room server hbody => .inr ((hfloored room server hbody).resolve_left hlapsed)

theorem Floored.reset {seen : GroupRows Key} (hseen : Floored event now seen)
    (hfloored : Floored event now rows) {room : Key}
    (hnewer : ∀ floor, seen.floors.lookup (newer.keeper, room) = some floor →
      floor.createdAt < newer.createdAt) :
    Floored event now (rows.writeFloor (newer.keeper, room) newer.floor) := by
  intro target server hbody
  by_cases hgroup : (event.keeper, target) = (newer.keeper, room)
  · refine (hseen target server hbody).imp_right ?_
    rintro ⟨floor, hfloor, hle⟩
    rw [hgroup] at hfloor ⊢
    refine ⟨newer.floor, AList.lookup_insert _, ?_⟩
    have hlt := hnewer floor hfloor
    exact hle.trans hlt.le
  · rw [GroupRows.writeFloor, AList.lookup_insert_ne hgroup]
    exact hfloored target server hbody

theorem floored_rule (hids : ∀ event other, signed event → signed other →
      event.id = other.id → event = other) :
    AcceptRule signed (fun _ rows => Traced signed rows) Floored where
  table := traced_rule signed
  keeps event _ :=
    { tick := fun h hle => ⟨h.1, h.2.tick hle⟩
      forget := fun h hkept =>
        ⟨(traced_rule signed).forget h.1 hkept, h.2.forget h.1 hkept⟩
      reset := fun now _ _ _ _ _ _ hseen h hadmitted hbody hnewer =>
        ⟨(traced_rule signed).reset now hseen.1 h.1 hadmitted hbody hnewer,
          hseen.2.reset h.2 hnewer⟩
      grant := fun now _ _ _ _ _ _ _ hseen h hadmitted hbody hfits =>
        ⟨(traced_rule signed).grant now hseen.1 h.1 hadmitted hbody hfits, by
          intro room server hreset
          rw [floors_write_grantPlan]
          exact h.2 room server hreset⟩ }
  lapse now hfloored := hfloored.lapse now
  hold := by
    intro now rows event htraced hallowed hholds room server hbody
    simp only [GroupRows.Holds, hbody] at hholds
    obtain ⟨floor, hfloor, hid⟩ := hholds
    obtain ⟨_, origin, hsigned, hcreated, horigin⟩ := htraced.floors _ floor hfloor
    have hsame := hids origin event hsigned hallowed (horigin.symm.trans hid)
    exact .inr ⟨floor, hfloor, by rw [hcreated, hsame]⟩
  accept := by
    intro earlier now event plan seen rows enrolled authority hdecides hwrites room server hbody
    cases hdecides with
    | held => cases hwrites
    | reset target _ htarget =>
      rw [hbody, Body.reset.injEq] at htarget
      obtain ⟨rfl, _⟩ := htarget
      exact .inr ⟨event.floor, AList.lookup_insert _, le_refl _⟩
    | grant terms hgrant =>
      rw [hbody] at hgrant
      cases hgrant

/-- Once a reset is accepted, no grant of its room that is not newer is active
again: not in the snapshot, not in the database, not after the floor itself was
pruned. -/
theorem reset_is_final (hids : ∀ event other, signed event → signed other →
      event.id = other.id → event = other)
    {clock : ℕ} {settings : Settings Key} {devices : Devices Key} {state later : State Key}
    (hreach : Reaches step (Allowing signed) (State.initial clock settings devices) state)
    {room server : Key} (hreset : event.body = .reset room server)
    (haccepted : HasAccepted state event) (hlater : Reaches step (Allowing signed) state later)
    {table : GroupRows Key} (htable : table = later.shared.snapshot ∨ table = later.shared.db)
    {rowId : Key × Key} {row : GroupGrantRow Key} (hrow : table.grants.lookup rowId = some row)
    (hgroup : row.group = (event.keeper, room)) (hcreated : row.createdAt ≤ event.createdAt)
    (enrolled : Key → Bool) : table.isActive enrolled later.shared.clock row = false := by
  obtain ⟨_, htraced, hfloored⟩ := (floored_rule hids).reaches
    (fun _ => traced_empty) hreach haccepted hlater
  have hboth : Traced signed table ∧ Floored event later.shared.clock table := by
    rcases htable with rfl | rfl
    · exact ⟨htraced.snapshot, hfloored.snapshot⟩
    · exact ⟨htraced.db, hfloored.db⟩
  by_contra hactive
  rw [Bool.not_eq_false, GroupRows.isActive_iff] at hactive
  obtain ⟨_, hrunning, hcovered, _⟩ := hactive
  have hlife := hboth.1.lifetime hrow
  rcases hboth.2 room server hreset with hlapsed | ⟨floor, hfloor, hle⟩
  · rw [floorRetention] at hlapsed
    omega
  · have hcover : table.covered row = true :=
      GroupRows.covered_iff.mpr ⟨floor, hgroup ▸ hfloor, hcreated.trans hle⟩
    rw [hcover] at hcovered
    cases hcovered

def oldGrant : GroupEvent ℕ where
  id := 11
  keeper := 1
  createdAt := 100
  expiration := 1000
  body := .grant smallTerms

def laterReset : GroupEvent ℕ where
  id := 12
  keeper := 1
  createdAt := 120
  expiration := 1000
  body := .reset 2 9

/-- A grant is still in the tables after a reset, and no longer active. -/
theorem reset_is_final_over_a_grant : ∃ (state : State ℕ) (row : GroupGrantRow ℕ),
      Reaches step (Allowing (· ∈ [oldGrant, laterReset]))
        (State.initial 100 smallNode noDevices) state ∧
      state.shared.snapshot.grants.lookup (1, 5) = some row ∧
      state.shared.snapshot.isActive (fun _ => true) state.shared.clock row = false := by
  have hrun : (checkedRun step (allowingOf [oldGrant, laterReset])
      (State.initial 100 smallNode noDevices)
      (postThrough oldGrant 0 ++ .tick 20 :: postThrough laterReset 1)).any
        (fun state =>
          (state.requests 1).any (Request.accepts laterReset) &&
            decide (state.shared.snapshot.grants.lookup (1, 5) =
              some (grantRow none oldGrant smallTerms))) = true := by
    decide
  obtain ⟨state, hreach, htest⟩ := exists_reaches_smallNode hrun
  simp only [Bool.and_eq_true, decide_eq_true_eq] at htest
  have hids : ∀ event ∈ [oldGrant, laterReset],
      ∀ other ∈ [oldGrant, laterReset], event.id = other.id → event = other := by decide
  exact ⟨state, _, hreach, htest.2,
    reset_is_final (fun event other hevent => hids event hevent other) hreach
      (show laterReset.body = .reset 2 9 from rfl)
      (hasAccepted_of_accepts htest.1) .refl (.inl rfl) htest.2 rfl
      (by decide) _⟩

/-! ## Revocations -/

/-- An inactive row of the id, until the revocation itself has expired. -/
def Ended (event : GroupEvent Key) (now : ℕ) (rows : GroupRows Key) : Prop :=
  ∀ terms, event.body = .grant terms → terms.revoked = true → event.expiration < now ∨
      ∃ row, rows.grants.lookup (event.keeper, terms.grantId) = some row ∧
        row.active = false ∧ event.expiration ≤ row.retainUntil

theorem Ended.tick (hended : Ended event now rows) (hle : now ≤ later) :
    Ended event later rows := by
  intro terms hbody hrevoked
  exact (hended terms hbody hrevoked).imp_left fun hlapsed => by omega

theorem Ended.forget (hended : Ended event now full)
    (hkept : Kept now part full) : Ended event now part := by
  intro terms hbody hrevoked
  rcases hended terms hbody hrevoked with hlapsed | ⟨row, hrow, hinactive, hle⟩
  · exact .inl hlapsed
  · rcases hkept.grants (event.keeper, terms.grantId) with hsame | ⟨_, hlost⟩
    · exact .inr ⟨row, hsame ▸ hrow, hinactive, hle⟩
    · have hlapsed := hlost row hrow
      exact .inl (by omega)

theorem Ended.lapse (hended : Ended event later rows) (now : ℕ) :
    Ended event now rows ∨ ∀ other, Ended event later other := by
  by_cases hlapsed : event.expiration < later
  · exact .inr fun _ _ _ _ => .inl hlapsed
  · exact .inl fun terms hbody hrevoked =>
      .inr ((hended terms hbody hrevoked).resolve_left hlapsed)

/-- A later event of the id is a revocation too, and keeps the row as long. -/
theorem Ended.grant {seen : GroupRows Key} (hseen : Ended event now seen)
    (hended : Ended event now rows) {terms : Terms Key}
    {enrolled authority : Key → Bool} {earlier : ℕ}
    (hfits : Fits enrolled authority seen newer terms earlier) :
    Ended event now (rows.write (grantPlan seen newer terms)) := by
  intro target hbody hrevoked
  obtain ⟨room, device, server, hlookup⟩ := lookup_grants_write_any rows seen newer terms
    (event.keeper, target.grantId)
  rw [hlookup]
  split_ifs with hid
  · refine (hseen target hbody hrevoked).imp_right ?_
    rintro ⟨row, hrow, hinactive, hle⟩
    rw [hid] at hrow
    have hfinal := hfits.final row hrow hinactive
    refine ⟨_, rfl, by simp [grantRow, hfinal], hle.trans ?_⟩
    rw [hrow]
    exact le_max_left _ _
  · exact hended target hbody hrevoked

theorem ended_rule (hids : ∀ event other, signed event → signed other →
      event.id = other.id → event = other) :
    AcceptRule signed (fun _ rows => Traced signed rows) Ended where
  table := traced_rule signed
  keeps event _ :=
    { tick := fun h hle => ⟨h.1, h.2.tick hle⟩
      forget := fun h hkept =>
        ⟨(traced_rule signed).forget h.1 hkept, h.2.forget hkept⟩
      reset := fun now _ _ _ _ _ _ hseen h hadmitted hbody hnewer =>
        ⟨(traced_rule signed).reset now hseen.1 h.1 hadmitted hbody hnewer, h.2⟩
      grant := fun now _ _ _ _ _ _ _ hseen h hadmitted hbody hfits =>
        ⟨(traced_rule signed).grant now hseen.1 h.1 hadmitted hbody hfits,
          hseen.2.grant h.2 hfits⟩ }
  lapse now hended := hended.lapse now
  hold := by
    intro now rows event htraced hallowed hholds terms hbody hrevoked
    simp only [GroupRows.Holds, hbody] at hholds
    obtain ⟨row, hrow, hid⟩ := hholds
    obtain ⟨_, hretain, origin, original, hsigned, _, hfrom⟩ := htraced.grants _ row hrow
    have hsame := hids origin event hsigned hallowed (hfrom.eventId.symm.trans hid)
    subst hsame
    have hterms := hfrom.body
    rw [hbody, Body.grant.injEq] at hterms
    subst hterms
    refine .inr ⟨row, hrow, by simp [hfrom.active, hrevoked], ?_⟩
    rw [← hfrom.expiration]
    exact hretain
  accept := by
    intro earlier now event plan seen rows enrolled authority hdecides hwrites terms hbody hrevoked
    cases hdecides with
    | held => cases hwrites
    | reset room server hreset =>
      rw [hbody] at hreset
      cases hreset
    | grant newer hnewer hfits =>
      rw [hbody, Body.grant.injEq] at hnewer
      subst hnewer
      obtain ⟨room, device, server, hlookup⟩ := lookup_grants_write_any rows seen event terms
        (event.keeper, terms.grantId)
      rw [hlookup, if_pos rfl]
      exact .inr ⟨_, rfl, by simp [grantRow, hrevoked], le_retainUntil_grantRow _ event terms⟩

/-- Where keepers give a revocation an expiration no earlier than that of any
other event of the id, an accepted revocation is the end of the id: no event of
it is ever again the basis of an active row, in the snapshot or the database. -/
theorem revocation_is_final (hids : ∀ event other, signed event → signed other →
      event.id = other.id → event = other)
    (hkeepers : ∀ event other terms otherTerms, signed event → signed other →
      event.body = .grant terms → terms.revoked = true →
      other.body = .grant otherTerms → other.keeper = event.keeper →
      otherTerms.grantId = terms.grantId → other.expiration ≤ event.expiration)
    {clock : ℕ} {settings : Settings Key} {devices : Devices Key} {state later : State Key}
    (hreach : Reaches step (Allowing signed) (State.initial clock settings devices) state)
    {terms : Terms Key} (hbody : event.body = .grant terms)
    (hrevoked : terms.revoked = true) (haccepted : HasAccepted state event)
    (hlater : Reaches step (Allowing signed) state later) {table : GroupRows Key}
    (htable : table = later.shared.snapshot ∨ table = later.shared.db)
    {rowId : Key × Key} {row : GroupGrantRow Key} (hrow : table.grants.lookup rowId = some row)
    (hkeeper : row.keeper = event.keeper) (hgrantId : row.grantId = terms.grantId)
    (enrolled : Key → Bool) : table.isActive enrolled later.shared.clock row = false := by
  obtain ⟨hsigned, htraced, hended⟩ := (ended_rule hids).reaches
    (fun _ => traced_empty) hreach haccepted hlater
  have hboth : Traced signed table ∧ Ended event later.shared.clock table := by
    rcases htable with rfl | rfl
    · exact ⟨htraced.snapshot, hended.snapshot⟩
    · exact ⟨htraced.db, hended.db⟩
  obtain ⟨hid, _, origin, original, horigin, _, hfrom⟩ :=
    hboth.1.grants rowId row hrow
  have hexpires : row.expiration ≤ event.expiration := by
    rw [hfrom.expiration]
    exact hkeepers event origin terms original hsigned horigin hbody
      hrevoked hfrom.body (hfrom.keeper.symm.trans hkeeper)
      (hfrom.grantId.symm.trans hgrantId)
  by_contra hactive
  rw [Bool.not_eq_false, GroupRows.isActive_iff] at hactive
  obtain ⟨hon, hrunning, _⟩ := hactive
  rcases hboth.2 terms hbody hrevoked with hlapsed | ⟨held, hheld, hoff, _⟩
  · omega
  · rw [hid, hkeeper, hgrantId, hheld, Option.some.injEq] at hrow
    rw [← hrow, hoff] at hon
    cases hon

def laterRevocation : GroupEvent ℕ where
  id := 13
  keeper := 1
  createdAt := 120
  expiration := 1000
  body := .grant { smallTerms with revoked := true }

/-- A revocation that came before its grant refuses the grant. -/
theorem revocation_is_final_before_its_grant : ∃ (state : State ℕ) (row : GroupGrantRow ℕ),
      Reaches step (Allowing (· ∈ [oldGrant, laterRevocation]))
        (State.initial 100 smallNode noDevices) state ∧
      state.shared.snapshot.grants.lookup (1, 5) = some row ∧
      state.shared.snapshot.isActive (fun _ => true) state.shared.clock row = false := by
  have hrun : (checkedRun step (allowingOf [oldGrant, laterRevocation])
      (State.initial 100 smallNode noDevices)
      (postThrough laterRevocation 0 ++ [.post oldGrant, .advance 1 noDevices .ok,
          .advance 1 noDevices .ok])).any
        (fun state =>
          (state.requests 0).any (Request.accepts laterRevocation) &&
            decide (state.shared.snapshot.grants.lookup (1, 5) = some (grantRow none laterRevocation
                { smallTerms with revoked := true }))) = true := by
    decide
  obtain ⟨state, hreach, htest⟩ := exists_reaches_smallNode hrun
  simp only [Bool.and_eq_true, decide_eq_true_eq] at htest
  have hids : ∀ event ∈ [oldGrant, laterRevocation],
      ∀ other ∈ [oldGrant, laterRevocation], event.id = other.id → event = other := by decide
  have hlast : ∀ event ∈ [oldGrant, laterRevocation], ∀ other ∈ [oldGrant, laterRevocation],
        other.expiration ≤ event.expiration := by decide
  exact ⟨state, _, hreach, htest.2,
    revocation_is_final (fun event other hevent => hids event hevent other)
      (fun event other _ _ hevent hother _ _ _ _ _ =>
        hlast event hevent other hother)
      hreach (show laterRevocation.body = .grant { smallTerms with revoked := true } from rfl) rfl
      (hasAccepted_of_accepts htest.1) .refl (.inl rfl) htest.2 rfl rfl _⟩

end GroupGrants
end Wildbloom
