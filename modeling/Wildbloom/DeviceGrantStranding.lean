import Wildbloom.DeviceGrantShelter

/-!
# Runs that strand no claim

Each step of a grant, a revocation, a sweep and a write keeps the invariant
of `DeviceGrantShelter`, and with it every friend claim stays the claim of a
member.
-/

namespace Wildbloom
namespace DeviceGrants

open Runs

variable {Key Hash : Type} [DecidableEq Key] {config : Config Key} {group : Key → Bool}
  {state : State Key Hash} {id : ℕ} {shared before after : Shared Key Hash} {outcome : Outcome}
  {claim : Key × Hash}

/-! ## Grants and revocations -/

/-- A key that a grant finds no member holds no claim. -/
theorem Sheltering.awaited {work next : Grant Key} (hgood : Sheltering config state)
    (hrequest : state.requests id = some (.grant work))
    (hmove : Grant.Move config group state.shared work shared next)
    (hclaims : shared.claims = state.shared.claims) :
    (Request.grant next : Request Key Hash).Sheltered config shared := by
  rintro key ⟨pending, hpending, hnone⟩ claim hclaim rfl
  rw [hclaims] at hclaim
  cases hmove with
  | quiet _ pc _ _ _ _ hbefore =>
    exact hgood.sheltered id _ hrequest claim.1 ⟨pending, hbefore _ hpending, hnone⟩ claim
      hclaim rfl
  | commit =>
    cases hpending
    have habsent : state.shared.rows.members.lookup claim.1 = none := by
      simp only [Rows.capture, List.mem_cons, Prod.mk.injEq, List.not_mem_nil, or_false] at hnone
      rcases hnone with ⟨hkey, hfound⟩ | ⟨hkey, hfound⟩ <;> rw [hkey, ← hfound]
    exact AList.lookup_eq_none.mp habsent (hgood.claims claim hclaim)
  | refuse | revert => cases hpending

theorem Sheltering.grant {work next : Grant Key} (hgood : Sheltering config state)
    (hflying : Flying config state) (hflies : Flying config (state.put id (shared, .grant next)))
    (hsync : Synced state) (hreads : outcome.reads = true)
    (hrequest : state.requests id = some (.grant work))
    (hguard : ∀ pending, work.pc = .revert pending →
      state.shared.rows.grants.lookup work.event.device = some work.event.row →
        ∀ key, (key, none) ∈ pending.members → state.shared.inFlight key = 0)
    (hwork : work.step config group state.shared id outcome = some (shared, next)) :
    Sheltering config (state.put id (shared, .grant next)) := by
  have hclaims := (Grant.step_inFlight hwork).2
  have hmove := Grant.move_of_step hsync hreads hwork
  refine hgood.put hflies ?_ (fun claim hclaim => Or.inl (hclaims ▸ hclaim))
    (hgood.awaited hrequest hmove hclaims)
  intro key hkey
  cases hmove with
  | quiet _ _ _ hrows =>
    rw [hrows]
    exact Or.inl hkey
  | refuse => exact Or.inl hkey
  | commit _ _ _ _ _ _ hrows =>
    rw [hrows]
    exact Or.inl (Rows.mem_commitGrant hkey _)
  | revert _ pending hpc _ hcurrent _ _ hrows =>
    rw [hrows]
    rcases Rows.mem_revert hkey with hkept | hnone
    · exact Or.inl hkept
    · exact Or.inr ⟨hflying.closed_of_idle (hguard pending hpc hcurrent key hnone),
        hgood.sheltered id _ hrequest key ⟨pending, by rw [hpc]; rfl, hnone⟩⟩

theorem Sheltering.revoke {work next : Revoke Key} (hgood : Sheltering config state)
    (hflies : Flying config (state.put id (shared, .revoke next)))
    (hsync : Synced state) (hreads : outcome.reads = true)
    (hwork : work.step config state.shared outcome = some (shared, next)) :
    Sheltering config (state.put id (shared, .revoke next)) := by
  have hclaims := (Revoke.step_inFlight hwork).2
  refine hgood.put hflies ?_ (fun claim hclaim => Or.inl (hclaims ▸ hclaim)) trivial
  intro key hkey
  cases Revoke.move_of_step hsync hreads hwork with
  | quiet => exact Or.inl hkey
  | commit _ _ _ _ _ _ hrows =>
    rw [hrows]
    exact Or.inl (Rows.mem_commitRevoke hkey _ _ _)

/-! ## Writes -/

theorem Write.claims_of_step {work next : Write Key Hash}
    (hwork : work.step config before outcome = some (after, next)) (hclaim : claim ∈ after.claims) :
    claim ∈ before.claims ∨ claim.1 = work.key ∧ outcome = .ok ∧ work.key ∈ before.core ∧
      ∃ counted, work.pc = .land counted := by
  cases hpc : work.pc with
  | land counted =>
    simp only [Write.step, hpc] at hwork
    cases hwork
    split at hclaim
    next hlisted =>
      rcases List.mem_cons.mp hclaim with hnew | hold
      · exact Or.inr ⟨congrArg Prod.fst hnew, hlisted.1, hlisted.2, counted, rfl⟩
      · exact Or.inl hold
    · exact Or.inl hclaim
  | _ =>
    simp only [Write.step, hpc] at hwork
    cases hwork
    try exact Or.inl hclaim

theorem Sheltering.write {work next : Write Key Hash} (hgood : Sheltering config state)
    (htrust : Trusting config state) (hflies : Flying config (state.put id (shared, .write next)))
    (hrequest : state.requests id = some (.write work))
    (hguard : ∀ counted, work.pc = .land counted → outcome = .ok →
      work.key ∈ state.shared.core → counted = true ∧ state.Settled work.key)
    (hwork : work.step config state.shared outcome = some (shared, next)) :
    Sheltering config (state.put id (shared, .write next)) := by
  have hrows := (Write.step_rows hwork).1
  refine hgood.put hflies ?_ ?_ ?_
  · intro key hkey
    rw [hrows]
    exact Or.inl hkey
  · intro claim hclaim
    rcases Write.claims_of_step hwork hclaim with hold | ⟨hkey, hok, hlisted, counted, hpc⟩
    · exact Or.inl hold
    · obtain ⟨rfl, hsettled⟩ := hguard counted hpc hok hlisted
      right
      rw [hkey, hrows]
      refine ⟨hgood.sheltered id _ hrequest hpc, ?_⟩
      intro other found _ hfound
      refine ⟨fun hcloses => ?_, hsettled other found hfound⟩
      exact hgood.closing other found hfound work.key hcloses id _ hrequest (if_pos hpc)
  · intro hland
    obtain ⟨pc, rfl, _, _, _, hactive⟩ := Write.step_pc hwork
    obtain ⟨device, row, hlookup, hnames, hrow⟩ := Rows.keyActive_iff.mp (hactive hland)
    rw [hrows]
    exact ((htrust.trusted.trusts device row hlookup hrow).hasMember hnames).mem

/-! ## Sweeps -/

variable {work next : Sweep Key Hash} {pc : SweepPc Key Hash} {key : Key} {page : List (Key × Hash)}
  {ended : List (Key × Member Key)} {member : Member Key}

omit [DecidableEq Key] in
theorem Request.closes_sweep (hlocked : work.pc.isLocked = true) :
    (Request.sweep work).closes = work.closed :=
  if_pos hlocked

theorem Sweep.Clears.goto (hclears : work.Clears config before)
    (hclaims : after.claims = before.claims) (hcurrent : pc.current = none)
    (hrestoring : ∀ key todo due, pc = .restoring key todo due → key ∈ work.snapshot.members ∧
        work.snapshot.keyActive config work.now key = true) :
    (work.goto pc).Clears config after := by
  constructor
  · exact hrestoring
  · intro entry hentry claim hclaim
    rw [hclaims] at hclaim
    exact hclears.transferred entry hentry claim hclaim
  · intro key hkey
    simp only [Sweep.goto, hcurrent] at hkey
    cases hkey
  · intro key member page full ended hpc
    simp only [Sweep.goto] at hpc
    rw [hpc] at hcurrent
    cases hcurrent
  · intro key member page ended hpc
    simp only [Sweep.goto] at hpc
    rw [hpc] at hcurrent
    cases hcurrent

theorem Flying.closes_of_held (hflying : Flying config state)
    (hheld : state.shared.updates = some id) {other : ℕ}
    {found : Request Key Hash} (hother : other ≠ id)
    (hfound : state.requests other = some found) (key : Key) : key ∉ found.closes := by
  intro hkey
  obtain ⟨work, rfl, hlocked, _⟩ := Request.sweep_of_closes hkey
  have hupdates := (hflying.holds other _ hfound work rfl hlocked).updates
  rw [hheld, Option.some.injEq] at hupdates
  exact hother hupdates.symm

/-- A claim on the page is gone, and the sweep goes on to the next. -/
theorem Sweep.Clears.dropped {full : Bool} (hclears : work.Clears config before)
    (hpc : work.pc = .moving key member (claim :: page) full ended)
    (hclaims : ∀ other ∈ after.claims, other ∈ before.claims) (hgone : claim ∉ after.claims) :
    Sweep.Clears config after
      { work with
        attempted := claim :: work.attempted
        pc := .moving key member page full ended } := by
  have hkeys := hclears.keys key member _ full ended hpc
  have hcurrent : work.pc.current = some key := by rw [hpc]; rfl
  constructor
  · intro other todo due hother
    cases hother
  · intro entry hentry other hother
    exact hclears.transferred entry hentry other (hclaims other hother)
  · intro other hother
    cases hother
    intro found hfound
    rcases List.mem_cons.mp hfound with hfound | hfound
    · rw [hfound]
      exact ⟨hkeys claim List.mem_cons_self, hgone⟩
    · obtain ⟨hkey, hnot⟩ := hclears.attempted key hcurrent found hfound
      exact ⟨hkey, fun hstill => hnot (hclaims found hstill)⟩
  · intro other member page full ended hother
    cases hother
    intro found hfound
    exact hkeys found (List.mem_cons_of_mem _ hfound)
  · intro other member page ended hother found hfound hkey
    cases hother
    have hon := hclears.page key _ _ _ hpc found (hclaims found hfound) hkey
    rcases List.mem_cons.mp hon with hsame | hon
    · rw [hsame] at hfound
      exact absurd hfound hgone
    · exact hon

/-- The keys whose claims are handed back are active, and so not closed. -/
theorem Sweep.Clears.restored (hash : Hash) {todo : List (Moved Key Hash)} {due : List Key}
    (hclears : work.Clears config before) (hholds : work.Holds config before id)
    (hpc : work.pc = .restoring key todo due)
    (hclaims : ∀ claim ∈ after.claims, claim = (key, hash) ∨ claim ∈ before.claims)
    (hcurrent : pc.current = none)
    (hsame : ∀ found todo due, pc = .restoring found todo due → found = key) :
    (work.goto pc).Clears config after := by
  obtain ⟨hmember, hactive⟩ := hclears.restoring key todo due hpc
  have hgone : (work.goto pc).Clears config before := by
    apply hclears.goto rfl hcurrent
    intro found todo due hfound
    rw [hsame found todo due hfound]
    exact ⟨hmember, hactive⟩
  apply hgone.change
  intro claim hclaim
  rcases hclaims claim hclaim with rfl | hold
  · right
    intro hclosed
    rcases List.mem_append.mp hclosed with hclosed | hclosed
    · obtain ⟨entry, hentry, hfst⟩ := List.mem_map.mp hclosed
      have hleft := hholds.leaving entry (List.mem_append_left _ hentry)
      rw [hfst, hactive] at hleft
      cases hleft
    · simp [Sweep.goto, hcurrent] at hclosed
  · exact Or.inl hold

/-- The page of a sweep holds every claim of its key that is not tried, unless
it is full. -/
theorem Sweep.Clears.listed [DecidableEq Hash] (hclears : work.Clears config before)
    (hpc : work.pc = .listing key member ended)
    (hpage : page = (before.claims.filter fun claim =>
      claim.1 = key ∧ claim ∉ work.attempted).take pageSize) :
    (work.goto (.moving key member page (decide (page.length = pageSize)) ended)).Clears
      config before := by
  have hcurrent : work.pc.current = some key := by rw [hpc]; rfl
  refine ⟨by simp [Sweep.goto], hclears.transferred, ?_, ?_, ?_⟩
  · intro found hfound
    cases hfound
    exact hclears.attempted key hcurrent
  · intro found member page full ended hmoving
    cases hmoving
    intro claim hclaim
    rw [hpage] at hclaim
    exact (of_decide_eq_true (List.mem_filter.mp (List.mem_of_mem_take hclaim)).2).1
  · intro found member page' ended hmoving claim hclaim hkey
    simp only [Sweep.goto, SweepPc.moving.injEq, decide_eq_false_iff_not] at hmoving
    obtain ⟨rfl, _, rfl, hshort, _⟩ := hmoving
    have hnew : claim ∉ work.attempted := by
      intro htried
      exact (hclears.attempted key hcurrent claim htried).2 hclaim
    have hmem : claim ∈ before.claims.filter (fun claim =>
        decide (claim.1 = key ∧ claim ∉ work.attempted)) :=
      List.mem_filter.mpr ⟨hclaim, decide_eq_true ⟨hkey, hnew⟩⟩
    rw [hpage, List.length_take] at hshort
    rw [hpage, List.take_of_length_le (by omega)]
    exact hmem

variable [DecidableEq Hash] {action : Action Key Hash}

theorem Sweep.Clears.step (hclears : work.Clears config before)
    (hholds : work.Holds config before id) (hbefore : work.pc.isLocked = true)
    (hguard : ∀ key member claim page full ended,
      work.pc = .moving key member (claim :: page) full ended →
        outcome = .refused → claim ∉ before.claims)
    (hwork : work.step config before id outcome = some (after, next))
    (hlocked : next.pc.isLocked = true) : next.Clears config after := by
  obtain ⟨now, snapshot, attempted, transferred, pc⟩ := work
  cases pc with
  | restore due =>
    cases due with
    | nil =>
      cases hwork
      exact hclears.goto rfl rfl (by simp)
    | cons key due =>
      simp only [Sweep.step] at hwork
      split at hwork
      · cases hwork
        exact hclears.goto rfl rfl (by simp)
      next member hmember =>
        split at hwork
        next hactive =>
          cases hwork
          refine hclears.goto rfl rfl ?_
          intro found todo due hrestoring
          cases hrestoring
          refine ⟨?_, hactive⟩
          rw [← AList.lookup_isSome, hmember]
          rfl
        · cases hwork
          exact hclears.goto rfl rfl (by simp)
  | restoring key todo due =>
    cases todo with
    | nil =>
      cases hwork
      exact hclears.goto rfl rfl (by simp)
    | cons moved todo =>
      have hsame : ∀ found rest more,
          (SweepPc.restoring key todo due : SweepPc Key Hash) = .restoring found rest more →
            found = key := by
        rintro _ _ _ ⟨⟩
        rfl
      cases outcome with
      | ok =>
        cases hwork
        exact hclears.restored moved.hash hholds rfl (fun _ => List.mem_cons.mp) rfl hsame
      | refused | overLimit =>
        cases hwork
        exact hclears.restored moved.hash hholds rfl (fun _ => Or.inr) rfl hsame
      | failed | unread | partly =>
        cases hwork
        exact hclears.goto rfl rfl (by simp)
      | failedAfter =>
        cases hwork
        exact hclears.restored moved.hash hholds rfl (fun _ => List.mem_cons.mp) rfl (by simp)
  | move ended =>
    cases ended with
    | nil =>
      cases hwork
      exact hclears.goto rfl rfl (by simp)
    | cons first ended =>
      simp only [Sweep.step] at hwork
      split at hwork
      · cases hwork
        exact ⟨by simp, hclears.transferred, by simp, by simp, by simp⟩
      · cases hwork
        exact hclears.goto rfl rfl (by simp)
  | listing key member ended =>
    cases hwork
    exact hclears.listed rfl rfl
  | moving key member page full ended =>
    cases page with
    | nil =>
      simp only [Sweep.step] at hwork
      split at hwork
      · cases hwork
        refine ⟨by simp [Sweep.goto], hclears.transferred, ?_, by simp [Sweep.goto],
          by simp [Sweep.goto]⟩
        intro other hother
        cases hother
        exact hclears.attempted key rfl
      next hfull =>
        cases hwork
        rw [Bool.not_eq_true] at hfull
        subst hfull
        refine ⟨by simp, ?_, by simp [SweepPc.current], by simp, by simp⟩
        intro entry hentry claim hclaim heq
        rcases List.mem_append.mp hentry with hentry | hentry
        · exact hclears.transferred entry hentry claim hclaim heq
        · rw [List.mem_singleton] at hentry
          rw [hentry] at heq
          have hon := hclears.page key member [] ended rfl claim hclaim heq
          cases hon
    | cons claim page =>
      have hguard := hguard key member claim page full ended rfl
      cases outcome with
      | ok =>
        cases hwork
        exact hclears.dropped rfl (fun other hother => (List.mem_filter.mp hother).1) (by simp)
      | refused =>
        cases hwork
        exact hclears.dropped rfl (fun _ hother => hother) (hguard rfl)
      | _ =>
        cases hwork
        exact hclears.goto rfl rfl (by simp)
  | commit =>
    simp only [Sweep.step] at hwork
    split_ifs at hwork <;>
    · cases hwork
      cases hlocked
  | _ => cases hbefore

theorem Sweep.clears_of_lock (hbefore : work.pc.isLocked = false)
    (hwork : work.step config before id outcome = some (after, next))
    (hlocked : next.pc.isLocked = true) : next.Clears config after := by
  obtain ⟨now, snapshot, attempted, transferred, pc⟩ := work
  cases pc with
  | lock =>
    simp only [Sweep.step] at hwork
    split at hwork
    · cases hwork
    · cases hwork
      exact ⟨by simp, by simp, by simp [SweepPc.current], by simp, by simp⟩
  | waitPush | pushing | putBack | done =>
    simp only [Sweep.step] at hwork
    repeat' split at hwork
    all_goals cases hwork <;> cases hlocked
  | _ => cases hbefore

theorem Sweep.claims_of_step (hwork : work.step config before id outcome = some (after, next))
    (hclaim : claim ∈ after.claims) :
    claim ∈ before.claims ∨ ∃ moved todo due, work.pc = .restoring claim.1 (moved :: todo) due ∧
      (outcome = .ok ∨ outcome = .failedAfter) := by
  simp only [Sweep.step] at hwork
  repeat' split at hwork
  all_goals cases hwork <;>
    first
    | exact Or.inl hclaim
    | exact Or.inl (List.mem_filter.mp hclaim).1
    | rcases List.mem_cons.mp hclaim with rfl | hold
      · exact Or.inr ⟨_, _, _, by assumption, by simp⟩
      · exact Or.inl hold

omit [DecidableEq Hash] in
theorem Sheltering.commit_members (hgood : Sheltering config state)
    (hrequest : state.requests id = some (.sweep work))
    (hlocked : work.pc.isLocked = true) : ∀ key ∈ state.shared.rows.members,
      key ∈ ((work.adjusted config).foldl
        (fun rows entry => rows.writeMember entry.1 entry.2)
        (work.transferred.foldl (fun rows entry => rows.deleteMember entry.1)
          state.shared.rows)).members ∨
        state.Closed key ∧ ∀ claim ∈ state.shared.claims, claim.1 ≠ key := by
  intro key hkey
  have hclears := hgood.sheltered id _ hrequest hlocked
  rcases Rows.mem_foldl_deleteMember work.transferred hkey with
    hkept | ⟨entry, hentry, hfst⟩
  · exact Or.inl (Rows.mem_foldl_writeMember _ hkept)
  · right
    rw [← hfst]
    refine ⟨?_, hclears.transferred entry hentry⟩
    apply hgood.closing id _ hrequest
    rw [Request.closes_sweep hlocked]
    exact Sweep.transferred_mem_closed hentry

theorem Sheltering.sweep (hgood : Sheltering config state) (hflying : Flying config state)
    (hflies : Flying config (state.put id (shared, .sweep next)))
    (hsync : Synced state) (hreads : outcome.reads = true)
    (hrequest : state.requests id = some (.sweep work))
    (hsettled : ∀ key moved todo due, work.pc = .restoring key (moved :: todo) due →
      outcome = .ok ∨ outcome = .failedAfter → state.Settled key)
    (hguard : ∀ key member claim page full ended,
      work.pc = .moving key member (claim :: page) full ended →
        outcome = .refused → claim ∉ state.shared.claims)
    (hwork : work.step config state.shared id outcome = some (shared, next)) :
    Sheltering config (state.put id (shared, .sweep next)) := by
  have hholds := hflying.holds id _ hrequest work rfl
  have hclears := hgood.sheltered id _ hrequest
  refine hgood.put hflies ?_ ?_ ?_
  · intro key hkey
    rcases Sweep.rows_of_step hwork hsync hreads with hrows | ⟨hpc, hrows⟩ | ⟨_, hrows⟩
    · rw [hrows]
      exact Or.inl hkey
    · rw [hrows]
      exact hgood.commit_members hrequest (by rw [hpc]; rfl) key hkey
    · rw [hrows]
      exact Or.inl (Rows.mem_foldl_putBack _ _ hkey)
  · intro claim hclaim
    rcases Sweep.claims_of_step hwork hclaim with hold | ⟨moved, todo, due, hpc, hmade⟩
    · exact Or.inl hold
    · right
      have hlocked : work.pc.isLocked = true := by rw [hpc]; rfl
      have hmember := ((hclears hlocked).restoring _ _ _ hpc).1
      rw [(hholds hlocked).snapshot] at hmember
      refine ⟨?_, fun other found hother hfound =>
        ⟨hflying.closes_of_held (hholds hlocked).updates hother hfound claim.1,
          hsettled _ _ _ _ hpc hmade other found hfound⟩⟩
      rcases Sweep.rows_of_step hwork hsync hreads with hrows | ⟨hcommit, _⟩ | ⟨hfree, _⟩
      · rw [hrows]
        exact hmember
      · rw [hpc] at hcommit
        cases hcommit
      · rw [(hholds hlocked).updates] at hfree
        cases hfree
  · intro hlocked
    cases hbefore : work.pc.isLocked with
    | false => exact Sweep.clears_of_lock hbefore hwork hlocked
    | true =>
      exact (hclears hbefore).step (hholds hbefore) hbefore hguard hwork hlocked

/-! ## Runs -/

theorem Sheltering.step {after : State Key Hash} (hgood : Sheltering config state)
    (hflying : Flying config state) (htrust : Trusting config state) (hsync : Synced state)
    (hguard : ShelteringStep config state action)
    (hstep : DeviceGrants.step config group state action = some after) :
    Sheltering config after := by
  have hflies := (hflying.step hsync hguard.safe.reads hstep).1
  cases action with
  | deleteClaim key hash =>
    cases hstep
    exact hgood.change hflies rfl fun claim hclaim => (List.mem_filter.mp hclaim).1
  | grant event =>
    cases hstep
    apply hgood.start hflies
    rintro key ⟨pending, ⟨⟩, _⟩
  | revoke event =>
    cases hstep
    exact hgood.start hflies trivial
  | sweep =>
    cases hstep
    apply hgood.start hflies
    intro hlocked
    cases hlocked
  | write key hash =>
    cases hstep
    apply hgood.start hflies
    intro hland
    cases hland
  | advance id outcome =>
    obtain ⟨⟨hreads, _⟩, hrevert, hwrite, hrestore, hrefused⟩ := hguard
    simp only [DeviceGrants.step, Option.bind_eq_some_iff, Option.map_eq_some_iff] at hstep
    obtain ⟨request, hrequest, result, hresult, rfl⟩ := hstep
    cases request with obtain ⟨next, hnext, rfl⟩ := Option.map_eq_some_iff.mp hresult
    | grant work =>
      exact hgood.grant hflying hflies hsync hreads hrequest
        (fun pending => hrevert work pending hrequest) hnext
    | revoke work =>
      exact hgood.revoke hflies hsync hreads hnext
    | sweep work =>
      exact hgood.sweep hflying hflies hsync hreads hrequest
        (fun key moved todo due => hrestore work key moved todo due hrequest)
        (fun key member claim page full ended =>
          hrefused work key member claim page full ended hrequest) hnext
    | write work =>
      exact hgood.write htrust hflies hrequest
        (fun counted => hwrite work counted hrequest) hnext
  | _ =>
    cases hstep
    exact hgood.change hflies rfl (fun _ hclaim => hclaim)

omit [DecidableEq Hash] in
theorem sheltering_initial {clock : ℕ} {rows : Rows Key} {core : List Key}
    {claims : List (Key × Hash)} {moved : List (Moved Key Hash)}
    (hclaims : ∀ claim ∈ claims, claim.1 ∈ rows.members) :
    Sheltering config (State.initial clock rows core claims moved) := by
  constructor
  · intro key
    rfl
  · exact hclaims
  · intro id request hrequest
    cases hrequest
  · intro id request hrequest
    cases hrequest

/-- In every run whose steps leave no claim behind, every key that holds a
friend claim is a member. -/
theorem friend_claims_belong_to_members
    (config : Config Key) (group : Key → Bool) (clock : ℕ) (rows : Rows Key)
    (core : List Key) (claims : List (Key × Hash))
    (moved : List (Moved Key Hash)) (state : State Key Hash) (hrows : rows.Trusted config clock)
    (hclaims : ∀ claim ∈ claims, claim.1 ∈ rows.members)
    (hreach : Reaches (step config group) (ShelteringStep config)
      (State.initial clock rows core claims moved) state) :
    ∀ claim ∈ state.shared.claims, claim.1 ∈ state.shared.rows.members := by
  have hgood : Synced state ∧ Flying config state ∧ Trusting config state ∧
      Sheltering config state := by
    apply Synced.invariant (fun _ _ hguard => hguard.safe.reads)
      (synced_initial clock rows core claims moved) hreach
    · exact ⟨flying_initial clock rows core claims moved,
        trusting_initial hrows core claims moved, sheltering_initial hclaims⟩
    · rintro before after action hsync ⟨hflying, htrust, hgood⟩ hguard hstep
      exact ⟨(hflying.step hsync hguard.safe.reads hstep).1, htrust.step hsync hguard.safe hstep,
        hgood.step hflying htrust hsync hguard hstep⟩
  exact hgood.2.2.2.claims

def Request.awaitsNone : Request Key Hash → Bool
  | .grant work => work.pc.pending.all fun pending =>
      pending.members.all fun captured => captured.2.isSome
  | _ => true

/-- No request reverts, and writes land when no first grant is under way. -/
def plainCheck (state : State Key Hash) : Action Key Hash → Bool
  | .advance id outcome =>
    decide (outcome = .ok) &&
      match state.requests id with
      | some (.grant { pc := .revert _, .. }) => false
      | some (.sweep { pc := .restoring _ _ _, .. }) => false
      | some (.write { pc := .land counted, .. }) => counted &&
          (List.range state.started).all fun other => (state.requests other).all Request.awaitsNone
      | _ => true
  | _ => true

omit [DecidableEq Key] [DecidableEq Hash] in
theorem State.settled_of_check (hfresh : state.Fresh) (hcheck : (List.range state.started).all
      (fun other => (state.requests other).all Request.awaitsNone) = true) (key : Key) :
    state.Settled key := by
  intro other request hrequest hawaits
  have hnone := List.all_eq_true.mp hcheck other (List.mem_range.mpr (hfresh.lt_started hrequest))
  cases request with
  | grant work =>
    obtain ⟨pending, hpending, hmember⟩ := hawaits
    rw [hrequest, Option.all_some, Request.awaitsNone, hpending, Option.all_some] at hnone
    have hsome := List.all_eq_true.mp hnone _ hmember
    cases hsome
  | _ => cases hawaits

omit [DecidableEq Hash] in
theorem shelteringStep_of_check (hfresh : state.Fresh) (hcheck : plainCheck state action = true) :
    ShelteringStep config state action := by
  cases action with
  | advance id outcome =>
    simp only [plainCheck, Bool.and_eq_true, decide_eq_true_eq] at hcheck
    obtain ⟨rfl, hrequest⟩ := hcheck
    have hrevert : ∀ grant pending, state.requests id = some (.grant grant) →
        grant.pc ≠ .revert pending := by
      intro grant pending hgrant hpc
      obtain ⟨event, pc⟩ := grant
      simp only at hpc
      simp [hgrant, hpc] at hrequest
    refine ⟨⟨rfl, ?_⟩, ?_, ?_, ?_, by simp⟩
    · intro grant pending hgrant hpc
      exact absurd hpc (hrevert grant pending hgrant)
    · intro grant pending hgrant hpc
      exact absurd hpc (hrevert grant pending hgrant)
    · intro write counted hwrite hpc _ _
      obtain ⟨key, hash, pc⟩ := write
      simp only at hpc
      simp only [hwrite, hpc, Bool.and_eq_true] at hrequest
      exact ⟨hrequest.1, State.settled_of_check hfresh hrequest.2 key⟩
    · intro sweep key moved todo due hsweep hpc
      obtain ⟨now, snapshot, attempted, transferred, pc⟩ := sweep
      simp only at hpc
      simp [hsweep, hpc] at hrequest
  | _ => trivial

def oks (id count : ℕ) : List (Action ℕ ℕ) :=
  List.replicate count (.advance id .ok)

/-- Device 10 is granted storage and uploads blob 7. -/
def grantAndWrite : List (Action ℕ ℕ) :=
  .grant (hourGrant 10 1 0) :: oks 0 4 ++ .write 10 7 :: oks 1 5

/-- A granted device uploads a blob. -/
theorem friend_claims_belong_to_members_after_upload : ∃ state : State ℕ ℕ,
      Reaches (step singleOwner fun _ => false) (ShelteringStep singleOwner)
        (State.initial 0 ⟨∅, ∅, ∅⟩ [] [] []) state ∧
      (10, 7) ∈ state.shared.claims ∧
      ∀ claim ∈ state.shared.claims, claim.1 ∈ state.shared.rows.members := by
  have hrun : (checkedRun (step singleOwner fun _ => false) plainCheck
      (State.initial 0 ⟨∅, ∅, ∅⟩ [] [] []) grantAndWrite).any
        (fun state => decide ((10, 7) ∈ state.shared.claims)) = true := by
    decide
  obtain ⟨state, hreach, htest⟩ := exists_reaches_of_checkedRun (fun state => state.Fresh)
    (fun _ _ => shelteringStep_of_check) (fun _ _ _ => fresh_step) (fun _ _ => rfl) hrun
  have hempty : Rows.Trusted (⟨∅, ∅, ∅⟩ : Rows ℕ) singleOwner 0 := by
    constructor <;>
    · intro device row hlookup
      cases hlookup
  have hnone : ∀ claim ∈ ([] : List (ℕ × ℕ)), claim.1 ∈ (⟨∅, ∅, ∅⟩ : Rows ℕ).members := by
    intro claim hclaim
    cases hclaim
  exact ⟨state, hreach, of_decide_eq_true htest,
    friend_claims_belong_to_members singleOwner (fun _ => false) 0 _ [] [] []
      state hempty hnone hreach⟩

/-- The device is revoked and a sweep moves its claim to the owner.  A new
grant commits, a second sweep hands the claim back, and the core refuses the
grant: the revert deletes the member and leaves the claim. -/
theorem revert_strands_restored_claim : ∃ (state : State ℕ ℕ) (claim : ℕ × ℕ),
      Reaches (step singleOwner fun _ => false) everyStep
        (State.initial 0 ⟨∅, ∅, ∅⟩ [] [] []) state ∧
      state.shared.updates = none ∧ claim ∈ state.shared.claims ∧
      claim.1 ∉ state.shared.rows.members := by
  have hrun : (runActions (step singleOwner fun _ => false) (State.initial 0 ⟨∅, ∅, ∅⟩ [] [] [])
      (grantAndWrite ++ .revoke ⟨1, 10, 2, 500, 1⟩ :: oks 2 2 ++ .sweep :: oks 3 15 ++
        .grant (hourGrant 10 3 2) :: oks 4 3 ++ .sweep :: oks 5 9 ++
        [.advance 4 .failed, .advance 4 .ok])).any
        (fun state => decide (state.shared.updates = none ∧ (10, 7) ∈ state.shared.claims ∧
          state.shared.rows.members.lookup 10 = none)) = true := by
    decide
  obtain ⟨state, hreach, htest⟩ := exists_reaches_of_runActions hrun
  obtain ⟨hfree, hclaim, hmember⟩ := of_decide_eq_true htest
  refine ⟨state, (10, 7), hreach, hfree, hclaim, ?_⟩
  rw [← AList.lookup_eq_none]
  exact hmember

end DeviceGrants
end Wildbloom
