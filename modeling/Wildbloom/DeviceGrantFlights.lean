import Wildbloom.DeviceGrantMoves
import Wildbloom.GuardedRuns

/-!
# Sweeps and writes in flight

A write is counted before its key is checked; a sweep reads the rows before it
reads the count.  So once a sweep has found no write of an ended key in flight,
every write of the key that was ever let through is finished, and none is let
through before a grant makes the key active again.

`FlightMove` says what a step of one request does to the lock, the counts, the
writes let through and the keys that sweeps move claims of.
-/

namespace Wildbloom
namespace DeviceGrants

open Runs

variable {Key Hash : Type} [DecidableEq Key]

/-! ## Sweeps under the lock, writes in flight -/

/-- A sweep that holds the lock has the rows of the state, and the keys it
takes out are not active. -/
structure Sweep.Holds (config : Config Key) (shared : Shared Key Hash)
    (id : ℕ) (sweep : Sweep Key Hash) : Prop where
  updates : shared.updates = some id
  snapshot : sweep.snapshot = shared.rows
  now : sweep.now ≤ shared.clock
  leaving : ∀ entry ∈ sweep.leaving, sweep.snapshot.keyActive config sweep.now entry.1 = false

/-- The clock goes on, and the rows of a sweep that holds the lock stay. -/
structure Shared.Guards (id : ℕ) (before after : Shared Key Hash) : Prop where
  clock : before.clock ≤ after.clock
  locked : ∀ other, other ≠ id → before.updates = some other →
    after.updates = some other ∧ after.rows = before.rows

def Request.admits : Request Key Hash → Option Key
  | .write work => if work.pc = .land true then some work.key else none
  | _ => none

def Request.counts (key : Key) : Request Key Hash → ℕ
  | .write work =>
    if work.key = key ∧ (work.pc = .check ∨ work.pc = .land true ∨ work.pc = .finish) then 1
    else 0
  | _ => 0

def Request.closes : Request Key Hash → List Key
  | .sweep work => if work.pc.isLocked then work.closed else []
  | _ => []

def State.Closed (state : State Key Hash) (key : Key) : Prop :=
  ∀ id request, state.requests id = some request → request.admits ≠ some key

variable {config : Config Key} {group : Key → Bool}
  {before after : Shared Key Hash} {id : ℕ} {outcome : Outcome}
  {request : Request Key Hash} {key : Key}

section

omit [DecidableEq Key]

theorem Shared.guards_of_same (hclock : after.clock = before.clock)
    (hupdates : after.updates = before.updates)
    (hrows : after.rows = before.rows) : before.Guards id after where
  clock := le_of_eq hclock.symm
  locked := fun _ _ hother => ⟨hupdates.trans hother, hrows⟩

theorem Shared.guards_of_free (hclock : after.clock = before.clock)
    (hfree : before.updates = none) : before.Guards id after where
  clock := le_of_eq hclock.symm
  locked := fun other _ hother => by
    rw [hfree] at hother
    cases hother

theorem Shared.guards_of_held (hclock : after.clock = before.clock)
    (hheld : before.updates = some id) : before.Guards id after where
  clock := le_of_eq hclock.symm
  locked := fun other hne hother => by
    rw [hheld, Option.some.injEq] at hother
    exact absurd hother.symm hne

theorem Request.closes_of_admits (hadmits : request.admits = some key) : request.closes = [] := by
  cases request with
  | write work => rfl
  | _ => cases hadmits

end

theorem Request.counts_of_admits (hadmits : request.admits = some key) :
    request.counts key = 1 := by
  cases request with
  | write work =>
    simp only [Request.admits, Option.ite_none_right_eq_some, Option.some.injEq] at hadmits
    simp [Request.counts, hadmits]
  | _ => cases hadmits

omit [DecidableEq Key] in
theorem Request.sweep_of_closes (hkey : key ∈ request.closes) :
    ∃ work, request = .sweep work ∧ work.pc.isLocked = true ∧ key ∈ work.closed := by
  cases request with
  | sweep work =>
    simp only [Request.closes] at hkey
    split at hkey
    next hlocked =>
      exact ⟨work, rfl, hlocked, hkey⟩
    · cases hkey
  | _ => cases hkey

variable {work : Sweep Key Hash}

theorem Sweep.Holds.inactive_of_closed (hholds : work.Holds config before id)
    (hkey : key ∈ work.closed) : before.rows.keyActive config before.clock key = false := by
  have hleaving : ∃ member, (key, member) ∈ work.leaving := by
    rcases List.mem_append.mp hkey with hkey | hkey
    · obtain ⟨entry, hentry, hfst⟩ := List.mem_map.mp hkey
      exact ⟨entry.2, List.mem_append_left _ (hfst ▸ hentry)⟩
    · rw [Option.mem_toList] at hkey
      cases hpc : work.pc with
      | listing first member ended | moving first member page full ended =>
        simp only [hpc, SweepPc.current, Option.some.injEq] at hkey
        refine ⟨member, List.mem_append_right _ ?_⟩
        rw [hpc, hkey]
        exact List.mem_cons_self
      | _ =>
        simp [hpc, SweepPc.current] at hkey
  obtain ⟨member, hmem⟩ := hleaving
  have hinactive := hholds.leaving _ hmem
  rw [hholds.snapshot] at hinactive
  rw [Bool.eq_false_iff]
  intro hactive
  have hearlier := Rows.keyActive_of_le hholds.now hactive
  rw [hinactive] at hearlier
  cases hearlier

/-! ## What a step does -/

/-- `before` and `after` are the shared states around a step of request `id`. -/
structure FlightMove (config : Config Key) (before : Shared Key Hash) (id : ℕ)
    (request : Request Key Hash) (after : Shared Key Hash) (next : Request Key Hash) : Prop where
  guards : before.Guards id after
  holds : ∀ work, next = .sweep work → work.pc.isLocked = true → work.Holds config after id
  counts : ∀ key, request.counts key ≤ before.inFlight key →
    after.inFlight key + request.counts key = before.inFlight key + next.counts key
  admits : ∀ key, next.admits = some key → request.admits = some key ∨
    before.rows.keyActive config before.clock key = true
  closes : ∀ key ∈ next.closes, key ∈ request.closes ∨ before.inFlight key = 0
  active : (∀ work, request ≠ .grant work) → ∀ key,
    after.rows.keyActive config after.clock key = true →
      before.rows.keyActive config before.clock key = true
  write : ∀ work, request = .write work → ∃ pc,
    next = .write (work.goto pc) ∧ work.pc ≠ .done ∧
      (work.pc = .land true → pc = .finish) ∧ (work.pc = .finish → pc = .done)

theorem flightMove_grant {work next : Grant Key} (hsync : before.db = before.rows)
    (hreads : outcome.reads = true)
    (hstep : work.step config group before id outcome = some (after, next)) :
    FlightMove config before id (.grant work) after (.grant next) := by
  have hflight := (Grant.step_inFlight hstep).1
  refine ⟨?_, fun _ hnext => (by cases hnext), fun key _ => ?_,
    fun _ hadmits => (by cases hadmits), fun _ hcloses => (by cases hcloses),
    fun hother => absurd rfl (hother work), fun _ hwrite => (by cases hwrite)⟩
  · cases Grant.move_of_step hsync hreads hstep with
    | quiet _ _ hclock hrows hupdates =>
      exact Shared.guards_of_same hclock hupdates hrows
    | refuse => exact Shared.guards_of_same rfl rfl rfl
    | commit _ _ hfree _ hclock | revert _ _ _ hfree _ hclock =>
      exact Shared.guards_of_free hclock hfree
  · rw [hflight]
    rfl

namespace Rows

variable {rows later : Rows Key} {now : ℕ} {key : Key}

theorem keyActive_of_grants (hgrants : later.grants = rows.grants) :
    later.keyActive config now key = rows.keyActive config now key := by
  simp only [Rows.keyActive, Rows.rows, hgrants]

theorem keyActive_of_commitRevoke {device : Key} {createdAt at_ : ℕ}
    (hactive : (rows.commitRevoke device createdAt at_).keyActive config now
      key = true) : rows.keyActive config now key = true := by
  unfold Rows.commitRevoke Rows.commitRevokeTo at hactive
  split at hactive
  · rw [keyActive_iff] at hactive ⊢
    obtain ⟨other, row, hlookup, hnames, hrow⟩ := hactive
    rcases writeGrant_lookup hlookup with ⟨_, hfound⟩ | ⟨_, hold⟩
    · rw [hfound] at hrow
      simp [grantActive] at hrow
    · exact ⟨other, row, hold, hnames, hrow⟩
  · exact hactive

end Rows

theorem flightMove_revoke {work next : Revoke Key} (hsync : before.db = before.rows)
    (hreads : outcome.reads = true)
    (hstep : work.step config before outcome = some (after, next)) :
    FlightMove config before id (.revoke work) after (.revoke next) := by
  have hflight := (Revoke.step_inFlight hstep).1
  refine ⟨?_, fun _ hnext => (by cases hnext), fun key _ => ?_,
    fun _ hadmits => (by cases hadmits), fun _ hcloses => (by cases hcloses), ?_,
    fun _ hwrite => (by cases hwrite)⟩
  · cases Revoke.move_of_step hsync hreads hstep with
    | quiet => exact Shared.guards_of_same rfl rfl rfl
    | commit _ _ hfree _ hclock => exact Shared.guards_of_free hclock hfree
  · rw [hflight]
    rfl
  · intro _ key hactive
    cases Revoke.move_of_step hsync hreads hstep with
    | quiet => exact hactive
    | commit _ _ _ _ hclock _ hrows =>
      rw [hclock, hrows] at hactive
      exact Rows.keyActive_of_commitRevoke hactive

/-! ## Sweeps -/

/-- A sweep that reads the rows finds the members that have ended. -/
theorem Sweep.inactive_of_ended {entry : Key × Member Key} (hentry : entry ∈ work.ended config) :
    work.snapshot.keyActive config work.now entry.1 = false := by
  simp only [Sweep.ended, List.mem_map, List.mem_filter] at hentry
  obtain ⟨found, ⟨_, hinactive⟩, rfl⟩ := hentry
  simpa using hinactive

variable {next : Sweep Key Hash}

theorem Sweep.Move.guards (hmove : Sweep.Move config before id work after next)
    (hclock : after.clock = before.clock)
    (hholds : work.pc.isLocked = true → work.Holds config before id) : before.Guards id after := by
  cases hmove with
  | lock hfree => exact Shared.guards_of_free hclock hfree
  | inside _ hupdates hrows => exact Shared.guards_of_same hclock hupdates hrows
  | unlock hlocked =>
    exact Shared.guards_of_held hclock (hholds hlocked).updates
  | outside _ _ hupdates hrows =>
    rcases hrows with hrows | hfree
    · exact Shared.guards_of_same hclock hupdates hrows
    · exact Shared.guards_of_free hclock hfree

theorem Sweep.Move.holds (hmove : Sweep.Move config before id work after next)
    (hclock : after.clock = before.clock)
    (hholds : work.pc.isLocked = true → work.Holds config before id)
    (hlocked : next.pc.isLocked = true) : next.Holds config after id := by
  cases hmove with
  | lock hfree _ hupdates hrows hnow hsnapshot hleaving =>
    refine ⟨hupdates, hsnapshot.trans hrows.symm, ?_, ?_⟩
    · rw [hnow, hclock]
    · rw [hleaving]
      intro entry hentry
      cases hentry
  | inside hbefore hupdates hrows hnow hsnapshot hleaving =>
    have hold := hholds hbefore
    refine ⟨hupdates.trans hold.updates, ?_, ?_, ?_⟩
    · rw [hsnapshot, hold.snapshot, hrows]
    · rw [hnow, hclock]
      exact hold.now
    · intro entry hentry
      rw [hsnapshot, hnow]
      rcases hleaving entry hentry with hbefore | hended
      · exact hold.leaving entry hbefore
      · exact Sweep.inactive_of_ended hended
  | unlock _ hfinished =>
    rw [hlocked] at hfinished
    cases hfinished
  | outside _ hstill =>
    rw [hlocked] at hstill
    cases hstill

theorem flightMove_sweep [DecidableEq Hash] (hsync : before.db = before.rows)
    (hreads : outcome.reads = true)
    (hholds : work.pc.isLocked = true → work.Holds config before id)
    (hstep : work.step config before id outcome = some (after, next)) :
    FlightMove config before id (.sweep work) after (.sweep next) := by
  obtain ⟨hflight, hclock⟩ := Sweep.step_inFlight hstep
  have hgrants := (Sweep.step_rows hstep hsync hreads).1
  have hmove := Sweep.move_of_step hstep
  refine ⟨hmove.guards hclock hholds, ?_, fun key _ => ?_,
    fun _ hadmits => (by cases hadmits), ?_, ?_,
    fun _ hwrite => (by cases hwrite)⟩
  · rintro _ ⟨⟩ hlocked
    exact hmove.holds hclock hholds hlocked
  · rw [hflight]
    rfl
  · intro key hkey
    obtain ⟨_, ⟨⟩, hlocked, hclosed⟩ := Request.sweep_of_closes hkey
    cases hmove with
    | lock _ _ _ _ _ _ _ hnone =>
      rw [hnone] at hclosed
      cases hclosed
    | inside hbefore _ _ _ _ _ hclosing =>
      rcases hclosing key hclosed with hold | hidle
      · left
        simp only [Request.closes, hbefore, if_true]
        exact hold
      · exact Or.inr hidle
    | unlock _ hfinished =>
      rw [hlocked] at hfinished
      cases hfinished
    | outside _ hstill =>
      rw [hlocked] at hstill
      cases hstill
  · intro _ key hactive
    rw [hclock, Rows.keyActive_of_grants hgrants] at hactive
    exact hactive

/-! ## Writes -/

theorem flightMove_write {work next : Write Key Hash}
    (hstep : work.step config before outcome = some (after, next)) :
    FlightMove config before id (.write work) after (.write next) := by
  obtain ⟨hrows, hclock, hupdates⟩ := Write.step_rows hstep
  refine ⟨Shared.guards_of_same hclock hupdates hrows,
    fun _ hnext => (by cases hnext), ?_, ?_,
    fun _ hcloses => (by cases hcloses), ?_, ?_⟩
  · intro key hle
    cases hpc : work.pc with simp only [Write.step, hpc] at hstep
    | gate | check =>
      cases hstep
      split <;> simp [Request.counts, hpc, Write.goto]
    | count =>
      cases hstep
      by_cases heq : key = work.key
      · simp [Request.counts, hpc, Write.goto, heq]
      · simp [Request.counts, hpc, Write.goto, heq, Ne.symm heq]
    | land counted =>
      cases hstep
      cases counted <;> split <;> simp [Request.counts, hpc, Write.goto]
    | finish =>
      cases hstep
      by_cases heq : key = work.key
      · simp [Request.counts, hpc, Write.goto, heq] at hle ⊢
        omega
      · simp [Request.counts, hpc, Write.goto, heq, Ne.symm heq]
    | done =>
      cases hstep
  · intro key hadmits
    obtain ⟨pc, rfl, _, _, _, hactive⟩ := Write.step_pc hstep
    change (if pc = .land true then some work.key else none) = some key at hadmits
    split_ifs at hadmits with hland
    cases hadmits
    exact Or.inr (hactive hland)
  · intro _ key hactive
    rw [hclock, hrows] at hactive
    exact hactive
  · rintro _ ⟨⟩
    obtain ⟨pc, rfl, hopen, hland, hfinish, _⟩ := Write.step_pc hstep
    exact ⟨pc, rfl, hopen, hland, hfinish⟩

theorem flightMove_of_step [DecidableEq Hash] {next : Request Key Hash}
    (hsync : before.db = before.rows) (hreads : outcome.reads = true)
    (hholds : ∀ work, request = .sweep work → work.pc.isLocked = true → work.Holds config before id)
    (hstep : request.step config group before id outcome = some (after, next)) :
    FlightMove config before id request after next := by
  cases request with simp only [Request.step, Option.map_eq_some_iff, Prod.mk.injEq] at hstep
  | grant work =>
    obtain ⟨⟨_, _⟩, hwork, rfl, rfl⟩ := hstep
    exact flightMove_grant hsync hreads hwork
  | revoke work =>
    obtain ⟨⟨_, _⟩, hwork, rfl, rfl⟩ := hstep
    exact flightMove_revoke hsync hreads hwork
  | sweep work =>
    obtain ⟨⟨_, _⟩, hwork, rfl, rfl⟩ := hstep
    exact flightMove_sweep hsync hreads (hholds work rfl) hwork
  | write work =>
    obtain ⟨⟨_, _⟩, hwork, rfl, rfl⟩ := hstep
    exact flightMove_write hwork

/-! ## Counts and closed keys -/

/-- The sweep that holds the lock has the rows of the state, every write in
flight is counted, and no write is let through for a key whose claims are being
moved. -/
structure Flying (config : Config Key) (state : State Key Hash) : Prop where
  fresh : state.Fresh
  holds : ∀ id request, state.requests id = some request → ∀ work,
    request = .sweep work → work.pc.isLocked = true → work.Holds config state.shared id
  counted : ∀ key, state.shared.inFlight key = state.sum (Request.counts key)
  closing : ∀ id request, state.requests id = some request →
    ∀ key ∈ request.closes, state.Closed key

variable {state stepped : State Key Hash} {action : Action Key Hash}
  {next : Request Key Hash}

theorem Flying.counts_le (hflying : Flying config state)
    (hrequest : state.requests id = some request) (key : Key) :
    request.counts key ≤ state.shared.inFlight key := by
  rw [hflying.counted key]
  exact Pool.le_sum hflying.fresh hrequest _

theorem Flying.closed_of_idle (hflying : Flying config state)
    (hidle : state.shared.inFlight key = 0) : state.Closed key := by
  intro id request hrequest hadmits
  have hle := hflying.counts_le hrequest key
  rw [Request.counts_of_admits hadmits, hidle] at hle
  omega

theorem Flying.inactive_of_closes (hflying : Flying config state)
    (hrequest : state.requests id = some request) (hkey : key ∈ request.closes) :
    state.shared.rows.keyActive config state.shared.clock key = false := by
  obtain ⟨work, rfl, hlocked, hclosed⟩ := Request.sweep_of_closes hkey
  exact (hflying.holds id _ hrequest work rfl hlocked).inactive_of_closed hclosed

theorem Shared.Guards.holds {other : ℕ} (hguards : before.Guards id after) (hother : other ≠ id)
    (hholds : work.Holds config before other) : work.Holds config after other := by
  obtain ⟨hupdates, hrows⟩ := hguards.locked other hother hholds.updates
  exact ⟨hupdates, hholds.snapshot.trans hrows.symm, hholds.now.trans hguards.clock, hholds.leaving⟩

theorem Flying.put (hflying : Flying config state) (hrequest : state.requests id = some request)
    (hmove : FlightMove config state.shared id request after next) :
    Flying config (state.put id (after, next)) := by
  have hcloses : ∀ key ∈ next.closes, state.Closed key := by
    intro key hkey
    rcases hmove.closes key hkey with hbefore | hidle
    · exact hflying.closing id request hrequest key hbefore
    · exact hflying.closed_of_idle hidle
  refine ⟨hflying.fresh.put hrequest _, Pool.forall_put hmove.holds ?_, ?_, ?_⟩
  · intro other found hne hfound work hwork hlocked
    exact hmove.guards.holds hne (hflying.holds other found hfound work hwork hlocked)
  · intro key
    have hsum := Pool.sum_put hflying.fresh hrequest (after, next) (Request.counts key)
    have hcounts := hmove.counts key (hflying.counts_le hrequest key)
    rw [hflying.counted key] at hcounts
    simp only [Pool.shared_put] at hsum ⊢
    omega
  · -- A key closed before stays closed: only a step of its own write could let
    -- one through, and the key is not active.
    refine Pool.forall_put ?_ ?_
    · intro key hkey
      refine Pool.forall_put ?_ ?_
      · intro hadmits
        rw [Request.closes_of_admits hadmits] at hkey
        cases hkey
      · intro other found _ hfound
        exact hcloses key hkey other found hfound
    · intro other found _ hfound key hkey
      have hclosed := hflying.closing other found hfound key hkey
      refine Pool.forall_put ?_ ?_
      · intro hadmits
        rcases hmove.admits key hadmits with hbefore | hactive
        · exact hclosed id request hrequest hbefore
        · rw [hflying.inactive_of_closes hfound hkey] at hactive
          cases hactive
      · intro third request _ hthird
        exact hclosed third request hthird

theorem Flying.start (hflying : Flying config state)
    (hsweep : ∀ work, request = .sweep work → work.pc.isLocked = false)
    (hcounts : ∀ key, request.counts key = 0)
    (hadmits : request.admits = none) (hcloses : request.closes = []) :
    Flying config (state.start request) := by
  refine ⟨hflying.fresh.start request, Pool.forall_start ?_ hflying.holds, ?_,
    Pool.forall_start ?_ ?_⟩
  · intro work hwork hlocked
    rw [hsweep work hwork] at hlocked
    cases hlocked
  · intro key
    rw [Pool.sum_start, hcounts key, Pool.shared_start, hflying.counted key]
    rfl
  · intro key hkey
    rw [hcloses] at hkey
    cases hkey
  · intro other found hfound key hkey
    refine Pool.forall_start ?_ (hflying.closing other found hfound key hkey)
    rw [hadmits]
    simp

theorem Flying.change (hflying : Flying config state)
    {shared : Shared Key Hash} (hclock : state.shared.clock ≤ shared.clock)
    (hupdates : shared.updates = state.shared.updates) (hrows : shared.rows = state.shared.rows)
    (hflight : shared.inFlight = state.shared.inFlight) :
    Flying config { state with shared := shared } := by
  refine ⟨hflying.fresh, ?_, ?_, hflying.closing⟩
  · intro id request hrequest work hwork hlocked
    obtain ⟨hheld, hsnapshot, hnow, hleaving⟩ :=
      hflying.holds id request hrequest work hwork hlocked
    exact ⟨hupdates.trans hheld, hsnapshot.trans hrows.symm, hnow.trans hclock, hleaving⟩
  · intro key
    rw [hflight]
    exact hflying.counted key

/-! ## Runs -/

section Runs

variable [DecidableEq Hash]

/-- A step is of one request, starts one, or changes neither rows nor counts. -/
inductive FlightStep (config : Config Key) (state : State Key Hash) :
    Action Key Hash → State Key Hash → Prop
  | move (id : ℕ) (outcome : Outcome) (request next : Request Key Hash)
      (after : Shared Key Hash) (hrequest : state.requests id = some request)
      (hmove : FlightMove config state.shared id request after next) :
      FlightStep config state (.advance id outcome) (state.put id (after, next))
  | start (action : Action Key Hash) (request : Request Key Hash)
      (hadmits : request.admits = none) (hcloses : request.closes = []) :
      FlightStep config state action (state.start request)
  | outside (action : Action Key Hash) (shared : Shared Key Hash)
      (hclock : state.shared.clock ≤ shared.clock) (hrows : shared.rows = state.shared.rows) :
      FlightStep config state action { state with shared := shared }

theorem Flying.step (hflying : Flying config state) (hsync : Synced state)
    (hreads : action.reads = true)
    (hstep : DeviceGrants.step config group state action = some stepped) :
    Flying config stepped ∧ FlightStep config state action stepped := by
  cases action with
  | advance id outcome =>
    simp only [DeviceGrants.step, Option.bind_eq_some_iff, Option.map_eq_some_iff] at hstep
    obtain ⟨request, hrequest, ⟨after, next⟩, hresult, rfl⟩ := hstep
    have hmove := flightMove_of_step hsync hreads (hflying.holds id request hrequest) hresult
    exact ⟨hflying.put hrequest hmove, .move id outcome request next after hrequest hmove⟩
  | tick seconds =>
    cases hstep
    exact ⟨hflying.change (Nat.le_add_right _ _) rfl rfl rfl,
      .outside _ _ (Nat.le_add_right _ _) rfl⟩
  | prune | deleteClaim key hash | releaseMove key hash =>
    cases hstep
    exact ⟨hflying.change (le_refl _) rfl rfl rfl, .outside _ _ (le_refl _) rfl⟩
  | grant event | revoke event =>
    cases hstep
    exact ⟨hflying.start (fun _ hsweep => by cases hsweep) (fun _ => rfl) rfl
      rfl, .start _ _ rfl rfl⟩
  | sweep =>
    cases hstep
    exact ⟨hflying.start (by rintro _ ⟨⟩; rfl) (fun _ => rfl) rfl rfl, .start _ _ rfl rfl⟩
  | write key hash =>
    cases hstep
    exact ⟨hflying.start (fun _ hsweep => by cases hsweep)
      (by simp [Request.counts]) rfl rfl, .start _ _ rfl rfl⟩

omit [DecidableEq Hash] in
theorem flying_initial (clock : ℕ) (rows : Rows Key) (core : List Key)
    (claims : List (Key × Hash)) (moved : List (Moved Key Hash)) :
    Flying config (State.initial clock rows core claims moved) := by
  refine ⟨fun _ _ => rfl, fun _ _ hrequest => (by cases hrequest), ?_,
    fun _ _ hrequest => (by cases hrequest)⟩
  intro key
  exact (tableSum_eq_zero (by rintro _ _ ⟨⟩)).symm

/-! ## Writes let through before a transfer -/

/-- Request `id` is a write that was let through; while claims of its key are
being moved it is finished. -/
def LetThrough (id : ℕ) (write : Write Key Hash) (state : State Key Hash) : Prop :=
  ∃ pc, state.requests id = some (.write (write.goto pc)) ∧
    (pc = .land true ∨ pc = .finish ∨ pc = .done) ∧
    ∀ other request, state.requests other = some request → write.key ∈ request.closes → pc = .done

omit [DecidableEq Hash] in
theorem LetThrough.step {write : Write Key Hash}
    (hthrough : LetThrough id write state) (hflying : Flying config state)
    (hstep : FlightStep config state action stepped) : LetThrough id write stepped := by
  obtain ⟨pc, hwrite, hpc, hdone⟩ := hthrough
  -- An idle key has only finished writes.
  have hidle : state.shared.inFlight write.key = 0 → pc = .done := by
    intro hzero
    have hle := hflying.counts_le hwrite write.key
    rw [hzero] at hle
    rcases hpc with rfl | rfl | rfl
    · simp [Request.counts, Write.goto] at hle
    · simp [Request.counts, Write.goto] at hle
    · rfl
  cases hstep with
  | start _ request hadmits hcloses =>
    have hne : id ≠ state.started := (hflying.fresh.lt_started hwrite).ne
    refine ⟨pc, ?_, hpc, Pool.forall_start ?_ hdone⟩
    · simp only [Pool.start, Function.update_of_ne hne]
      exact hwrite
    · rw [hcloses]
      intro hkey
      cases hkey
  | outside _ shared => exact ⟨pc, hwrite, hpc, hdone⟩
  | move other outcome request next after hrequest hmove =>
    by_cases heq : other = id
    · subst heq
      rw [hwrite, Option.some.injEq] at hrequest
      obtain ⟨later, hnext, hopen, hland, hfinish⟩ :=
        hmove.write _ hrequest.symm
      have hlater : later = .finish ∨ later = .done := by
        rcases hpc with rfl | rfl | rfl
        · exact Or.inl (hland rfl)
        · exact Or.inr (hfinish rfl)
        · exact absurd rfl hopen
      have hclosed : ∀ other request, state.requests other = some request →
          write.key ∉ request.closes := by
        intro other request hother hkey
        exact hopen (hdone other request hother hkey)
      refine ⟨later, ?_, Or.inr hlater, Pool.forall_put ?_ ?_⟩
      · simp only [Pool.put, Function.update_self, hnext]
        rfl
      · rw [hnext]
        intro hkey
        cases hkey
      · intro third found _ hthird hkey
        exact absurd hkey (hclosed third found hthird)
    · refine ⟨pc, ?_, hpc, Pool.forall_put ?_ ?_⟩
      · simp only [Pool.put, Function.update_of_ne (Ne.symm heq)]
        exact hwrite
      · intro hkey
        rcases hmove.closes _ hkey with hbefore | hzero
        · exact hdone other request hrequest hbefore
        · exact hidle hzero
      · intro third found _ hthird
        exact hdone third found hthird

/-! ## Writes after a transfer -/

/-- No step of a grant, its commit or its revert, makes the key active. -/
def UngrantedStep (config : Config Key) (group : Key → Bool) (key : Key)
    (state : State Key Hash) : Action Key Hash → Prop
  | .advance id outcome => ∀ grant, state.requests id = some (.grant grant) →
      ∀ after, step config group state (.advance id outcome) = some after →
        after.shared.rows.keyActive config after.shared.clock key = false
  | _ => True

/-- The key is not active and no write of it is let through. -/
structure Shut (config : Config Key) (key : Key) (state : State Key Hash) : Prop where
  inactive : state.shared.rows.keyActive config state.shared.clock key = false
  closed : state.Closed key

theorem Shut.step (hshut : Shut config key state)
    (hguard : UngrantedStep config group key state action)
    (hstep : DeviceGrants.step config group state action = some stepped)
    (hflight : FlightStep config state action stepped) : Shut config key stepped := by
  cases hflight with
  | start _ request hadmits _ =>
    refine ⟨hshut.inactive, Pool.forall_start ?_ hshut.closed⟩
    rw [hadmits]
    simp
  | outside _ shared hclock hrows =>
    refine ⟨?_, hshut.closed⟩
    rw [Bool.eq_false_iff]
    intro hactive
    simp only [hrows] at hactive
    have hbefore := Rows.keyActive_of_le hclock hactive
    rw [hshut.inactive] at hbefore
    cases hbefore
  | move id outcome request next after hrequest hmove =>
    constructor
    · by_cases hgrant : ∃ work, request = .grant work
      · obtain ⟨work, rfl⟩ := hgrant
        exact hguard work hrequest _ hstep
      · rw [Bool.eq_false_iff]
        intro hactive
        have hbefore := hmove.active (by simpa using hgrant) key hactive
        rw [hshut.inactive] at hbefore
        cases hbefore
    · refine Pool.forall_put ?_ ?_
      · intro hadmits
        rcases hmove.admits key hadmits with hbefore | hactive
        · exact hshut.closed id request hrequest hbefore
        · rw [hshut.inactive] at hactive
          cases hactive
      · intro other found _ hother
        exact hshut.closed other found hother

/-- In runs that read back what they commit: while a sweep moves the claims of a
key, every write of the key that the gate let through before is finished, and
none is let through from then on, unless a grant makes the key active again. -/
theorem sweeps_move_no_live_writes (config : Config Key) (group : Key → Bool)
    (clock : ℕ) (rows : Rows Key) (core : List Key)
    (claims : List (Key × Hash)) (moved : List (Moved Key Hash))
    (state : State Key Hash) (id : ℕ) (sweep : Sweep Key Hash) (key : Key)
    (hreach : Reaches (step config group) Loads
      (State.initial clock rows core claims moved) state)
    (hsweep : state.requests id = some (.sweep sweep)) (hmoving : sweep.pc.current = some key) :
    (∀ earlier other write, Reaches (step config group) Loads
        (State.initial clock rows core claims moved) earlier →
      earlier.requests other = some (.write write) → write.key = key →
      write.pc = .land true →
      Reaches (step config group) Loads earlier state →
        state.requests other = some (.write (write.goto .done))) ∧
    ∀ later, Reaches (step config group)
        (fun state action => UngrantedStep config group key state action ∧ Loads state action)
        state later →
      ∀ other write, later.requests other = some (.write write) →
        write.key = key → write.pc ≠ .land true := by
  have hflying : ∀ {state : State Key Hash}, Reaches (step config group) Loads
      (State.initial clock rows core claims moved) state → Synced state ∧ Flying config state := by
    intro state hreach
    exact Synced.invariant (fun _ _ hreads => hreads)
      (synced_initial clock rows core claims moved) hreach
      (flying_initial clock rows core claims moved)
      fun _ _ _ hsync hflying hreads hstep => (hflying.step hsync hreads hstep).1
  have hlocked : sweep.pc.isLocked = true := by
    cases hpc : sweep.pc <;> simp_all [SweepPc.current, SweepPc.isLocked]
  have hcloses : key ∈ (Request.sweep sweep : Request Key Hash).closes := by
    simp only [Request.closes, hlocked, if_true]
    exact Sweep.current_mem_closed hmoving
  constructor
  · rintro earlier other write hearlier hwrite rfl hland hrun
    obtain ⟨hsync, hstart⟩ := hflying hearlier
    have hthrough : Synced state ∧ Flying config state ∧ LetThrough other write state := by
      apply Synced.invariant (fun _ _ hreads => hreads) hsync hrun
      · refine ⟨hstart, .land true, ?_, Or.inl rfl, ?_⟩
        · rw [hwrite, Write.goto, ← hland]
        · intro third request hthird hkey
          have hclosed := hstart.closing third request hthird _ hkey
          exact absurd (by simp [Request.admits, hland])
            (hclosed other _ hwrite)
      · rintro before after action hsync ⟨hflying, hthrough⟩ hreads hstep
        obtain ⟨hafter, hmove⟩ := hflying.step hsync hreads hstep
        exact ⟨hafter, hthrough.step hflying hmove⟩
    obtain ⟨pc, hrequest, _, hdone⟩ := hthrough.2.2
    rw [hrequest, hdone id _ hsweep hcloses]
  · intro later hlater other write hwrite hkey hland
    obtain ⟨hsync, hstart⟩ := hflying hreach
    have hshut : Synced later ∧ Flying config later ∧ Shut config key later := by
      apply Synced.invariant (fun _ _ hguard => hguard.2) hsync hlater
      · exact ⟨hstart, hstart.inactive_of_closes hsweep hcloses,
          hstart.closing id _ hsweep key hcloses⟩
      · rintro before after action hsync ⟨hflying, hshut⟩ ⟨hguard, hreads⟩ hstep
        obtain ⟨hafter, hmove⟩ := hflying.step hsync hreads hstep
        exact ⟨hafter, hshut.step hguard hstep hmove⟩
    exact hshut.2.2.closed other _ hwrite (by simp [Request.admits, hland, hkey])

end Runs

def Request.moves (key : Key) : Request Key Hash → Bool
  | .sweep work => decide (work.pc.current = some key)
  | _ => false

theorem exists_sweep_of_moves (hmoves : (state.requests id).any (Request.moves key) = true) :
    ∃ sweep, state.requests id = some (.sweep sweep) ∧ sweep.pc.current = some key := by
  cases hfound : state.requests id with
  | none => simp [hfound] at hmoves
  | some request =>
    rw [hfound, Option.any_some] at hmoves
    cases request with
    | sweep work => exact ⟨work, rfl, of_decide_eq_true hmoves⟩
    | _ => cases hmoves

/-- Device 10 has written, is revoked, and a sweep moves its claims. -/
theorem sweeps_move_no_live_writes_of_a_revoked_device : ∃ (state : State ℕ ℕ) (sweep : Sweep ℕ ℕ),
      Reaches (step singleOwner fun _ => false) Loads
        (State.initial 0 ⟨∅, ∅, ∅⟩ [] [] []) state ∧
      state.requests 3 = some (.sweep sweep) ∧ sweep.pc.current = some 10 ∧
      (10, 7) ∈ state.shared.claims ∧
      ∀ later, Reaches (step singleOwner fun _ => false)
          (fun state action => UngrantedStep singleOwner (fun _ => false) 10 state action ∧
            Loads state action) state later →
        ∀ other write, later.requests other = some (.write write) →
          write.key = 10 → write.pc ≠ .land true := by
  have hrun : (checkedRun (step singleOwner fun _ => false) (fun _ action => action.reads)
      (State.initial 0 ⟨∅, ∅, ∅⟩ [] [] [] : State ℕ ℕ)
      [.grant (hourGrant 10 1 0), .advance 0 .ok, .advance 0 .ok,
        .advance 0 .ok, .advance 0 .ok, .write 10 7, .advance 1 .ok,
        .advance 1 .ok, .advance 1 .ok, .advance 1 .ok, .advance 1 .ok,
        .revoke ⟨1, 10, 3, 500, 7⟩, .advance 2 .ok, .advance 2 .ok, .sweep,
        .advance 3 .ok, .advance 3 .ok, .advance 3 .ok, .advance 3 .ok,
        .advance 3 .ok, .advance 3 .ok, .advance 3 .ok, .advance 3 .ok]).any
        (fun state => (state.requests 3).any (Request.moves 10) &&
          decide ((10, 7) ∈ state.shared.claims)) = true := by
    decide
  obtain ⟨state, hreach, htest⟩ := exists_reaches_of_check loads_of_reads hrun
  rw [Bool.and_eq_true, decide_eq_true_eq] at htest
  obtain ⟨sweep, hsweep, hmoving⟩ := exists_sweep_of_moves htest.1
  exact ⟨state, sweep, hreach, hsweep, hmoving, htest.2,
    (sweeps_move_no_live_writes singleOwner (fun _ => false) 0 ⟨∅, ∅, ∅⟩ [] []
      [] state 3 sweep 10 hreach hsweep hmoving).2⟩

def ungrantedCheck (state : State Key Hash) : Action Key Hash → Bool
  | .advance id _ =>
    match state.requests id with
    | some (.grant _) => false
    | _ => true
  | _ => true

theorem ungrantedStep_of_check [DecidableEq Hash] (hcheck : ungrantedCheck state action = true) :
    UngrantedStep config group key state action := by
  cases action with
  | advance id outcome =>
    intro grant hgrant
    simp [ungrantedCheck, hgrant] at hcheck
  | _ => trivial

def Request.admitted (key : Key) : Request Key Hash → Bool
  | .write work => decide (work.key = key ∧ work.pc = .land true)
  | _ => false

/-- Device 10 is revoked and granted again; the second grant is committed and
not read back.  A sweep finds the key ended and moves its claims, and its own
reload makes the key active, so that a write is let through. -/
theorem unread_grant_lets_a_write_through : ∃ (state later : State ℕ ℕ) (sweep : Sweep ℕ ℕ)
      (request : Request ℕ ℕ), Reaches (step singleOwner fun _ => false) everyStep
        (State.initial 0 ⟨∅, ∅, ∅⟩ [] [] []) state ∧
      state.requests 3 = some (.sweep sweep) ∧ sweep.pc.current = some 10 ∧
      Reaches (step singleOwner fun _ => false)
        (UngrantedStep singleOwner (fun _ => false) 10) state later ∧
      later.requests 4 = some request ∧ request.admitted 10 = true := by
  have hrun : (runActions (step singleOwner fun _ => false)
      (State.initial 0 ⟨∅, ∅, ∅⟩ [] [] [] : State ℕ ℕ)
      ([.grant (hourGrant 10 1 0)] ++ List.replicate 4 (.advance 0 .ok) ++
        [.revoke ⟨1, 10, 3, 500, 7⟩, .advance 1 .ok, .advance 1 .ok,
          .grant (hourGrant 10 4 2), .advance 2 .ok, .advance 2 .unread, .sweep] ++
        List.replicate 8 (.advance 3 .ok))).any
        (fun state => (state.requests 3).any (Request.moves 10) &&
          (checkedRun (step singleOwner fun _ => false) ungrantedCheck state
            (List.replicate 4 (.advance 3 .ok) ++ [.write 10 7] ++
              List.replicate 3 (.advance 4 .ok))).any
            fun later => (later.requests 4).any (Request.admitted 10)) = true := by
    decide
  obtain ⟨state, hreach, htest⟩ := exists_reaches_of_runActions hrun
  rw [Bool.and_eq_true] at htest
  obtain ⟨sweep, hsweep, hmoving⟩ := exists_sweep_of_moves htest.1
  obtain ⟨later, hlater, hadmitted⟩ := exists_reaches_of_check ungrantedStep_of_check htest.2
  obtain ⟨request, hrequest, hwrite⟩ := (Option.any_eq_true _ _).mp hadmitted
  exact ⟨state, later, sweep, request, hreach, hsweep, hmoving, hlater, hrequest, hwrite⟩

end DeviceGrants
end Wildbloom
