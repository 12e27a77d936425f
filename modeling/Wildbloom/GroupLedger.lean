import Wildbloom.GroupHoldingsCoherence
import Wildbloom.RequestTables

/-!
# The ledger of a group

The ceiling is kept by a ledger.  The total of the holdings and the bytes of
uploads that are admitted and not recorded yet are charged to the group.  An
upload is charged when it is admitted, and recording it moves its charge to
the holdings.  The lock on the reserved bytes keeps the charge from growing
between an upload's look at the total and its admission.
-/

namespace Wildbloom
namespace GroupGate

open ClaimCache Runs

variable {Key Hash : Type} [DecidableEq Key] [DecidableEq Hash]

/-! ## Charges -/

def Upload.unrecorded (upload : Upload Key Hash) : ℕ :=
  match upload.pc with
  | .judge | .lookup | .prove | .begin | .takeBack | .stream | .commit
  | .record _ => upload.bytes
  | .acquire | .check | .lockReserved | .readTotal | .admitting _
  | .release _ | .answered _ => 0

def Upload.Locks (upload : Upload Key Hash) : Prop :=
  match upload.pc with
  | .readTotal | .admitting _ => True
  | _ => False

namespace Request

def bytes : Request Key Hash → ℕ
  | .upload work => work.bytes
  | .mirror _ | .delete _ => 0

def unrecorded : Request Key Hash → ℕ
  | .upload work => work.unrecorded
  | .mirror _ | .delete _ => 0

def Locks : Request Key Hash → Prop
  | .upload work => work.Locks
  | .mirror _ | .delete _ => False

end Request

def Cell.total : Cell Key Hash → ℕ
  | .idle none => 0
  | .idle (some holdings) => holdings.total
  | .rebuilding _ _ _ found => found.total
  | .judging _ hash holdings => (holdings.remove hash).total

namespace State

def sum (state : State Key Hash) (weight : Request Key Hash → ℕ) : ℕ :=
  tableSum state.requests state.started weight

def charged (state : State Key Hash) : ℕ :=
  state.shared.cell.total + state.sum Request.unrecorded

end State

variable {config : Config Key Hash} {state : State Key Hash} {id : ℕ} {cell : Cell Key Hash}
  {holdings : Holdings Hash} {hashes : Finset Hash}

omit [DecidableEq Key] [DecidableEq Hash] in
theorem Request.unrecorded_le_bytes (request : Request Key Hash) :
    request.unrecorded ≤ request.bytes := by
  cases request with
  | mirror | delete => exact le_refl _
  | upload work =>
    simp only [Request.unrecorded, Request.bytes, Upload.unrecorded]
    cases work.pc with
    | judge | lookup | prove | begin | takeBack | stream | commit | record =>
      exact le_refl _
    | _ => exact Nat.zero_le _

theorem Sound.lt_started (hsound : Sound config state) {request : Request Key Hash}
    (hrequest : state.requests id = some request) : id < state.started := by
  by_contra hstarted
  rw [hsound.fresh id (Nat.le_of_not_lt hstarted)] at hrequest
  cases hrequest

theorem State.sum_put (hsound : Sound config state) {request : Request Key Hash}
    (hrequest : state.requests id = some request) (next : Shared Key Hash × Request Key Hash)
    (weight : Request Key Hash → ℕ) :
    (state.put id next).sum weight + weight request = state.sum weight + weight next.2 :=
  tableSum_update (hsound.lt_started hrequest) hrequest next.2 weight

omit [DecidableEq Key] [DecidableEq Hash] in
theorem State.sum_start (order : Order Key Hash) {weight : Request Key Hash → ℕ}
    (hzero : weight order.request = 0) :
    ({ state with
        requests :=
          Function.update state.requests state.started (some order.request)
        started := state.started + 1 } : State Key Hash).sum weight =
      state.sum weight := by
  unfold State.sum
  rw [tableSum_start, hzero, Nat.add_zero]

/-! ## The total follows the known blobs -/

section

omit [DecidableEq Key]

theorem Cell.Lists.total_eq (hlists : cell.Lists config.size) :
    ∃ hashes : Finset Hash, (∀ hash, hash ∈ hashes ↔ hash ∈ cell.known) ∧
      cell.total = ∑ hash ∈ hashes, config.size hash := by
  cases cell with
  | idle holdings =>
    cases holdings with
    | none => exact ⟨∅, by simp [Cell.known], rfl⟩
    | some holdings =>
      obtain ⟨hashes, hlists⟩ := hlists
      exact ⟨hashes, fun hash => (hlists.contains_iff hash).symm, hlists.total⟩
  | rebuilding owner todo cursor found =>
    obtain ⟨hashes, hlists⟩ := hlists
    exact ⟨hashes, fun hash => (hlists.contains_iff hash).symm, hlists.total⟩
  | judging owner judged holdings =>
    obtain ⟨hashes, hlists⟩ := hlists
    refine ⟨hashes.erase judged, ?_, (hlists.remove judged).total⟩
    intro hash
    rw [Finset.mem_erase]
    simp only [Cell.known, Set.mem_ofPred_eq, hlists.contains_iff hash]
    exact and_comm

theorem Cell.Lists.total_le_held (hlists : cell.Lists config.size) {held : Finset Hash}
    (hsub : ∀ hash ∈ cell.known, hash ∈ held) : cell.total ≤ ∑ hash ∈ held, config.size hash := by
  obtain ⟨hashes, hmem, htotal⟩ := hlists.total_eq
  rw [htotal]
  apply Finset.sum_le_sum_of_subset
  intro hash hhash
  exact hsub hash ((hmem hash).mp hhash)

theorem Holdings.Lists.total_insert_le (hlists : holdings.Lists config.size hashes) (hash : Hash) :
    (holdings.insert hash (config.size hash)).total ≤ holdings.total + config.size hash := by
  rw [(hlists.insert hash).total, hlists.total]
  by_cases hmem : hash ∈ hashes
  · rw [Finset.insert_eq_of_mem hmem]
    omega
  · rw [Finset.sum_insert hmem]
    omega

theorem Holdings.Lists.total_insert_of_contains (hlists : holdings.Lists config.size hashes)
    {hash : Hash} (hcontains : holdings.contains hash = true) :
    (holdings.insert hash (config.size hash)).total = holdings.total := by
  rw [(hlists.insert hash).total, hlists.total,
    Finset.insert_eq_of_mem ((hlists.contains_iff hash).mp hcontains)]

theorem Cell.total_of_ready (hready : cell.ready id = some holdings) :
    cell.total = holdings.total := by
  obtain rfl | ⟨cursor, rfl⟩ := Cell.ready_cases hready
  · rfl
  · rfl

end

/-! ## The ledger -/

structure Ledger (config : Config Key Hash) (state : State Key Hash) : Prop where
  charged : state.charged ≤ config.ceiling
  reserved : state.sum Request.bytes ≤ state.shared.reserved
  locks : ∀ id request, state.requests id = some request → request.Locks →
    state.shared.reservedBy = some id
  -- An upload about to be admitted knows a total that still bounds the charge.
  admitting : ∀ id upload total, state.requests id = some (.upload upload) →
      upload.pc = .admitting total → state.charged ≤ total + state.shared.reserved

section Steps

variable {request : Request Key Hash} {next : Shared Key Hash × Request Key Hash}

omit [DecidableEq Key] [DecidableEq Hash] in
theorem State.request_put {other : ℕ} {found : Request Key Hash}
    (hfound : (state.put id next).requests other = some found) :
    other = id ∧ found = next.2 ∨ other ≠ id ∧ state.requests other = some found :=
  entry_of_update hfound

section

variable (hledger : Ledger config state) (hsound : Sound config state)
  (hrequest : state.requests id = some request)
include hsound hrequest

theorem Ledger.charged_put (next : Shared Key Hash × Request Key Hash) :
    (state.put id next).charged + state.shared.cell.total + request.unrecorded =
      state.charged + next.1.cell.total + next.2.unrecorded := by
  have hsum := State.sum_put hsound hrequest next Request.unrecorded
  unfold State.charged
  have hcell : (state.put id next).shared.cell.total = next.1.cell.total := rfl
  omega

include hledger

theorem Ledger.reserved_put
    (hbytes : next.2.bytes + state.shared.reserved ≤ request.bytes + next.1.reserved) :
    (state.put id next).sum Request.bytes ≤ (state.put id next).shared.reserved := by
  have hsum := State.sum_put hsound hrequest next Request.bytes
  have hbefore := hledger.reserved
  have hafter : (state.put id next).shared.reserved = next.1.reserved := rfl
  omega

/-- A step that leaves the lock and the reserved bytes alone and charges no
more than before. -/
theorem Ledger.put_quiet (hcharged : next.1.cell.total + next.2.unrecorded ≤
      state.shared.cell.total + request.unrecorded) (hbytes : next.2.bytes ≤ request.bytes)
    (hreserved : next.1.reserved = state.shared.reserved)
    (hlock : next.1.reservedBy = state.shared.reservedBy) (hnext : ¬ next.2.Locks) :
    Ledger config (state.put id next) := by
  have hput := Ledger.charged_put hsound hrequest next
  constructor
  · have hbefore := hledger.charged
    omega
  · exact hledger.reserved_put hsound hrequest (by omega)
  · intro other found hfound hlocks
    have hsame : (state.put id next).shared.reservedBy = state.shared.reservedBy := hlock
    rcases State.request_put hfound with ⟨_, hnew⟩ | ⟨_, hold⟩
    · rw [hnew] at hlocks
      exact absurd hlocks hnext
    · rw [hsame]
      exact hledger.locks other found hold hlocks
  · intro other upload total hfound hpc
    rcases State.request_put hfound with ⟨_, hnew⟩ | ⟨_, hold⟩
    · rw [← hnew] at hnext
      simp [Request.Locks, Upload.Locks, hpc] at hnext
    · have hbefore := hledger.admitting other upload total hold hpc
      have hafter : (state.put id next).shared.reserved = state.shared.reserved := hreserved
      omega

/-- A step while no other request holds the lock: the charge may grow up to
the ceiling. -/
theorem Ledger.put_alone
    (halone : ∀ other found, other ≠ id → state.requests other = some found → ¬ found.Locks)
    (hcharged : next.1.cell.total + state.sum Request.unrecorded +
      next.2.unrecorded ≤ config.ceiling + request.unrecorded)
    (hbytes : next.2.bytes + state.shared.reserved ≤ request.bytes + next.1.reserved)
    (hnext : ¬ next.2.Locks) : Ledger config (state.put id next) := by
  have hput := Ledger.charged_put hsound hrequest next
  constructor
  · unfold State.charged at hput ⊢
    omega
  · exact hledger.reserved_put hsound hrequest hbytes
  · intro other found hfound hlocks
    rcases State.request_put hfound with ⟨_, hnew⟩ | ⟨hne, hold⟩
    · rw [hnew] at hlocks
      exact absurd hlocks hnext
    · exact absurd hlocks (halone other found hne hold)
  · intro other upload total hfound hpc
    have hlocks : (Request.upload upload).Locks := by
      simp [Request.Locks, Upload.Locks, hpc]
    rcases State.request_put hfound with ⟨_, hnew⟩ | ⟨hne, hold⟩
    · rw [hnew] at hlocks
      exact absurd hlocks hnext
    · exact absurd hlocks (halone other _ hne hold)

/-- A step after which the request holds the lock.  The total it may have read
bounds the charge, since the bytes that are not recorded are reserved. -/
theorem Ledger.put_holder
    (halone : ∀ other found, other ≠ id → state.requests other = some found → ¬ found.Locks)
    (hlock : next.1.reservedBy = some id) (hcharged : next.1.cell.total + next.2.unrecorded ≤
      state.shared.cell.total + request.unrecorded)
    (hbytes : next.2.bytes + state.shared.reserved ≤ request.bytes + next.1.reserved)
    (hread : ∀ upload total, next.2 = .upload upload →
      upload.pc = .admitting total → next.1.cell.total = total) :
    Ledger config (state.put id next) := by
  have hput := Ledger.charged_put hsound hrequest next
  have hreserved := hledger.reserved_put hsound hrequest hbytes
  constructor
  · have hbefore := hledger.charged
    omega
  · exact hreserved
  · intro other found hfound hlocks
    rcases State.request_put hfound with ⟨hsame, _⟩ | ⟨hne, hold⟩
    · rw [hsame]
      exact hlock
    · exact absurd hlocks (halone other found hne hold)
  · intro other upload total hfound hpc
    rcases State.request_put hfound with ⟨_, hnew⟩ | ⟨hne, hold⟩
    · have htotal : (state.put id next).shared.cell.total = total :=
        hread upload total hnew.symm hpc
      have hsum : (state.put id next).sum Request.unrecorded ≤
          (state.put id next).sum Request.bytes :=
        tableSum_le Request.unrecorded_le_bytes
      unfold State.charged
      omega
    · have hlocks : (Request.upload upload).Locks := by
        simp [Request.Locks, Upload.Locks, hpc]
      exact absurd hlocks (halone other _ hne hold)

end

omit [DecidableEq Key] in
theorem Ledger.alone (hledger : Ledger config state) (hlock : state.shared.reservedBy = none ∨
      state.shared.reservedBy = some id) :
    ∀ other found, other ≠ id → state.requests other = some found → ¬ found.Locks := by
  intro other found hne hfound hlocks
  have hholder := hledger.locks other found hfound hlocks
  rcases hlock with hfree | hown
  · rw [hfree] at hholder
    cases hholder
  · rw [hown, Option.some.injEq] at hholder
    exact hne hholder.symm

end Steps

end GroupGate
end Wildbloom
