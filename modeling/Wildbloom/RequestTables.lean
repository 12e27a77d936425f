import Mathlib

/-!
# Sums over a table of requests

Requests are numbered in the order in which they start, and a table maps each
number below the count to its request.  Accounts over all requests are sums of
a weight over the table; one step of a request changes one term.  A pool is a
table over the state that the requests share.
-/

namespace Wildbloom
namespace Runs

-- In one application, so that it is the same term wherever a definition tests
-- a list of pairs for membership.
instance pairLawfulBEq {First Second : Type*} [DecidableEq First] [DecidableEq Second] :
    LawfulBEq (First × Second) :=
  inferInstance

variable {Entry : Type*} {table : ℕ → Option Entry} {count id : ℕ} {entry : Entry}

theorem entry_of_update {other : ℕ} {found : Entry}
    (hfound : Function.update table id (some entry) other = some found) :
    other = id ∧ found = entry ∨ other ≠ id ∧ table other = some found := by
  by_cases heq : other = id
  · rw [heq, Function.update_self, Option.some.injEq] at hfound
    exact Or.inl ⟨heq, hfound.symm⟩
  · rw [Function.update_of_ne heq] at hfound
    exact Or.inr ⟨heq, hfound⟩

def tableSum (table : ℕ → Option Entry) (count : ℕ) (weight : Entry → ℕ) : ℕ :=
  ∑ id ∈ Finset.range count, (table id).elim 0 weight

theorem tableSum_le {light heavy : Entry → ℕ} (hle : ∀ entry, light entry ≤ heavy entry) :
    tableSum table count light ≤ tableSum table count heavy := by
  apply Finset.sum_le_sum
  intro id _
  cases table id with
  | none => exact le_refl _
  | some entry => exact hle entry

theorem tableSum_eq_zero {weight : Entry → ℕ}
    (hzero : ∀ id entry, table id = some entry → weight entry = 0) :
    tableSum table count weight = 0 := by
  apply Finset.sum_eq_zero
  intro id _
  cases hentry : table id with
  | none => rfl
  | some entry => exact hzero id entry hentry

theorem le_tableSum {weight : Entry → ℕ} (hid : id < count) (hentry : table id = some entry) :
    weight entry ≤ tableSum table count weight := by
  have hterm := Finset.single_le_sum
    (f := fun id => (table id).elim 0 weight) (fun _ _ => Nat.zero_le _) (Finset.mem_range.mpr hid)
  simp only [hentry, Option.elim_some] at hterm
  exact hterm

theorem tableSum_update (hid : id < count) (hentry : table id = some entry)
    (next : Entry) (weight : Entry → ℕ) :
    tableSum (Function.update table id (some next)) count weight + weight entry =
      tableSum table count weight + weight next := by
  have hmem := Finset.mem_range.mpr hid
  have hbefore := Finset.sum_erase_add (Finset.range count)
    (fun id => (table id).elim 0 weight) hmem
  have hafter := Finset.sum_erase_add (Finset.range count)
    (fun other => (Function.update table id (some next) other).elim 0 weight)
    hmem
  have hrest : ∑ other ∈ (Finset.range count).erase id,
          (Function.update table id (some next) other).elim 0 weight =
        ∑ other ∈ (Finset.range count).erase id, (table other).elim 0 weight := by
    apply Finset.sum_congr rfl
    intro other hother
    rw [Function.update_of_ne (Finset.ne_of_mem_erase hother)]
  simp only [hentry, Option.elim_some] at hbefore
  simp only [Function.update_self, Option.elim_some, hrest] at hafter
  unfold tableSum
  omega

theorem tableSum_start (entry : Entry) (weight : Entry → ℕ) :
    tableSum (Function.update table count (some entry)) (count + 1) weight =
      tableSum table count weight + weight entry := by
  unfold tableSum
  rw [Finset.sum_range_succ, Function.update_self, Option.elim_some]
  congr 1
  apply Finset.sum_congr rfl
  intro id hid
  rw [Function.update_of_ne (Finset.mem_range.mp hid).ne]

/-! ## Pools of requests -/

structure Pool (Shared Request : Type*) where
  shared : Shared
  requests : ℕ → Option Request
  started : ℕ

namespace Pool

variable {Shared Request : Type*} (pool : Pool Shared Request)
  {request found : Request} {other : ℕ} {next : Shared × Request}

def put (id : ℕ) (next : Shared × Request) : Pool Shared Request :=
  { pool with shared := next.1, requests := Function.update pool.requests id (some next.2) }

def start (request : Request) : Pool Shared Request :=
  { pool with
    requests := Function.update pool.requests pool.started (some request)
    started := pool.started + 1 }

def sum (weight : Request → ℕ) : ℕ :=
  tableSum pool.requests pool.started weight

def Fresh : Prop :=
  ∀ id, pool.started ≤ id → pool.requests id = none

variable {pool} {P : ℕ → Request → Prop}

theorem Fresh.lt_started (hfresh : pool.Fresh) (hrequest : pool.requests id = some request) :
    id < pool.started := by
  by_contra hstarted
  rw [hfresh id (Nat.le_of_not_lt hstarted)] at hrequest
  cases hrequest

theorem Fresh.put (hfresh : pool.Fresh)
    (hrequest : pool.requests id = some request) (next : Shared × Request) :
    (pool.put id next).Fresh := by
  intro other hother
  have hne : other ≠ id := by
    intro heq
    have hstarted := hfresh.lt_started hrequest
    simp only [Pool.put] at hother
    omega
  simp only [Pool.put, Function.update_of_ne hne]
  exact hfresh other hother

theorem Fresh.start (hfresh : pool.Fresh) (request : Request) : (pool.start request).Fresh := by
  intro other hother
  simp only [Pool.start] at hother
  have hne : other ≠ pool.started := by omega
  simp only [Pool.start, Function.update_of_ne hne]
  exact hfresh other (by omega)

@[simp] theorem shared_put (id : ℕ) (next : Shared × Request) :
    (pool.put id next).shared = next.1 := rfl

@[simp] theorem shared_start (request : Request) : (pool.start request).shared = pool.shared := rfl

theorem request_put (hfound : (pool.put id next).requests other = some found) :
    other = id ∧ found = next.2 ∨ other ≠ id ∧ pool.requests other = some found :=
  entry_of_update hfound

theorem request_start (hfound : (pool.start request).requests other = some found) :
    other = pool.started ∧ found = request ∨
      other ≠ pool.started ∧ pool.requests other = some found :=
  entry_of_update hfound

/-- What holds of the new request and still holds of the others holds of all
requests after a step. -/
theorem forall_put (hnew : P id next.2)
    (hothers : ∀ other found, other ≠ id → pool.requests other = some found → P other found) :
    ∀ other found, (pool.put id next).requests other = some found → P other found := by
  intro other found hfound
  rcases request_put hfound with ⟨hid, hsame⟩ | ⟨hne, hold⟩
  · rw [hid, hsame]
    exact hnew
  · exact hothers other found hne hold

theorem forall_start (hnew : P pool.started request)
    (hothers : ∀ other found, pool.requests other = some found → P other found) :
    ∀ other found, (pool.start request).requests other = some found → P other found := by
  intro other found hfound
  rcases request_start hfound with ⟨hid, hsame⟩ | ⟨_, hold⟩
  · rw [hid, hsame]
    exact hnew
  · exact hothers other found hold

theorem sum_put (hfresh : pool.Fresh) (hrequest : pool.requests id = some request)
    (next : Shared × Request) (weight : Request → ℕ) :
    (pool.put id next).sum weight + weight request = pool.sum weight + weight next.2 :=
  tableSum_update (hfresh.lt_started hrequest) hrequest next.2 weight

theorem sum_start (request : Request) (weight : Request → ℕ) :
    (pool.start request).sum weight = pool.sum weight + weight request :=
  tableSum_start request weight

theorem le_sum (hfresh : pool.Fresh)
    (hrequest : pool.requests id = some request) (weight : Request → ℕ) :
    weight request ≤ pool.sum weight :=
  le_tableSum (hfresh.lt_started hrequest) hrequest

end Pool

end Runs
end Wildbloom
