import Wildbloom.GuardedRuns

/-!
# The gate of the routes for granted devices

A request reads the clock, and later it takes the lock of the route's windows
and spends its event id in the node's database.  In between other requests
pass, old ids are pruned and the process restarts, with empty windows.
-/

namespace Wildbloom
namespace DeviceAuth

open Runs

def rateWindow : ℕ := 60 * 60

def replayWindow : ℕ := 120

structure Rules (Id Device : Type) where
  limit : ℕ
  /-- The signer and the time of the event with an id, where its form, its
  tags and its signature are right for the route. -/
  event : Id → Option (Device × ℕ)

inductive Refusal
  | unauthorised
  | inactive
  | spent
  | unavailable
  | replayed

structure State (Id Device : Type) where
  clock : ℕ := 0
  used : List (Id × ℕ) := []
  rate : Device → List ℕ := fun _ => []
  /-- The requests that passed, with the time each one read. -/
  passed : List (Id × Device × ℕ) := []

inductive Action (Id : Type)
  | tick (time : ℕ)
  | prune (now : ℕ)
  | consume (id : Id) (expires : ℕ)
  | authorise (id : Id) (now : ℕ) (active answers : Bool)
  | restart

variable {Id Device : Type} [DecidableEq Id] [DecidableEq Device] (rules : Rules Id Device)

def authenticate (id : Id) (now : ℕ) : Option Device :=
  (rules.event id).bind fun event =>
    if now + 30 < event.2 ∨ event.2 + 60 < now then none else some event.1

/-- The grant is active or not, and the database answers or not. -/
def authorise (state : State Id Device) (id : Id) (now : ℕ) (active answers : Bool) :
    Except Refusal Device × State Id Device :=
  match authenticate rules id now with
  | none => (.error .unauthorised, state)
  | some device =>
    if !active then (.error .inactive, state)
    else
      let rate := fun other =>
        (state.rate other).dropWhile fun issued => decide (rateWindow ≤ now - issued)
      -- an empty window is dropped and not compared with the limit
      if rate device ≠ [] ∧ rules.limit ≤ (rate device).length then
        (.error .spent, { state with rate })
      else if !answers then (.error .unavailable, { state with rate })
      else if id ∈ state.used.map Prod.fst then (.error .replayed, { state with rate })
      else (.ok device,
        { state with
          used := (id, now + replayWindow) :: state.used
          rate := Function.update rate device (rate device ++ [now])
          passed := state.passed ++ [(id, device, now)] })

def step (state : State Id Device) : Action Id → Option (State Id Device)
  | .tick time => if state.clock ≤ time then some { state with clock := time } else none
  | .prune now =>
    if now ≤ state.clock then
      some { state with used := state.used.filter fun row => decide (now ≤ row.2) }
    else none
  | .consume id expires =>
    if id ∈ state.used.map Prod.fst then some state
    else some { state with used := (id, expires) :: state.used }
  | .authorise id now active answers =>
    if now ≤ state.clock then some (authorise rules state id now active answers).2 else none
  | .restart => some { state with rate := fun _ => [] }

/-- A request spends its id at most 30 seconds after it read the clock: it
waits for the lock of the windows first and then for that of the database. -/
def prompt (state : State Id Device) : Action Id → Bool
  | .authorise _ now _ _ => decide (state.clock ≤ now + 30)
  | _ => true

variable {rules} {state next : State Id Device} {action : Action Id}
  {id : Id} {now : ℕ} {active answers : Bool}

theorem authorise_cases
    (hafter : (authorise rules state id now active answers).2 = next) :
    (∃ rate, next = { state with rate }) ∨
    ∃ rate device created, rules.event id = some (device, created) ∧ created ≤ now + 30 ∧
      now ≤ created + 60 ∧ id ∉ state.used.map Prod.fst ∧
      next = ⟨state.clock, (id, now + replayWindow) :: state.used, rate,
        state.passed ++ [(id, device, now)]⟩ := by
  unfold authorise at hafter
  split at hafter
  next => exact .inl ⟨_, hafter.symm⟩
  next device hdevice =>
    simp only [authenticate, Option.bind_eq_some_iff, Option.ite_none_left_eq_some, not_or,
      not_lt, Option.some.injEq] at hdevice
    obtain ⟨event, hevent, hfresh, rfl⟩ := hdevice
    dsimp only at hafter
    split_ifs at hafter with hactive hspent hanswers hused
    any_goals exact .inl ⟨_, hafter.symm⟩
    exact .inr ⟨_, event.1, event.2, hevent, hfresh.1, hfresh.2, hused, hafter.symm⟩

/-- The id of a request that passed is in the database until the event is too
old to pass. -/
structure Single (rules : Rules Id Device) (state : State Id Device) : Prop where
  once : (state.passed.map Prod.fst).Nodup
  spent : ∀ pass ∈ state.passed, ∃ created, rules.event pass.1 = some (pass.2.1, created) ∧
    created ≤ pass.2.2 + 30 ∧ ((pass.1, pass.2.2 + replayWindow) ∈ state.used ∨
      pass.2.2 + replayWindow < state.clock)

omit [DecidableEq Id] [DecidableEq Device] in
theorem Single.keep (hsingle : Single rules state) (hpassed : next.passed = state.passed)
    (hclock : state.clock ≤ next.clock)
    (hrows : ∀ row ∈ state.used, row ∈ next.used ∨ row.2 < next.clock) : Single rules next := by
  refine ⟨hpassed ▸ hsingle.once, fun pass hpass => ?_⟩
  obtain ⟨created, hevent, hahead, hspent⟩ := hsingle.spent pass (hpassed ▸ hpass)
  exact ⟨created, hevent, hahead, hspent.elim (hrows _) fun hold => .inr (hold.trans_le hclock)⟩

theorem Single.authorise (hsingle : Single rules state) (hprompt : state.clock ≤ now + 30)
    (hafter : (authorise rules state id now active answers).2 = next) : Single rules next := by
  obtain ⟨rate, rfl⟩ | ⟨rate, device, created, hevent, hahead, hold, hunused, rfl⟩ :=
    authorise_cases hafter
  · exact hsingle.keep rfl le_rfl fun _ => .inl
  have hnew : ∀ pass ∈ state.passed, pass.1 ≠ id := by
    rintro pass hpass rfl
    obtain ⟨first, hfirst, hearly, hrow | hgone⟩ := hsingle.spent pass hpass
    · exact hunused (List.mem_map_of_mem hrow)
    · -- it was read at most 90 seconds after the first time
      rw [hevent] at hfirst
      cases hfirst
      simp only [replayWindow] at hgone
      omega
  constructor
  · simpa [List.nodup_append, hsingle.once] using hnew
  · intro pass hpass
    rcases List.mem_append.mp hpass with hbefore | hlast
    · obtain ⟨first, hfirst, hearly, hspent⟩ := hsingle.spent pass hbefore
      exact ⟨first, hfirst, hearly, hspent.imp_left (List.mem_cons_of_mem _)⟩
    · obtain rfl := List.mem_singleton.mp hlast
      exact ⟨created, hevent, hahead, .inl List.mem_cons_self⟩

theorem Single.step (hsingle : Single rules state) (hprompt : prompt state action = true)
    (hstep : step rules state action = some next) : Single rules next := by
  cases action with
  | restart =>
    cases hstep
    exact hsingle.keep rfl le_rfl fun _ => .inl
  | tick time =>
    obtain ⟨hle, ⟨⟩⟩ := Option.ite_none_right_eq_some.mp hstep
    exact hsingle.keep rfl hle fun _ => .inl
  | prune now =>
    obtain ⟨hle, ⟨⟩⟩ := Option.ite_none_right_eq_some.mp hstep
    refine hsingle.keep rfl le_rfl fun row hrow => ?_
    by_cases hkeep : now ≤ row.2
    · exact .inl (List.mem_filter.mpr ⟨hrow, decide_eq_true hkeep⟩)
    · exact .inr ((not_le.mp hkeep).trans_le hle)
  | consume id expires =>
    simp only [DeviceAuth.step] at hstep
    split at hstep <;> cases hstep
    · exact hsingle
    · exact hsingle.keep rfl le_rfl fun row hrow => .inl (List.mem_cons_of_mem _ hrow)
  | authorise id now active answers =>
    obtain ⟨-, hafter⟩ := Option.ite_none_right_eq_some.mp hstep
    exact hsingle.authorise (of_decide_eq_true hprompt) (Option.some.inj hafter)

/-- Where no request stalls for more than 30 seconds, no event passes twice,
whatever is pruned in between and however often the process restarts. -/
theorem no_event_passes_twice (hreach : Reaches (step rules) (prompt · ·) {} state) :
    (state.passed.map Prod.fst).Nodup := by
  have hsingle : Single rules state := hreach.invariant ⟨List.nodup_nil, by simp⟩
    fun _ _ _ hbefore hprompt hstep => hbefore.step hprompt hstep
  exact hsingle.once

def oneAnHour : Rules ℕ ℕ := ⟨1, fun id => some (0, id)⟩

/-- An event from 30 seconds ahead comes back when it is 60 seconds old. -/
def replay (time : ℕ) : List (Action ℕ) :=
  [.authorise 30 0 true true, .tick time, .prune time, .restart, .authorise 30 90 true true]

theorem no_event_passes_twice_after_restart : ∃ state,
    Reaches (step oneAnHour) (prompt · ·) {} state ∧ state.passed = [(30, 0, 0)] ∧
      (state.passed.map Prod.fst).Nodup := by
  have hrun : (checkedRun (step oneAnHour) prompt {} (replay 120)).any
      (fun state => decide (state.passed = [(30, 0, 0)])) = true := by
    decide
  obtain ⟨state, hreach, hpassed⟩ := exists_reaches_of_check (fun hcheck => hcheck) hrun
  exact ⟨state, hreach, of_decide_eq_true hpassed, no_event_passes_twice hreach⟩

-- a request that stalls for 31 seconds does pass again
example : (runActions (step oneAnHour) {} (replay 121)).map (·.passed) =
    some [(30, 0, 0), (30, 0, 90)] := by
  decide

end DeviceAuth
end Wildbloom
