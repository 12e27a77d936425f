import Wildbloom.GuardedRuns
import Wildbloom.RequestTables

/-!
# A delete token deletes once

`group_delete` verifies a signed token against the clock, spends its id on
another thread, looks up who of the signer's group claims the blob and deletes
those claims.  Spent ids are forgotten once their token has expired, so a
request that was verified in time and spends its token after that finds it
unspent again.
-/

namespace Wildbloom
namespace DeleteTokens

open Runs

structure Token (Key Hash : Type) where
  signer : Key
  eventId : ℕ
  createdAt : ℕ
  expiration : ℕ
  hashes : List Hash
deriving DecidableEq

inductive Pc (Key : Type)
  | verify
  | spend (purge : Bool)
  | look (todo holders : List Key)
  | remove (holders : List Key)
  | done

/-- `removed` records whether the request has removed a claim. -/
structure Delete (Key Hash : Type) where
  token : Token Key Hash
  hash : Hash
  pc : Pc Key := .verify
  fresh : Bool := false
  removed : Bool := false

/-- `used` are the spent ids with the times they expire, `devices` the keys of
the group. -/
structure Shared (Key Hash : Type) where
  clock : ℕ
  used : List (ℕ × ℕ) := []
  devices : List Key := []
  claims : List (Key × Hash) := []

/-- At the check of the signer `purge` and `ok` say what its grants allow. -/
inductive Reply
  | ok
  | purge
  | failed
deriving DecidableEq

variable {Key Hash : Type} [DecidableEq Key] [DecidableEq Hash] (shared : Shared Key Hash)

def futureSkew : ℕ := 30

def longest : ℕ := 604801

/-- The checks of `verify` that read the blob and the clock. -/
def Token.verify (token : Token Key Hash) (hash : Hash) (now : ℕ) : Bool :=
  decide (hash ∈ token.hashes) && decide (token.createdAt ≤ now + futureSkew) &&
    decide (now < token.expiration) && decide (token.createdAt ≤ token.expiration) &&
    decide (token.expiration - token.createdAt ≤ longest)

def Shared.isUsed (eventId : ℕ) : Bool :=
  shared.used.any fun used => used.1 = eventId

def Delete.step (reply : Reply) (request : Delete Key Hash) :
    Option (Shared Key Hash × Delete Key Hash) :=
  match request.pc with
  | .verify =>
    if request.token.verify request.hash shared.clock ∧ reply ≠ .failed then
      some (shared, { request with pc := .spend (decide (reply = .purge)) })
    else some (shared, { request with pc := .done })
  | .spend purge =>
    if reply = .failed then some (shared, { request with pc := .done })
    else
      let fresh := !shared.isUsed request.token.eventId
      some ({ shared with
          used := if fresh then
              (request.token.eventId, request.token.expiration) :: shared.used
            else shared.used },
        { request with
          fresh := fresh
          pc := .look (if purge then shared.devices else [request.token.signer]) [] })
  | .look [] holders =>
    some (shared,
      { request with
        pc := if holders = [] ∨ request.fresh = false then .done else .remove holders })
  | .look (key :: todo) holders =>
    if reply = .failed then some (shared, { request with pc := .done })
    else
      some (shared,
        { request with
          pc := .look todo
            (if (key, request.hash) ∈ shared.claims then holders ++ [key] else holders) })
  | .remove [] => some (shared, { request with pc := .done })
  | .remove (key :: rest) =>
    if reply = .failed then some (shared, { request with pc := .done })
    else
      some ({ shared with claims := shared.claims.filter fun claim => claim ≠ (key, request.hash) },
        { request with
          removed := request.removed || decide ((key, request.hash) ∈ shared.claims)
          pc := .remove rest })
  | .done => none

abbrev State (Key Hash : Type) := Pool (Shared Key Hash) (Delete Key Hash)

/-- `setClaims` and `spendOther` are what other requests do, and a prune may
have read the clock before it gets the database. -/
inductive Action (Key Hash : Type)
  | tick (seconds : ℕ)
  | post (token : Token Key Hash) (hash : Hash)
  | advance (id : ℕ) (reply : Reply)
  | setClaims (claims : List (Key × Hash))
  | setDevices (devices : List Key)
  | spendOther (eventId expiration : ℕ)
  | prune (now : ℕ)
  | restart

def step (state : State Key Hash) : Action Key Hash → Option (State Key Hash)
  | .tick seconds =>
    some { state with shared := { state.shared with clock := state.shared.clock + seconds } }
  | .post token hash => some (state.start { token := token, hash := hash })
  | .advance id reply =>
    (state.requests id).bind fun request =>
      (request.step state.shared reply).map (state.put id)
  | .setClaims claims =>
    some { state with shared := { state.shared with claims := claims } }
  | .setDevices devices =>
    some { state with shared := { state.shared with devices := devices } }
  | .spendOther eventId expiration =>
    some { state with
      shared := { state.shared with used := (eventId, expiration) :: state.shared.used } }
  | .prune now =>
    if now ≤ state.shared.clock then
      some { state with
        shared := { state.shared with used := state.shared.used.filter fun used => now ≤ used.2 } }
    else none
  | .restart =>
    some { state with
      requests := fun id => (state.requests id).map fun request =>
        { request with pc := .done } }

def State.initial : State Key Hash where
  shared := shared
  requests := fun _ => none
  started := 0

def SpentInTimeStep (state : State Key Hash) : Action Key Hash → Prop
  | .advance id _ => ∀ request purge, state.requests id = some request →
      request.pc = .spend purge → state.shared.clock ≤ request.token.expiration
  | _ => True

/-! ## One request of a token is fresh -/

def Pc.beforeSpending : Pc Key → Bool
  | .verify | .spend _ => true
  | _ => false

/-- What a request has removed it removed on a fresh token, whose id is still
kept or has expired. -/
structure Delete.Sound (request : Delete Key Hash) : Prop where
  unspent : request.pc.beforeSpending = true → request.fresh = false
  removing : ∀ holders, request.pc = .remove holders → request.fresh = true
  removed : request.removed = true → request.fresh = true
  spent : request.fresh = true →
    (request.token.eventId, request.token.expiration) ∈ shared.used ∨
      request.token.expiration < shared.clock

structure Single (state : State Key Hash) : Prop where
  sound : ∀ id request, state.requests id = some request → request.Sound state.shared
  unique : ∀ id other request found, state.requests id = some request →
    state.requests other = some found → request.token = found.token →
      request.fresh = true → found.fresh = true → id = other

variable {state after : State Key Hash} {shared next : Shared Key Hash}
  {request later : Delete Key Hash} {reply : Reply} {action : Action Key Hash}

omit [DecidableEq Key] [DecidableEq Hash] in
theorem Delete.Sound.mono (hsound : request.Sound shared) (hclock : shared.clock ≤ next.clock)
    (hused : ∀ used ∈ shared.used, used ∈ next.used ∨ used.2 < next.clock) :
    request.Sound next := by
  refine { hsound with spent := fun hfresh => ?_ }
  rcases hsound.spent hfresh with hkept | hexpired
  · exact hused _ hkept
  · exact Or.inr (hexpired.trans_le hclock)

/-- A step keeps what is spent; only the spending itself makes a token fresh,
and only where its id is not kept. -/
theorem Delete.step_cases (hsound : request.Sound shared)
    (hstep : request.step shared reply = some (next, later)) :
    later.token = request.token ∧ next.clock = shared.clock ∧
      (∀ used ∈ shared.used, used ∈ next.used) ∧ later.Sound next ∧
      (later.fresh = true → request.fresh = true ∨ (∃ purge, request.pc = .spend purge) ∧
        shared.isUsed request.token.eventId = false) := by
  obtain ⟨hunspent, hremoving, hremoved, hspent⟩ := hsound
  unfold Delete.step at hstep
  split at hstep <;> grind [Pc.beforeSpending, Delete.Sound]

theorem Single.step (hsingle : Single state) (hguard : SpentInTimeStep state action)
    (hstep : step state action = some after) : Single after := by
  cases action with
  | advance id reply =>
    simp only [DeleteTokens.step, Option.bind_eq_some_iff, Option.map_eq_some_iff] at hstep
    obtain ⟨request, hrequest, ⟨next, later⟩, hmove, rfl⟩ := hstep
    have hsound := hsingle.sound id request hrequest
    obtain ⟨htoken, hclock, hused, hlater, hfresh⟩ := Delete.step_cases hsound hmove
    -- Where this request spends, no other one of the token is fresh.
    have hother : later.fresh = true → ∀ other found, state.requests other = some found →
        found.token = request.token → found.fresh = true → other = id := by
      intro hnow other found hfound hsame hthen
      rcases hfresh hnow with hbefore | ⟨⟨purge, hpc⟩, hunused⟩
      · exact hsingle.unique other id found request hfound hrequest hsame hthen hbefore
      · have hintime := hguard request purge hrequest hpc
        rcases (hsingle.sound other found hfound).spent hthen with hkept | hexpired
        · rw [hsame] at hkept
          simp only [Shared.isUsed, List.any_eq_false, decide_eq_true_eq] at hunused
          exact absurd rfl (hunused _ hkept)
        · rw [hsame] at hexpired
          omega
    constructor
    · refine Pool.forall_put (P := fun _ found => Delete.Sound next found) hlater ?_
      intro other found _ hfound
      exact (hsingle.sound other found hfound).mono hclock.ge
        fun used hmem => Or.inl (hused used hmem)
    · intro one two first second hone htwo hsame hfirst hsecond
      rcases Pool.request_put hone with ⟨rfl, rfl⟩ | ⟨_, hold⟩
      · rcases Pool.request_put htwo with ⟨rfl, rfl⟩ | ⟨_, hold⟩
        · rfl
        · exact (hother hfirst two second hold (hsame.symm.trans htoken) hsecond).symm
      · rcases Pool.request_put htwo with ⟨rfl, rfl⟩ | ⟨_, htwo⟩
        · exact hother hsecond one first hold (hsame.trans htoken) hfirst
        · exact hsingle.unique one two first second hold htwo hsame hfirst hsecond
  | post token hash =>
    cases hstep
    constructor
    · exact Pool.forall_start (by constructor <;> simp) hsingle.sound
    · intro one two first second hone htwo hsame hfirst hsecond
      rcases Pool.request_start hone with ⟨rfl, rfl⟩ | ⟨_, hone⟩
      · cases hfirst
      · rcases Pool.request_start htwo with ⟨rfl, rfl⟩ | ⟨_, htwo⟩
        · cases hsecond
        · exact hsingle.unique one two first second hone htwo hsame hfirst hsecond
  | prune now =>
    simp only [DeleteTokens.step, Option.ite_none_right_eq_some, Option.some.injEq] at hstep
    obtain ⟨hnow, rfl⟩ := hstep
    refine ⟨fun id request hrequest => (hsingle.sound id request hrequest).mono le_rfl ?_,
      hsingle.unique⟩
    intro used hused
    simp only [List.mem_filter, decide_eq_true_eq]
    by_cases hkept : now ≤ used.2
    · exact Or.inl ⟨hused, hkept⟩
    · exact Or.inr (by omega)
  | restart =>
    cases hstep
    constructor
    · intro id request hrequest
      obtain ⟨old, hold, rfl⟩ := Option.map_eq_some_iff.mp hrequest
      have hsound := hsingle.sound id old hold
      exact { hsound with unspent := by simp [Pc.beforeSpending], removing := by simp }
    · intro one two first second hone htwo hsame hfirst hsecond
      obtain ⟨old, hold, rfl⟩ := Option.map_eq_some_iff.mp hone
      obtain ⟨older, holder, rfl⟩ := Option.map_eq_some_iff.mp htwo
      exact hsingle.unique one two old older hold holder hsame hfirst hsecond
  | _ =>
    cases hstep
    refine ⟨fun id request hrequest => (hsingle.sound id request hrequest).mono ?_ ?_,
      hsingle.unique⟩
    · simp
    · intro used hused
      exact Or.inl (by simp [hused])

/-- In every run in which no token is spent after it has expired, at most one of
the requests with one token removes claims. -/
theorem delete_token_removes_once (shared : Shared Key Hash) (state : State Key Hash)
    (hreach : Reaches step SpentInTimeStep (State.initial shared) state)
    (id other : ℕ) (request found : Delete Key Hash)
    (hrequest : state.requests id = some request) (hfound : state.requests other = some found)
    (htoken : request.token = found.token) (hremoved : request.removed = true)
    (hagain : found.removed = true) : id = other := by
  have hsingle : Single state :=
    hreach.invariant ⟨by rintro _ _ ⟨⟩, by rintro _ _ _ _ ⟨⟩⟩
      fun _ _ _ hsingle hguard hstep => hsingle.step hguard hstep
  exact hsingle.unique id other request found hrequest hfound htoken
    ((hsingle.sound id request hrequest).removed hremoved)
    ((hsingle.sound other found hfound).removed hagain)

def sampleToken : Token ℕ ℕ :=
  { signer := 1, eventId := 5, createdAt := 0, expiration := 100, hashes := [7] }

def sampleShared : Shared ℕ ℕ :=
  { clock := 0, devices := [1], claims := [(1, 7)] }

def inTimeCheck (state : State ℕ ℕ) : Action ℕ ℕ → Bool
  | .advance id _ =>
    (state.requests id).all fun request => decide (state.shared.clock ≤ request.token.expiration)
  | _ => true

theorem spentInTimeStep_of_check {state : State ℕ ℕ} {action : Action ℕ ℕ}
    (hcheck : inTimeCheck state action = true) : SpentInTimeStep state action := by
  cases action with
  | advance id reply =>
    intro request purge hrequest _
    simpa [inTimeCheck, hrequest] using hcheck
  | _ => trivial

theorem delete_token_removes_once_of_two_requests : ∃ (state : State ℕ ℕ) (request : Delete ℕ ℕ),
    Reaches step SpentInTimeStep (State.initial sampleShared) state ∧ state.started = 2 ∧
    state.requests 0 = some request ∧ request.removed = true ∧
    ∀ other found, state.requests other = some found → request.token = found.token →
      found.removed = true → 0 = other := by
  have hrun : (checkedRun step inTimeCheck (State.initial sampleShared)
      (.post sampleToken 7 :: .post sampleToken 7 :: List.replicate 5 (.advance 0 .ok) ++
        List.replicate 3 (.advance 1 .ok))).any (fun state => state.started = 2 ∧
          (state.requests 0).any (·.removed)) = true := by
    decide
  obtain ⟨state, hreach, htest⟩ := exists_reaches_of_check spentInTimeStep_of_check hrun
  simp only [decide_eq_true_eq, Option.any_eq_true] at htest
  obtain ⟨htwo, request, hrequest, hremoved⟩ := htest
  refine ⟨state, request, hreach, htwo, hrequest, hremoved, fun other found hfound htoken => ?_⟩
  exact delete_token_removes_once _ state hreach 0 other request found hrequest hfound htoken
    hremoved

/-- Two requests are verified in time; the second one spends the token again
after a prune and removes the claim that was made in between. -/
theorem delete_token_removes_twice_after_a_prune :
    ∃ (state : State ℕ ℕ) (request found : Delete ℕ ℕ),
      Reaches step everyStep (State.initial sampleShared) state ∧
      state.requests 0 = some request ∧ state.requests 1 = some found ∧
      request.token = found.token ∧ request.removed = true ∧ found.removed = true := by
  have hrun : (runActions step (State.initial sampleShared)
      ([.post sampleToken 7, .post sampleToken 7, .advance 0 .ok, .advance 1 .ok] ++
        List.replicate 4 (.advance 0 .ok) ++ [.tick 101, .prune 101, .setClaims [(1, 7)]] ++
        List.replicate 4 (.advance 1 .ok))).any (fun state =>
          (state.requests 0).any fun request => request.removed &&
            (state.requests 1).any fun found => found.removed &&
              decide (request.token = found.token)) = true := by
    decide
  obtain ⟨state, hreach, htest⟩ := exists_reaches_of_runActions hrun
  simp only [Option.any_eq_true, Bool.and_eq_true, decide_eq_true_eq] at htest
  obtain ⟨request, hrequest, hremoved, found, hfound, hagain, htoken⟩ := htest
  exact ⟨state, request, found, hreach, hrequest, hfound, htoken, hremoved, hagain⟩

end DeleteTokens
end Wildbloom
