import Wildbloom.GroupGrantRows
import Wildbloom.RequestTables

/-!
# Posts of group events

A post is screened without any lock, planned against the snapshot under the
`updates` lock, and committed to the database under the same lock; then the
snapshot is read again from the database.  A plan that changes the core's friend
set gives the lock up, takes `policyPush`, plans once more to know what to push,
pushes, and plans a third time before it commits.  A prune writes the database
only, under neither lock.

The device grants of the node are seen through `Devices`, as they are at the
moment of a step.
-/

namespace Wildbloom
namespace GroupGrants

open Runs KeyedTables

variable (Key : Type)

/-- The rooms of each enrolled keeper and the node's own host names. -/
structure Settings where
  enrolments : AList (fun _ : Key => List Key)
  hosts : List Key

/-- The keys with another role, and the friend grants not of groups, which are
to such keys. -/
structure Devices where
  authority : Key → Bool
  friends : List (FriendGrant Key)
  named : ∀ grant ∈ friends, authority grant.pubkey = true

structure Shared where
  clock : ℕ
  settings : Settings Key
  db : GroupRows Key
  snapshot : GroupRows Key
  updates : Option ℕ
  policyPush : Option ℕ
  /-- The friend set the core accepted last. -/
  core : List (FriendGrant Key)

/-- How the outside answers a step: `limited` is a spent rate budget, `gone` is
a client that left or a database that took nothing. -/
inductive Outcome
  | ok
  | refused
  | limited
  | gone
deriving DecidableEq

inductive PostPc
  | screen
  | plan
  | commit (plan : Plan Key)
  | reload (plan : Plan Key)
  | waitPush
  | project
  | push (grants : Option (List (FriendGrant Key)))
  | replan (pushed : Option (List (FriendGrant Key)))
  | answered (answer : Except Refusal Accepted)

structure Post where
  event : GroupEvent Key
  pc : PostPc Key := .screen

inductive PolicyPc
  | wait
  | pushing (grants : List (FriendGrant Key))
  | done

inductive Request
  | post (work : Post Key)
  | policy (pc : PolicyPc Key)

section Steps

variable {Key} [DecidableEq Key]

def Settings.enrolled (settings : Settings Key) (key : Key) : Bool :=
  (settings.enrolments.lookup key).isSome

namespace Shared

def release (shared : Shared Key) (id : ℕ) : Shared Key :=
  { shared with
    updates := if shared.updates = some id then none else shared.updates
    policyPush :=
      if shared.policyPush = some id then none else shared.policyPush }

def coreFriendGrants (shared : Shared Key) (devices : Devices Key) : List (FriendGrant Key) :=
  devices.friends ++ shared.snapshot.groupFriendGrants

def changesFriends (shared : Shared Key) (plan : Plan Key) : Bool :=
  plan.key.any fun change =>
    decide (shared.snapshot.projectedFriendGrants change ≠ shared.snapshot.groupFriendGrants)

end Shared

namespace Post

variable (post : Post Key) (shared : Shared Key) (devices : Devices Key) (id : ℕ)

def goto (pc : PostPc Key) : Post Key :=
  { post with pc := pc }

def answer (reply : Except Refusal Accepted) : Shared Key × Post Key :=
  (shared.release id, post.goto (.answered reply))

def evaluate : Except Refusal (Plan Key) :=
  evaluateGroupEvent shared.settings.enrolled devices.authority
    shared.snapshot post.event shared.clock

/-- Plan under the `updates` lock.  A refusal, and a plan with nothing to write,
answer the post; `proceed` goes on with any other plan. -/
def planned (proceed : Plan Key → Shared Key × Post Key) : Option (Shared Key × Post Key) :=
  if shared.updates ≠ none then none
  else
    some <| match post.evaluate shared devices with
      | .error refusal => post.answer shared id (.error refusal)
      | .ok plan =>
        if plan.writesNothing then
          post.answer shared id (.ok plan.accepted)
        else proceed plan

def lockCommit (plan : Plan Key) : Shared Key × Post Key :=
  ({ shared with updates := some id }, post.goto (.commit plan))

/-- One step of `post_group_event`. -/
def step (outcome : Outcome) : Option (Shared Key × Post Key) :=
  match post.pc, outcome with
  | .answered _, _ => none
  -- The event is committed, and the snapshot stays as it was.
  | .reload _, .gone => some (post.answer shared id (.error .unavailable))
  | .reload plan, _ =>
    some (post.answer { shared with snapshot := shared.db } id (.ok plan.accepted))
  | _, .gone => some (post.answer shared id (.error .unavailable))
  | .screen, _ =>
    match screenGroupEvent (shared.settings.enrolments.lookup ·)
        shared.settings.hosts shared.clock post.event with
    | some refusal =>
      some (post.answer shared id (.error (if outcome = .limited then .rate else refusal)))
    | none => some (shared, post.goto .plan)
  | .plan, _ =>
    post.planned shared devices id fun plan =>
      if plan.grant.any (·.active) ∧ outcome = .limited then
        post.answer shared id (.error .rate)
      else if shared.changesFriends plan then (shared, post.goto .waitPush)
      else post.lockCommit shared id plan
  | .commit plan, _ =>
    some ({ shared with db := shared.db.write plan }, post.goto (.reload plan))
  | .waitPush, _ =>
    if shared.policyPush ≠ none then none
    else some ({ shared with policyPush := some id }, post.goto .project)
  | .project, _ =>
    post.planned shared devices id fun plan =>
      (shared, post.goto (.push (plan.key.map fun change =>
        devices.friends ++ shared.snapshot.projectedFriendGrants change)))
  | .push none, _ => some (shared, post.goto (.replan none))
  | .push (some grants), .ok =>
    some ({ shared with core := grants }, post.goto (.replan (some grants)))
  | .push (some _), _ => some (post.answer shared id (.error .unavailable))
  | .replan _, _ =>
    post.planned shared devices id fun plan => post.lockCommit shared id plan

end Post

/-- One step of `push_core_policy`, which grants and sweeps of devices run. -/
def policyStep (shared : Shared Key) (devices : Devices Key) (id : ℕ)
    (outcome : Outcome) : PolicyPc Key → Option (Shared Key × PolicyPc Key)
  | .wait =>
    if shared.policyPush ≠ none then none
    else
      some ({ shared with policyPush := some id }, .pushing (shared.coreFriendGrants devices))
  | .pushing grants =>
    if outcome = .ok then
      some ({ shared with core := grants }.release id, .done)
    else some (shared.release id, .done)
  | .done => none

namespace Request

def step (shared : Shared Key) (devices : Devices Key) (id : ℕ)
    (outcome : Outcome) : Request Key → Option (Shared Key × Request Key)
  | .post work =>
    (work.step shared devices id outcome).map fun next =>
      (next.1, .post next.2)
  | .policy pc =>
    (policyStep shared devices id outcome pc).map fun next =>
      (next.1, .policy next.2)

def stop : Request Key → Request Key
  | .post { event, pc := .answered answer } =>
    .post { event, pc := .answered answer }
  | .post { event, .. } => .post { event, pc := .answered (.error .unavailable) }
  | .policy _ => .policy .done

end Request

/-! ## Runs -/

abbrev State (Key : Type) := Pool (Shared Key) (Request Key)

inductive Action (Key : Type)
  | tick (seconds : ℕ)
  | post (event : GroupEvent Key)
  | pushPolicy
  | advance (id : ℕ) (devices : Devices Key) (outcome : Outcome)
  | prune
  | restart (settings : Settings Key) (devices : Devices Key)

/-- The check of `enable_group` on the keepers and the keys it reads. -/
def Settings.conflict (settings : Settings Key) (devices : Devices Key)
    (rows : GroupRows Key) : Bool :=
  settings.enrolments.keys.any (fun keeper =>
      devices.authority keeper || (rows.keys.lookup keeper).isSome) ||
    rows.keys.keys.any fun key =>
      devices.authority key || settings.enrolled key

/-- A node that starts: it reads the snapshot from the database and gives the
core the friend set of it. -/
def Shared.restart (shared : Shared Key) (settings : Settings Key)
    (devices : Devices Key) : Shared Key :=
  { shared with
    settings := settings
    snapshot := shared.db
    updates := none
    policyPush := none
    core := devices.friends ++ shared.db.groupFriendGrants }

def step (state : State Key) : Action Key → Option (State Key)
  | .tick seconds =>
    some { state with shared := { state.shared with clock := state.shared.clock + seconds } }
  | .post event => some (state.start (.post { event := event }))
  | .pushPolicy => some (state.start (.policy .wait))
  | .advance id devices outcome =>
    (state.requests id).bind fun request =>
      (request.step state.shared devices id outcome).map (state.put id)
  | .prune =>
    some { state with
      shared :=
        { state.shared with db := state.shared.db.prune state.shared.clock } }
  | .restart settings devices =>
    if settings.enrolments.keys = [] ∨ settings.conflict devices state.shared.db then none
    else
      some { state with
        shared := state.shared.restart settings devices
        requests := fun id => (state.requests id).map Request.stop }

def State.initial (clock : ℕ) (settings : Settings Key) (devices : Devices Key) : State Key where
  shared :=
    { clock := clock
      settings := settings
      db := {}
      snapshot := {}
      updates := none
      policyPush := none
      core := devices.friends }
  requests := fun _ => none
  started := 0

end Steps

end GroupGrants
end Wildbloom
