import Wildbloom.DeviceGrantRows
import Wildbloom.RequestTables

/-!
# Grants, revocations, sweeps and delegated writes

The requests that change the rows of device grants, and what the claims of
delegated keys go through meanwhile.  `updates` is the lock under which rows
change.  A grant commits under it, pushes the trusted set to the core without
it, and takes it again to revert when the core refuses.  A sweep holds it
while it hands claims back to keys that are due and moves the claims of ended
keys to their owner; its push runs without it.

Requests read `rows`, the snapshot of the database `db`.  A commit writes to
`db` and then reads it back into the snapshot, in one step: all of it under
`updates`, which whoever writes rows holds.  The reading back can fail, and
then the snapshot stays as it was.  The move of one claim is one step too.
Friend claims are the claims made under a key's own grant id.
-/

namespace Wildbloom
namespace DeviceGrants

open Runs

variable {Key Hash : Type}

/-- A claim of a key that a sweep moved to `owner`. -/
structure Moved (Key Hash : Type) where
  key : Key
  owner : Key
  hash : Hash
deriving DecidableEq

structure Shared (Key Hash : Type) where
  clock : ℕ
  db : Rows Key
  rows : Rows Key
  /-- The ids of used events, with the times they expire. -/
  used : List (ℕ × ℕ)
  updates : Option ℕ
  policyPush : Option ℕ
  /-- The delegated keys in the friend set the core accepted last. -/
  core : List Key
  restoreDue : List Key
  inFlight : Key → ℕ
  claims : List (Key × Hash)
  moved : List (Moved Key Hash)

/-- `failedAfter` is an error once the new claim is already made.  `unread` is
a commit that could not be read back; `partly` is of a put-back, whose writes
`landed` one by one, and which was `read` back or not. -/
inductive Outcome
  | ok
  | refused
  | overLimit
  | failed
  | failedAfter
  | unread
  | partly (landed : List Bool) (read : Bool)
deriving DecidableEq

/-- Whether `reload` could read what was committed. -/
def Outcome.reads : Outcome → Bool
  | .unread => false
  | .partly _ read => read
  | _ => true

/-! ## Grants and revocations -/

inductive Answer
  | accepted (created : Bool)
  | revoked
  | refused (error : EventError)
  | conflict (reason : Conflict)
  | unavailable
deriving DecidableEq

structure Pending (Key : Type) where
  previous : Option (GrantRow Key)
  members : List (Key × Option (Member Key))

inductive GrantPc (Key : Type)
  | verify
  | commit
  | waitPush (pending : Pending Key)
  | pushing (pending : Pending Key) (keys : List Key)
  | revert (pending : Pending Key)
  | waitRepush
  | repushing (keys : List Key)
  | answered (answer : Answer)

structure Grant (Key : Type) where
  event : GrantEvent Key
  pc : GrantPc Key := .verify

inductive RevokePc
  | verify
  | commit
  | answered (answer : Answer)
deriving DecidableEq

structure Revoke (Key : Type) where
  event : RevokeEvent Key
  pc : RevokePc := .verify

variable [DecidableEq Key] [DecidableEq Hash]

def Shared.isUsed (shared : Shared Key Hash) (eventId : ℕ) : Bool :=
  shared.used.any fun used => used.1 = eventId

/-- The database is written, and read back into the snapshot if it `reads`. -/
def Shared.store (shared : Shared Key Hash) (db : Rows Key) (reads : Bool) : Shared Key Hash :=
  { shared with db := db, rows := if reads then db else shared.rows }

namespace Grant

def goto (grant : Grant Key) (pc : GrantPc Key) : Grant Key :=
  { grant with pc := pc }

/-- One step of `apply_grant`. -/
def step (config : Config Key) (group : Key → Bool)
    (shared : Shared Key Hash) (id : ℕ) (grant : Grant Key)
    (outcome : Outcome) : Option (Shared Key Hash × Grant Key) :=
  let event := grant.event
  match grant.pc with
  | .verify =>
    match event.verify config shared.clock with
    | some error => some (shared, grant.goto (.answered (.refused error)))
    | none => some (shared, grant.goto .commit)
  | .commit =>
    if shared.updates ≠ none then none
    else
      match shared.rows.checkGrantConflicts config group event with
      | some reason => some (shared, grant.goto (.answered (.conflict reason)))
      | none =>
        if outcome = .failed then some (shared, grant.goto (.answered .unavailable))
        else if shared.isUsed event.eventId then
          some (shared, grant.goto (.answered (.conflict .usedEvent)))
        else
          let stored := { shared.store
              (shared.rows.commitGrantTo config shared.clock shared.db event) outcome.reads with
            used := (event.eventId, event.expiresAt) :: shared.used }
          if outcome.reads then
            some ({ stored with
                restoreDue := event.device :: event.recovery :: shared.restoreDue },
              grant.goto (.waitPush
                { previous := shared.rows.grants.lookup event.device
                  members :=
                    [(event.device, shared.rows.members.lookup event.device), (event.recovery,
                        shared.rows.members.lookup event.recovery)] }))
          else some (stored, grant.goto (.answered .unavailable))
  | .waitPush pending =>
    if shared.policyPush ≠ none then none
    else
      some ({ shared with policyPush := some id },
        grant.goto (.pushing pending shared.rows.members.keys))
  | .pushing pending keys =>
    if outcome = .ok then
      some ({ shared with policyPush := none, core := keys },
        grant.goto (.answered (.accepted pending.previous.isNone)))
    else
      some ({ shared with policyPush := none }, grant.goto (.revert pending))
  | .revert pending =>
    if shared.updates ≠ none then none
    -- Only if nothing newer replaced this grant meanwhile.
    else if shared.rows.grants.lookup event.device = some event.row then
      if outcome = .failed then some (shared, grant.goto (.answered .unavailable))
      else
        some (shared.store (shared.db.revert event.device pending.previous pending.members)
            outcome.reads,
          -- A revert that fails, or is not read back, is not pushed.
          grant.goto (if outcome.reads then .waitRepush else .answered .unavailable))
    else some (shared, grant.goto .waitRepush)
  | .waitRepush =>
    if shared.policyPush ≠ none then none
    else
      some ({ shared with policyPush := some id }, grant.goto (.repushing shared.rows.members.keys))
  | .repushing keys =>
    some ({ shared with policyPush := none, core := if outcome = .ok then keys else shared.core },
      grant.goto (.answered .unavailable))
  | .answered _ => none

end Grant

namespace Revoke

def goto (revoke : Revoke Key) (pc : RevokePc) : Revoke Key :=
  { revoke with pc := pc }

/-- One step of `apply_revoke`. -/
def step (config : Config Key) (shared : Shared Key Hash)
    (revoke : Revoke Key) (outcome : Outcome) : Option (Shared Key Hash × Revoke Key) :=
  let event := revoke.event
  match revoke.pc with
  | .verify =>
    match event.verify config shared.clock with
    | some error => some (shared, revoke.goto (.answered (.refused error)))
    | none => some (shared, revoke.goto .commit)
  | .commit =>
    if shared.updates ≠ none then none
    else if (shared.rows.lastEventAt event.device).any fun last =>
        decide (event.createdAt ≤ last) then
      some (shared, revoke.goto (.answered (.conflict .newerEvent)))
    else if outcome = .failed then some (shared, revoke.goto (.answered .unavailable))
    else if shared.isUsed event.eventId then
      some (shared, revoke.goto (.answered (.conflict .usedEvent)))
    else
      some ({ shared.store (shared.rows.commitRevokeTo shared.db event.device event.createdAt
            shared.clock) outcome.reads with
          used := (event.eventId, event.expiresAt) :: shared.used },
        revoke.goto (.answered (if outcome.reads then .revoked else .unavailable)))
  | .answered _ => none

end Revoke

/-! ## Sweeps -/

inductive SweepPc (Key Hash : Type)
  | lock
  | restore (due : List Key)
  | restoring (key : Key) (todo : List (Moved Key Hash)) (due : List Key)
  | move (ended : List (Key × Member Key))
  | listing (key : Key) (member : Member Key) (ended : List (Key × Member Key))
  | moving (key : Key) (member : Member Key) (page : List (Key × Hash))
      (full : Bool) (ended : List (Key × Member Key))
  | commit
  | waitPush
  | pushing (keys : List Key)
  | putBack
  | done

/-- `now` and `snapshot` are taken under the lock; `attempted` are the claims
of the key in hand that `transfer` has tried; `transferred` are the keys whose
transfer came to its end. -/
structure Sweep (Key Hash : Type) where
  now : ℕ := 0
  snapshot : Rows Key := ⟨∅, ∅, ∅⟩
  attempted : List (Key × Hash) := []
  transferred : List (Key × Member Key) := []
  pc : SweepPc Key Hash := .lock

def pageSize : ℕ := 100

namespace Sweep

def goto (sweep : Sweep Key Hash) (pc : SweepPc Key Hash) : Sweep Key Hash :=
  { sweep with pc := pc }

def adjusted (config : Config Key) (sweep : Sweep Key Hash) : List (Key × Member Key) :=
  sweep.snapshot.members.entries.filterMap fun entry =>
    match sweep.snapshot.activeLimit config sweep.now entry.1 with
    | some limit =>
      if limit ≠ entry.2.byteLimit then
        some (entry.1, { entry.2 with byteLimit := limit })
      else none
    | none => none

/-- The members none of whose grants is active. -/
def ended (config : Config Key) (sweep : Sweep Key Hash) : List (Key × Member Key) :=
  (sweep.snapshot.members.entries.filter fun entry =>
    !sweep.snapshot.keyActive config sweep.now entry.1).map fun entry =>
      (entry.1, entry.2)

/-- The removed members that a put-back writes; no one looks at the errors of
its writes. -/
def landed (sweep : Sweep Key Hash) : Outcome → List (Key × Member Key)
  | .failed => []
  | .partly landed _ =>
    ((sweep.transferred.zip landed).filter fun written => written.2).map Prod.fst
  | _ => sweep.transferred

/-- One step of `sweep_locked`, with `restore` and `transfer` inside it, and of
`finish_sweep`. -/
def step (config : Config Key) (shared : Shared Key Hash) (id : ℕ)
    (sweep : Sweep Key Hash) (outcome : Outcome) : Option (Shared Key Hash × Sweep Key Hash) :=
  match sweep.pc with
  | .lock =>
    if shared.updates ≠ none then none
    else
      some ({ shared with updates := some id, restoreDue := [] },
        { sweep with
          now := shared.clock
          snapshot := shared.rows
          transferred := []
          pc := .restore shared.restoreDue })
  | .restore [] => some (shared, sweep.goto (.move (sweep.ended config)))
  | .restore (key :: due) =>
    match sweep.snapshot.members.lookup key with
    | none => some (shared, sweep.goto (.restore due))
    | some member =>
      if sweep.snapshot.keyActive config sweep.now key then
        some (shared, sweep.goto (.restoring key
          (shared.moved.filter fun moved =>
            moved.key = key ∧ moved.owner = member.issuer) due))
      else some (shared, sweep.goto (.restore due))
  | .restoring _ [] due => some (shared, sweep.goto (.restore due))
  | .restoring key (moved :: todo) due =>
    match outcome with
    | .ok =>
      some ({ shared with
          claims := (key, moved.hash) :: shared.claims
          moved := shared.moved.erase moved },
        sweep.goto (.restoring key todo due))
    | .refused =>
      some ({ shared with moved := shared.moved.erase moved }, sweep.goto (.restoring key todo due))
    | .overLimit => some (shared, sweep.goto (.restoring key todo due))
    | .failed | .unread | .partly _ _ =>
      some ({ shared with restoreDue := key :: shared.restoreDue }, sweep.goto (.restore due))
    | .failedAfter =>
      some ({ shared with
          claims := (key, moved.hash) :: shared.claims
          restoreDue := key :: shared.restoreDue },
        sweep.goto (.restore due))
  | .move [] => some (shared, sweep.goto .commit)
  | .move ((key, member) :: ended) =>
    if shared.inFlight key = 0 then
      some (shared, { sweep with attempted := [], pc := .listing key member ended })
    else some (shared, sweep.goto (.move ended))
  | .listing key member ended =>
    -- The cursor has passed the claims that stayed.
    let page := (shared.claims.filter fun claim =>
      claim.1 = key ∧ claim ∉ sweep.attempted).take pageSize
    some (shared, sweep.goto (.moving key member page (decide (page.length = pageSize)) ended))
  | .moving key member [] full ended =>
    if full then some (shared, sweep.goto (.listing key member ended))
    else
      some (shared,
        { sweep with transferred := sweep.transferred ++ [(key, member)], pc := .move ended })
  | .moving key member (claim :: page) full ended =>
    let tried := { sweep with attempted := claim :: sweep.attempted }
    let record : Moved Key Hash := ⟨key, member.issuer, claim.2⟩
    match outcome with
    | .ok =>
      some ({ shared with
          claims := shared.claims.filter fun other => other ≠ claim
          moved := shared.moved.insert record },
        tried.goto (.moving key member page full ended))
    | .refused =>
      some ({ shared with moved := shared.moved.erase record },
        tried.goto (.moving key member page full ended))
    | .overLimit | .failed | .unread | .partly _ _ =>
      some (shared, sweep.goto (.move ended))
    | .failedAfter =>
      some ({ shared with moved := shared.moved.insert record }, sweep.goto (.move ended))
  | .commit =>
    let adjusted := sweep.adjusted config
    if sweep.transferred = [] ∧ adjusted = [] then
      some ({ shared with updates := none }, sweep.goto .done)
    else if outcome = .failed then some ({ shared with updates := none }, sweep.goto .done)
    else
      let removed := sweep.transferred.foldl
        (fun rows entry => rows.deleteMember entry.1) shared.db
      some ({ shared.store
            (adjusted.foldl (fun rows entry => rows.writeMember entry.1 entry.2) removed)
            outcome.reads with
          updates := none
          restoreDue := adjusted.map Prod.fst ++ shared.restoreDue },
        sweep.goto (if outcome.reads then .waitPush else .done))
  | .waitPush =>
    if shared.policyPush ≠ none then none
    else
      some ({ shared with policyPush := some id }, sweep.goto (.pushing shared.rows.members.keys))
  | .pushing keys =>
    if outcome = .ok then
      some ({ shared with policyPush := none, core := keys }, sweep.goto .done)
    else
      some ({ shared with policyPush := none }, sweep.goto .putBack)
  | .putBack =>
    if shared.updates ≠ none then none
    else
      some (shared.store
          ((sweep.landed outcome).foldl
            (fun rows entry =>
              if (shared.rows.members.lookup entry.1).isSome then rows
              else rows.writeMember entry.1 entry.2) shared.db) outcome.reads,
        sweep.goto .done)
  | .done => none

end Sweep

/-! ## Delegated writes -/

inductive WritePc
  | gate
  | count
  | check
  | land (counted : Bool)
  | finish
  | done
deriving DecidableEq

structure Write (Key Hash : Type) where
  key : Key
  hash : Hash
  pc : WritePc := .gate

namespace Write

def goto (write : Write Key Hash) (pc : WritePc) : Write Key Hash :=
  { write with pc := pc }

/-- One step of a write through `gate`.  A key the node does not know goes to
the core uncounted.  The core makes a friend claim when it lists the key. -/
def step (config : Config Key) (shared : Shared Key Hash)
    (write : Write Key Hash) (outcome : Outcome) : Option (Shared Key Hash × Write Key Hash) :=
  match write.pc with
  | .gate =>
    some (shared, write.goto (if shared.rows.knows write.key then .count else .land false))
  | .count =>
    some ({ shared with
        inFlight := Function.update shared.inFlight write.key
          (shared.inFlight write.key + 1) },
      write.goto .check)
  | .check =>
    some (shared, write.goto
      (if shared.rows.keyActive config shared.clock write.key then .land true
        else .finish))
  | .land counted =>
    some (if outcome = .ok ∧ write.key ∈ shared.core then
        { shared with claims := (write.key, write.hash) :: shared.claims }
      else shared,
      write.goto (if counted then .finish else .done))
  | .finish =>
    some ({ shared with
        inFlight := Function.update shared.inFlight write.key
          (shared.inFlight write.key - 1) },
      write.goto .done)
  | .done => none

end Write

/-! ## Runs -/

inductive Request (Key Hash : Type)
  | grant (work : Grant Key)
  | revoke (work : Revoke Key)
  | sweep (work : Sweep Key Hash)
  | write (work : Write Key Hash)

def Request.step (config : Config Key) (group : Key → Bool)
    (shared : Shared Key Hash) (id : ℕ) (outcome : Outcome) :
    Request Key Hash → Option (Shared Key Hash × Request Key Hash)
  | .grant work =>
    (work.step config group shared id outcome).map fun next =>
      (next.1, .grant next.2)
  | .revoke work =>
    (work.step config shared outcome).map fun next => (next.1, .revoke next.2)
  | .sweep work =>
    (work.step config shared id outcome).map fun next =>
      (next.1, .sweep next.2)
  | .write work =>
    (work.step config shared outcome).map fun next =>
      (next.1, .write next.2)

abbrev State (Key Hash : Type) := Pool (Shared Key Hash) (Request Key Hash)

inductive Action (Key Hash : Type)
  | tick (seconds : ℕ)
  | grant (event : GrantEvent Key)
  | revoke (event : RevokeEvent Key)
  | sweep
  | write (key : Key) (hash : Hash)
  | advance (id : ℕ) (outcome : Outcome)
  | prune
  | deleteClaim (key : Key) (hash : Hash)
  | releaseMove (key : Key) (hash : Hash)

/-- `group` are the keys of groups, which can never be delegated. -/
def step (config : Config Key) (group : Key → Bool)
    (state : State Key Hash) : Action Key Hash → Option (State Key Hash)
  | .tick seconds =>
    some { state with shared := { state.shared with clock := state.shared.clock + seconds } }
  | .grant event => some (state.start (.grant { event := event }))
  | .revoke event => some (state.start (.revoke { event := event }))
  | .sweep => some (state.start (.sweep {}))
  | .write key hash =>
    some (state.start (.write { key := key, hash := hash }))
  | .advance id outcome =>
    (state.requests id).bind fun request =>
      (request.step config group state.shared id outcome).map (state.put id)
  | .prune =>
    some { state with
      shared :=
        { state.shared with
          used := state.shared.used.filter fun used =>
            state.shared.clock ≤ used.2 } }
  -- A key's claim goes away, and what it frees may let hand-backs fit.
  | .deleteClaim key hash =>
    some { state with
      shared :=
        { state.shared with
          claims := state.shared.claims.filter fun claim =>
            claim ≠ (key, hash)
          restoreDue := key :: state.shared.restoreDue } }
  | .releaseMove key hash =>
    some { state with
      shared :=
        { state.shared with
          moved := state.shared.moved.filter fun moved =>
            ¬(moved.key = key ∧ moved.hash = hash)
          restoreDue := key :: state.shared.restoreDue } }

def State.initial (clock : ℕ) (rows : Rows Key) (core : List Key)
    (claims : List (Key × Hash)) (moved : List (Moved Key Hash)) : State Key Hash where
  shared :=
    { clock := clock
      db := rows
      rows := rows
      used := []
      updates := none
      policyPush := none
      core := core
      restoreDue := []
      inFlight := fun _ => 0
      claims := claims
      moved := moved }
  requests := fun _ => none
  started := 0

/-! ## A node with one owner -/

def singleOwner : Config ℕ := ⟨[1], [], []⟩

/-- Owner 1 grants to `device` with recovery key 20, for an hour. -/
def hourGrant (device createdAt eventId : ℕ) : GrantEvent ℕ :=
  { owner := 1, device := device, recovery := 20, byteLimit := 5
    untilTime := 3600, createdAt := createdAt, expiresAt := 500
    eventId := eventId }

end DeviceGrants
end Wildbloom
