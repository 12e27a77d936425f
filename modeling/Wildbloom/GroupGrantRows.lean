import Wildbloom.KeyedTables
import Mathlib.Data.List.MinMax

/-!
# The rows of group grants

A keeper signs grants, renewals, revocations and resets for the devices of its
rooms.  `GroupRows` is what a node keeps of them: the newest event of each grant
id, the reset floor of each group, and the group of each device key.

`evaluate` decides about one event against the rows and plans what to write.
Writes follow the SQL of the source: a conflict on a grant keeps the room, the
device and the server of the row that is there, and a conflict on a key keeps
its group.
-/

namespace Wildbloom
namespace GroupGrants

open KeyedTables

inductive Scope
  | upload
  | get
  | delete
  | purge
  | turn
  | relayRead
  | relayWrite
deriving DecidableEq

variable (Key : Type)

structure GroupKey where
  keeper : Key
  room : Key
  byteLimit : Option ℕ
deriving DecidableEq

structure GroupGrantRow where
  keeper : Key
  grantId : Key
  room : Key
  device : Key
  server : Key
  scopes : List Scope
  bytes : Option ℕ
  active : Bool
  createdAt : ℕ
  expiration : ℕ
  /-- The latest expiration that any accepted event for the id carried. -/
  retainUntil : ℕ
  revokedAt : Option ℕ
  eventId : Key
deriving DecidableEq

structure Floor where
  createdAt : ℕ
  expiresAt : ℕ
  eventId : Key
deriving DecidableEq

/-- Grants by keeper and id, floors by keeper and room, keys by device. -/
structure GroupRows where
  grants : AList (fun _ : Key × Key => GroupGrantRow Key) := ∅
  floors : AList (fun _ : Key × Key => Floor Key) := ∅
  keys : AList (fun _ : Key => GroupKey Key) := ∅

def selfDeleteGrace : ℕ := 7 * 24 * 60 * 60

def maxGrantSeconds : ℕ := 90 * 24 * 60 * 60

def floorRetention : ℕ := maxGrantSeconds

def futureSkew : ℕ := 30

def maxBytes : ℕ := 2 ^ 63 - 1

variable {Key}

def GroupGrantRow.group (row : GroupGrantRow Key) : Key × Key :=
  (row.keeper, row.room)

def GroupKey.group (key : GroupKey Key) : Key × Key :=
  (key.keeper, key.room)

section Rows

variable [DecidableEq Key]

/-! ## Reads -/

namespace GroupRows

def rows (rows : GroupRows Key) : List (GroupGrantRow Key) :=
  values rows.grants

variable (rows : GroupRows Key) (enrolled : Key → Bool) (now : ℕ) (row : GroupGrantRow Key)

def rowsFor (device : Key) : List (GroupGrantRow Key) :=
  rows.rows.filter fun row => row.device = device

def coveringFloor : Option (Floor Key) :=
  (rows.floors.lookup row.group).filter fun floor =>
    decide (row.createdAt ≤ floor.createdAt)

def covered : Bool :=
  (rows.coveringFloor row).isSome

def isActive : Bool :=
  row.active && decide (now < row.expiration) && !rows.covered row && enrolled row.keeper

/-- The first of the revocation, the covering reset and the expiration; `none`
while the grant is still running. -/
def endedAt : Option ℕ :=
  (row.revokedAt.toList ++ ((rows.coveringFloor row).map (·.createdAt)).toList ++
    if row.expiration ≤ now then [row.expiration] else []).min?

def activeFor (device : Key) : Option (GroupGrantRow Key) :=
  (rows.rowsFor device).find? (rows.isActive enrolled now)

def inGrace (scope : Scope) (device : Key) : Bool :=
  (rows.rowsFor device).any fun row =>
    decide (scope ∈ row.scopes) && enrolled row.keeper &&
      (rows.endedAt now row).any fun ended =>
        decide (now < ended + selfDeleteGrace)

/-- Where the first active grant put the key, or where a retained row names
it. -/
def groupOf (device : Key) : Option (Key × Key) :=
  ((rows.keys.lookup device).map GroupKey.group).orElse fun _ =>
    (rows.rowsFor device).head?.map GroupGrantRow.group

/-! ## Writes -/

def writeGrant : GroupRows Key :=
  { rows with
    grants := rows.grants.insert (row.keeper, row.grantId)
      (match rows.grants.lookup (row.keeper, row.grantId) with
      | some old =>
        { row with room := old.room, device := old.device, server := old.server }
      | none => row) }

def writeFloor (group : Key × Key) (floor : Floor Key) : GroupRows Key :=
  { rows with floors := rows.floors.insert group floor }

def writeKey (device : Key) (key : GroupKey Key) : GroupRows Key :=
  { rows with
    keys := rows.keys.insert device
      (match rows.keys.lookup device with
      | some old => { old with byteLimit := key.byteLimit }
      | none => key) }

/-- Drop the grants whose every version and grace have passed and the floors
that no event could still be refused by. -/
def prune : GroupRows Key :=
  { rows with
    grants := keepEntries (fun row => decide ¬(row.retainUntil < now - selfDeleteGrace)) rows.grants
    floors := keepEntries
      (fun floor => decide ¬(floor.expiresAt < now)) rows.floors }

end GroupRows

end Rows

/-! ## Events -/

structure Terms (Key : Type) where
  grantId : Key
  room : Key
  device : Key
  server : Key
  scopes : List Scope
  bytes : Option ℕ
  revoked : Bool
deriving DecidableEq

inductive Body (Key : Type)
  | grant (terms : Terms Key)
  | reset (room server : Key)
deriving DecidableEq

structure GroupEvent (Key : Type) where
  id : Key
  keeper : Key
  createdAt : ℕ
  expiration : ℕ
  body : Body Key
deriving DecidableEq

namespace GroupEvent

def room (event : GroupEvent Key) : Key :=
  match event.body with
  | .grant terms => terms.room
  | .reset room _ => room

def server (event : GroupEvent Key) : Key :=
  match event.body with
  | .grant terms => terms.server
  | .reset _ server => server

end GroupEvent

inductive Refusal
  | malformed
  | lifetime
  | keeper
  | server
  | future
  | expired
  | keyConflict
  | floor
  | scopeChanged
  | stale
  | revoked
  | scopeTaken
  | rate
  | unavailable
deriving DecidableEq

section Evaluate

variable [DecidableEq Key]

/-- The rules about tags that relate values to one another; `parse` refuses
what breaks them before anything else. -/
def Body.wellFormed (keeper : Key) : Body Key → Bool
  | .grant terms =>
    decide (terms.device ≠ keeper) && decide (terms.scopes ≠ []) &&
      decide terms.scopes.Nodup &&
      decide (.upload ∈ terms.scopes ↔ terms.bytes.isSome) &&
      terms.bytes.all fun limit => decide (0 < limit ∧ limit ≤ maxBytes)
  | .reset _ _ => true

def GroupEvent.parse (event : GroupEvent Key) : Option Refusal :=
  if ¬ event.body.wellFormed event.keeper then some .malformed
  else if event.expiration ≤ event.createdAt ∨
      maxGrantSeconds < event.expiration - event.createdAt then
    some .lifetime
  else none

/-- `enrolments` are the rooms of each enrolled keeper; none named means all.
-/
def screenGroupEvent (enrolments : Key → Option (List Key))
    (hosts : List Key) (now : ℕ) (event : GroupEvent Key) : Option Refusal :=
  event.parse.orElse fun _ =>
    if (enrolments event.keeper).all fun rooms =>
        decide (rooms ≠ [] ∧ event.room ∉ rooms) then
      some .keeper
    else if event.server ∉ hosts then some .server
    else if now + futureSkew < event.createdAt then some .future
    else if event.expiration ≤ now then some .expired
    else none

inductive Standing
  | active
  | revoked
  | reset
deriving DecidableEq

structure Accepted where
  created : Bool
  state : Standing
deriving DecidableEq

structure Plan (Key : Type) where
  accepted : Accepted
  grant : Option (GroupGrantRow Key) := none
  floor : Option ((Key × Key) × Floor Key) := none
  key : Option (Key × GroupKey Key) := none
deriving DecidableEq

def Plan.unchanged (state : Standing) : Plan Key where
  accepted := ⟨false, state⟩

def Plan.writesNothing (plan : Plan Key) : Bool :=
  plan.grant.isNone && plan.floor.isNone

/-- `authority` are the owner, friend, service and device-grant keys. -/
def groupKeyConflict (enrolled authority : Key → Bool) (rows : GroupRows Key)
    (group : Key × Key) (device : Key) : Bool :=
  authority device || enrolled device ||
    (rows.keys.lookup device).any (fun key => decide (key.group ≠ group)) ||
    (rows.rowsFor device).any fun row => decide (row.group ≠ group)

variable (rows : GroupRows Key) (event : GroupEvent Key) (terms : Terms Key)

def GroupEvent.floor : Floor Key where
  createdAt := event.createdAt
  expiresAt := event.createdAt + floorRetention
  eventId := event.id

def resetPlan (room : Key) : Plan Key where
  accepted := ⟨true, .reset⟩
  floor := some ((event.keeper, room), event.floor)

def evaluateReset (room : Key) : Except Refusal (Plan Key) :=
  match rows.floors.lookup (event.keeper, room) with
  | some floor =>
    if floor.eventId = event.id then .ok (.unchanged .reset)
    else if event.createdAt ≤ floor.createdAt then .error .stale
    else .ok (resetPlan event room)
  | none => .ok (resetPlan event room)

/-- One id, one room, device and node; strictly newer; revoked is final. -/
def checkExisting (row : GroupGrantRow Key) : Option (Except Refusal (Plan Key)) :=
  if row.eventId = event.id then
    some (.ok (.unchanged (if row.active then .active else .revoked)))
  else if ¬(row.room = terms.room ∧ row.device = terms.device ∧ row.server = terms.server) then
    some (.error .scopeChanged)
  else if event.createdAt ≤ row.createdAt then some (.error .stale)
  else if ¬row.active ∧ ¬terms.revoked then some (.error .revoked)
  else none

def grantRow (existing : Option (GroupGrantRow Key)) (event : GroupEvent Key)
    (terms : Terms Key) : GroupGrantRow Key where
  keeper := event.keeper
  grantId := terms.grantId
  room := terms.room
  device := terms.device
  server := terms.server
  scopes := terms.scopes
  bytes := terms.bytes
  active := !terms.revoked
  createdAt := event.createdAt
  expiration := event.expiration
  retainUntil := (existing.map fun row =>
    max row.retainUntil event.expiration).getD event.expiration
  revokedAt :=
    if terms.revoked then
      some ((existing.bind (·.revokedAt)).getD event.createdAt)
    else none
  eventId := event.id

/-- A key keeps the ceiling of the newest grant that carried one. -/
def groupKey (known : Option (GroupKey Key)) (event : GroupEvent Key)
    (terms : Terms Key) : GroupKey Key where
  keeper := event.keeper
  room := terms.room
  byteLimit := terms.bytes.orElse fun _ => known.bind (·.byteLimit)

def grantPlan : Plan Key :=
  let known := rows.keys.lookup terms.device
  let key := groupKey known event terms
  { accepted := ⟨true, if terms.revoked then .revoked else .active⟩
    grant := some (grantRow (rows.grants.lookup (event.keeper, terms.grantId)) event terms)
    key :=
      if ¬terms.revoked ∧ known ≠ some key then some (terms.device, key)
      else none }

def evaluateGroupEvent (enrolled authority : Key → Bool)
    (rows : GroupRows Key) (event : GroupEvent Key) (now : ℕ) : Except Refusal (Plan Key) :=
  match event.body with
  | .reset room _ => evaluateReset rows event room
  | .grant terms =>
    let group := (event.keeper, terms.room)
    if groupKeyConflict enrolled authority rows group terms.device then
      .error .keyConflict
    else if (rows.floors.lookup group).any fun floor =>
        decide (event.createdAt ≤ floor.createdAt) then
      .error .floor
    else
      match (rows.grants.lookup (event.keeper, terms.grantId)).bind (checkExisting event terms) with
      | some decided => decided
      | none =>
        -- One active grant for each device in a group.
        if ¬terms.revoked ∧ (rows.rowsFor terms.device).any fun other =>
            decide (other.grantId ≠ terms.grantId) &&
              decide (other.group = group) &&
              rows.isActive enrolled now other then
          .error .scopeTaken
        else .ok (grantPlan rows event terms)

def GroupRows.write (plan : Plan Key) : GroupRows Key :=
  let granted := plan.grant.elim rows rows.writeGrant
  let floored := plan.floor.elim granted fun entry =>
    granted.writeFloor entry.1 entry.2
  plan.key.elim floored fun entry => floored.writeKey entry.1 entry.2

/-! ## The core's friend set -/

inductive CoreGrantId (Key : Type)
  | friend (id : Key)
  | device (key : Key)
  | group (keeper room : Key)
deriving DecidableEq

structure FriendGrant (Key : Type) where
  pubkey : Key
  byteLimit : ℕ
  grantId : CoreGrantId Key
  issuer : Option Key
deriving DecidableEq

def friendGrant (device : Key) (key : GroupKey Key) : Option (FriendGrant Key) :=
  key.byteLimit.map fun limit =>
    { pubkey := device
      byteLimit := limit
      grantId := .group key.keeper key.room
      issuer := some key.keeper }

def GroupRows.groupFriendGrants : List (FriendGrant Key) :=
  rows.keys.entries.filterMap fun entry => friendGrant entry.1 entry.2

/-- The friend set as it will be once the change is committed. -/
def GroupRows.projectedFriendGrants (change : Key × GroupKey Key) : List (FriendGrant Key) :=
  rows.groupFriendGrants.filter (fun grant => grant.pubkey ≠ change.1) ++
    (friendGrant change.1 change.2).toList

end Evaluate

end GroupGrants
end Wildbloom
