import Mathlib

/-!
# The rows of device grants

An owner grants storage to a device key and a recovery key.  `Rows` is the
state a node keeps: the grants by device, the members of the core's trusted
set, and the times of revocations that came before any grant.  The functions
here are the ones of the source that read and write rows.
-/

namespace Wildbloom
namespace DeviceGrants

structure GrantRow (Key : Type) where
  device : Key
  recovery : Key
  issuer : Key
  byteLimit : ℕ
  untilTime : ℕ
  grantedAt : ℕ
  lastEventAt : ℕ
  revokedAt : Option ℕ := none
deriving DecidableEq

structure Member (Key : Type) where
  issuer : Key
  byteLimit : ℕ
  since : ℕ
deriving DecidableEq

structure Rows (Key : Type) where
  grants : AList (fun _ : Key => GrantRow Key)
  members : AList (fun _ : Key => Member Key)
  markers : AList (fun _ : Key => ℕ)

structure Config (Key : Type) where
  owners : List Key
  cli : List Key
  reserved : List Key

/-- A grant event with a good signature that names this server. -/
structure GrantEvent (Key : Type) where
  owner : Key
  device : Key
  recovery : Key
  byteLimit : ℕ
  untilTime : ℕ
  createdAt : ℕ
  expiresAt : ℕ
  eventId : ℕ
deriving DecidableEq

/-- A revoke event with a good signature that names this server. -/
structure RevokeEvent (Key : Type) where
  owner : Key
  device : Key
  createdAt : ℕ
  expiresAt : ℕ
  eventId : ℕ
deriving DecidableEq

inductive EventError
  | invalid
  | unauthorised
deriving DecidableEq

def GrantEvent.row {Key : Type} (event : GrantEvent Key) : GrantRow Key where
  device := event.device
  recovery := event.recovery
  issuer := event.owner
  byteLimit := event.byteLimit
  untilTime := event.untilTime
  grantedAt := event.createdAt
  lastEventAt := event.createdAt

inductive Conflict
  | otherRole
  | groupKey
  | otherOwner
  | bothRoles
  | recoveryOfOther
  | newerEvent
  | usedEvent
deriving DecidableEq

variable {Key : Type}

section Active

variable [DecidableEq Key]

/-! ## Verification of events -/

def maxEventLifetime : ℕ := 10 * 60

def futureSkew : ℕ := 30

def maxGrantSeconds : ℕ := 2 * 366 * 24 * 60 * 60

def maxByteLimit : ℕ := 2 ^ 63 - 1

section

variable (config : Config Key) (now : ℕ)

/-- What `verify` asks of the signer and the times of every event. -/
def verifySigned (owner : Key) (createdAt expiresAt : ℕ) : Option EventError :=
  if owner ∉ config.owners then some .unauthorised
  else if now + futureSkew < createdAt ∨ expiresAt ≤ now ∨
      expiresAt < createdAt ∨ maxEventLifetime < expiresAt - createdAt then
    some .unauthorised
  else none

def GrantEvent.verify (event : GrantEvent Key) : Option EventError :=
  if event.recovery = event.device ∨ event.byteLimit = 0 ∨ maxByteLimit < event.byteLimit then
    some .invalid
  else
    verifySigned config now event.owner event.createdAt event.expiresAt <|>
      if event.untilTime ≤ now ∨ event.untilTime ≤ event.createdAt ∨
          now + maxGrantSeconds < event.untilTime then
        some .invalid
      else none

def RevokeEvent.verify (event : RevokeEvent Key) : Option EventError :=
  verifySigned config now event.owner event.createdAt event.expiresAt

/-! ## Reads -/

def grantActive (row : GrantRow Key) : Bool :=
  row.revokedAt.isNone && decide (now < row.untilTime) && decide (row.issuer ∈ config.owners)

end

def GrantRow.names (row : GrantRow Key) (key : Key) : Bool :=
  decide (row.device = key) || decide (row.recovery = key)

namespace Rows

def rows (rows : Rows Key) : List (GrantRow Key) :=
  rows.grants.entries.map Sigma.snd

variable (rows : Rows Key) (config : Config Key) (now : ℕ)

def keyActive (key : Key) : Bool :=
  rows.rows.any fun row => row.names key && grantActive config now row

def knows (key : Key) : Bool :=
  (rows.members.lookup key).isSome || rows.rows.any fun row => row.names key

def activeLimit (key : Key) : Option ℕ :=
  ((rows.rows.filter fun row =>
    row.names key && grantActive config now row).map (·.byteLimit)).max?

def lastEventAt (device : Key) : Option ℕ :=
  max ((rows.grants.lookup device).map (·.lastEventAt)) (rows.markers.lookup device)

/-! ## Writes -/

def writeGrant (row : GrantRow Key) : Rows Key :=
  { rows with grants := rows.grants.insert row.device row }

def deleteGrant (device : Key) : Rows Key :=
  { rows with grants := rows.grants.erase device }

def writeMember (key : Key) (member : Member Key) : Rows Key :=
  { rows with
    members := rows.members.insert key
      { member with since := ((rows.members.lookup key).map (·.since)).getD member.since } }

def deleteMember (key : Key) : Rows Key :=
  { rows with members := rows.members.erase key }

def writeMarker (device : Key) (lastEventAt : ℕ) : Rows Key :=
  { rows with markers := rows.markers.insert device lastEventAt }

/-! ## Grants and revocations -/

def checkGrantConflicts (group : Key → Bool) (event : GrantEvent Key) : Option Conflict :=
  let keyConflict (key : Key) : Option Conflict :=
    if key ∈ config.owners ∨ key ∈ config.cli ∨ key ∈ config.reserved then
      some .otherRole
    else if group key then some .groupKey
    else if (rows.members.lookup key).any fun member =>
        decide (member.issuer ≠ event.owner) then
      some .otherOwner
    else none
  let rowConflict (row : GrantRow Key) : Option Conflict :=
    if row.device = event.device then none
    else if row.recovery = event.device ∨ row.device = event.recovery then
      some .bothRoles
    else if row.recovery = event.recovery ∧ row.issuer ≠ event.owner then
      some .recoveryOfOther
    else none
  keyConflict event.device <|> keyConflict event.recovery <|> rows.rows.findSome? rowConflict <|>
    if (rows.lastEventAt event.device).any fun last =>
        decide (event.createdAt ≤ last) then
      some .newerEvent
    else none

/-- Write the row of a grant and its two members to `db`.  The recovery key's
ceiling is the largest active grant that names it, this one included, among
the rows of the snapshot `rows`. -/
def commitGrantTo (db : Rows Key) (event : GrantEvent Key) : Rows Key :=
  let recoveryLimit :=
    ((rows.writeGrant event.row).activeLimit config now event.recovery).getD event.byteLimit
  ((db.writeGrant event.row).writeMember event.device
      { issuer := event.owner, byteLimit := event.byteLimit,
        since := now }).writeMember event.recovery
    { issuer := event.owner, byteLimit := recoveryLimit, since := now }

/-- A grant where the snapshot is as the database. -/
def commitGrant (event : GrantEvent Key) : Rows Key :=
  rows.commitGrantTo config now rows event

def restoreMember (key : Key) (member : Option (Member Key)) : Rows Key :=
  match member with
  | some member => rows.writeMember key member
  | none => rows.deleteMember key

def revert (device : Key) (previous : Option (GrantRow Key))
    (members : List (Key × Option (Member Key))) : Rows Key :=
  let reverted :=
    match previous with
    | some row => rows.writeGrant row
    | none => rows.deleteGrant device
  members.foldl (fun rows captured => rows.restoreMember captured.1 captured.2) reverted

/-- A revocation ends the device's grant, or leaves a marker where the
snapshot has none, so that an older grant posted later does not land. -/
def commitRevokeTo (db : Rows Key) (device : Key) (createdAt now : ℕ) : Rows Key :=
  match rows.grants.lookup device with
  | some row =>
    db.writeGrant { row with revokedAt := some now, lastEventAt := createdAt }
  | none => db.writeMarker device createdAt

def commitRevoke (device : Key) (createdAt now : ℕ) : Rows Key :=
  rows.commitRevokeTo rows device createdAt now

end Rows

end Active

end DeviceGrants
end Wildbloom
