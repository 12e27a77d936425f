import Wildbloom.GroupGateModel
import Wildbloom.RequestTables
import Wildbloom.SortedTables

/-!
# The delegated claim lifecycle

A key that holds claims under a device grant hands them to its owner when the
grant ends (`transfer`), gets them back when it is granted again (`restore`),
and may delete one that was not handed back yet (`release`).  A record of each
move says whether the owner claim on the blob is the owner's own, so that the
hand-back drops only owner claims that moves created.

A section under the database lock calls the store once, so it is one step here.
An owner's write reads the clock, waits for the lock, marks its hashes and lands
in the core.  `own` and `drops` are not in the source: they record which owner
claims are the owner's own and which owner claims were dropped.
-/

namespace Wildbloom
namespace OwnerClaims

open GroupGate (Store)
open Runs

/-- Seconds an owner's write may take from its mark to its claim. -/
def ownerWriteWindow : ℕ := 3600

def pageSize : ℕ := 100

def movedPageSize : ℕ := 500

/-- A record of `moved_claims`; there is one for a key and a hash. -/
structure MovedClaim (Key Hash : Type) where
  key : Key
  hash : Hash
  owner : Key
  independent : Bool
  adopted : Bool
  movedAt : ℕ
deriving DecidableEq

def MovedClaim.ownerClaimIsOurs {Key Hash : Type} (record : MovedClaim Key Hash) : Bool :=
  !record.independent && !record.adopted

structure Database (Key Hash : Type) where
  moves : List (MovedClaim Key Hash)
  ownerWrites : Key → Hash → Option ℕ

structure OtherMoves where
  count : ℕ
  independent : Bool
  adopted : Bool

namespace Database

variable {Key Hash : Type} [DecidableEq Key] [LinearOrder Hash]

variable (db : Database Key Hash) (owner key : Key) (hash : Hash)

def markOwnerWrite (now : ℕ) : Database Key Hash where
  ownerWrites := Function.update db.ownerWrites owner
    (Function.update (db.ownerWrites owner) hash (some now))
  moves := db.moves.map fun record =>
    if record.owner = owner ∧ record.hash = hash then
      { record with adopted := true }
    else record

def recentOwnerWrite (since : ℕ) : Bool :=
  (db.ownerWrites owner hash).any fun at_ => decide (since ≤ at_)

def movedRow : Option (MovedClaim Key Hash) :=
  db.moves.find? fun record => record.key = key ∧ record.hash = hash

def otherRows (except : Key) : List (MovedClaim Key Hash) :=
  db.moves.filter fun record =>
    record.owner = owner ∧ record.hash = hash ∧ record.key ≠ except

def otherMoves (except : Key) : OtherMoves where
  count := (db.otherRows owner hash except).length
  independent := (db.otherRows owner hash except).any (·.independent)
  adopted := (db.otherRows owner hash except).any (·.adopted)

def insertMove (record : MovedClaim Key Hash) : Database Key Hash :=
  match db.movedRow record.key record.hash with
  | some _ => db
  | none => { db with moves := db.moves ++ [record] }

def forgetMove : Database Key Hash :=
  { db with moves := db.moves.filter fun record => ¬ (record.key = key ∧ record.hash = hash) }

def movedPage (key owner : Key) (after : Option Hash) (limit : ℕ) : List Hash :=
  (((db.moves.filter fun record =>
      record.key = key ∧ record.owner = owner ∧
        after.all fun last => decide (last < record.hash)).map
    (·.hash)).insertionSort (· ≤ ·)).take limit

def prune (now : ℕ) : Database Key Hash :=
  { db with
    ownerWrites := fun owner hash =>
      (db.ownerWrites owner hash).filter fun at_ =>
        decide (now - ownerWriteWindow ≤ at_) }

end Database

/-! ## The shared state -/

structure Drop (Key Hash : Type) where
  owner : Key
  hash : Hash
  own : Bool

structure Shared (Key Hash : Type) where
  clock : ℕ
  store : Store Key Hash
  db : Database Key Hash
  own : List (Key × Hash)
  drops : List (Drop Key Hash)

variable {Key Hash : Type} [DecidableEq Key] [LinearOrder Hash]

namespace Shared

variable (shared : Shared Key Hash) (key : Key) (hash : Hash)

def deleteClaim : Shared Key Hash :=
  { shared with
    store := (shared.store.deleteClaim key hash).1
    own := shared.own.filter fun claim => claim ≠ (key, hash) }

/-- A mirror-style claim on a stored blob creates or keeps the claim. -/
def beginClaimedMirror : Option (Shared Key Hash) :=
  if shared.store.get hash then
    some { shared with store := shared.store.addClaim key hash }
  else none

def forgetMove : Shared Key Hash :=
  { shared with db := shared.db.forgetMove key hash }

/-- Drop the owner claim a move created, unless it is the owner's own or
another key's move still relies on it, and forget the record. -/
def dropOwnerClaimIfOurs : Shared Key Hash :=
  match shared.db.movedRow key hash with
  | none => shared
  | some record =>
    if record.ownerClaimIsOurs ∧ (shared.db.otherMoves record.owner hash key).count = 0 then
      { shared.deleteClaim record.owner hash with
        drops := ⟨record.owner, hash, decide ((record.owner, hash) ∈ shared.own)⟩ :: shared.drops
      }.forgetMove key hash
    else shared.forgetMove key hash

def recordMove (key owner : Key) (hash : Hash) (now : ℕ) : Shared Key Hash :=
  match shared.db.movedRow key hash with
  | some _ => shared
  | none =>
    let others := shared.db.otherMoves owner hash key
    { shared with
      db := shared.db.insertMove
        { key := key
          hash := hash
          owner := owner
          independent := shared.store.holdsClaim owner hash &&
            (decide (others.count = 0) || others.independent)
          adopted := others.adopted ||
            shared.db.recentOwnerWrite owner hash (now - ownerWriteWindow)
          movedAt := now } }

end Shared

/-! ## The tasks -/

inductive Outcome
  | ok
  | refused
  | overLimit
  | failed
deriving DecidableEq

inductive WritePc
  | stamp
  | mark (now : ℕ)
  | land (marked : ℕ)
  | done
deriving DecidableEq

/-- An owner's upload or mirror: the hashes its event names, and the one the
core claims. -/
structure Write (Key Hash : Type) where
  owner : Key
  hashes : List Hash
  hash : Hash
  pc : WritePc := .stamp

inductive TransferPc (Hash : Type)
  | list
  | next
  | record (hash : Hash)
  | claim (hash : Hash)
  | forget (hash : Hash)
  | delete (hash : Hash)
  | done
deriving DecidableEq

/-- One pass over the claims of a key; `paid` are those left alone. -/
structure Transfer (Key Hash : Type) where
  key : Key
  owner : Key
  now : ℕ
  paid : List Hash
  attempted : List Hash := []
  cursor : Option Hash := none
  page : List Hash := []
  full : Bool := false
  pc : TransferPc Hash := .list

inductive RestorePc (Hash : Type)
  | page
  | next
  | check (hash : Hash)
  | claim (hash : Hash)
  | forget (hash : Hash)
  | drop (hash : Hash)
  | done
deriving DecidableEq

structure Restore (Key Hash : Type) where
  key : Key
  issuer : Key
  after : Option Hash := none
  page : List Hash := []
  pc : RestorePc Hash := .page

inductive PrunePc
  | stamp
  | prune (now : ℕ)
  | done
deriving DecidableEq

inductive Task (Key Hash : Type)
  | write (work : Write Key Hash)
  | transfer (work : Transfer Key Hash)
  | restore (work : Restore Key Hash)
  | prune (pc : PrunePc)

namespace Write

def goto (write : Write Key Hash) (pc : WritePc) : Write Key Hash :=
  { write with pc := pc }

/-- One step of an owner's write: `mark_owner_writes` reads the clock before
it waits for the database, and the core's claim lands within the window. -/
def step (shared : Shared Key Hash) (write : Write Key Hash)
    (outcome : Outcome) : Option (Shared Key Hash × Write Key Hash) :=
  match write.pc with
  | .stamp => some (shared, write.goto (.mark shared.clock))
  | .mark now =>
    some ({ shared with
        db := write.hashes.foldl
          (fun db hash => db.markOwnerWrite write.owner hash now) shared.db },
      write.goto (.land shared.clock))
  | .land marked =>
    if outcome = .ok then
      if shared.clock ≤ marked + ownerWriteWindow ∧ write.hash ∈ write.hashes then
        some ({ shared with
            store := shared.store.commit write.owner write.hash
            own := (write.owner, write.hash) :: shared.own },
          write.goto .done)
      else none
    else some (shared, write.goto .done)
  | .done => none

end Write

namespace Transfer

def goto (transfer : Transfer Key Hash) (pc : TransferPc Hash) : Transfer Key Hash :=
  { transfer with pc := pc }

def step (shared : Shared Key Hash) (transfer : Transfer Key Hash)
    (outcome : Outcome) : Option (Shared Key Hash × Transfer Key Hash) :=
  match transfer.pc with
  | .list =>
    match shared.store.listClaims transfer.key transfer.cursor pageSize with
    | none => some (shared, transfer.goto .done)
    | some page =>
      some (shared,
        { transfer with page := page, full := decide (page.length = pageSize), pc := .next })
  | .next =>
    match transfer.page with
    | [] =>
      some (shared, transfer.goto (if transfer.full then .list else .done))
    | hash :: rest =>
      -- Claims that stay only move the cursor.
      if hash ∈ transfer.paid ∨ hash ∈ transfer.attempted then
        some (shared, { transfer with page := rest, cursor := some hash })
      else
        some (shared,
          { transfer with
            page := rest
            attempted := hash :: transfer.attempted
            pc := .record hash })
  | .record hash =>
    some (shared.recordMove transfer.key transfer.owner hash transfer.now,
      transfer.goto (.claim hash))
  | .claim hash =>
    match outcome with
    | .ok =>
      match shared.beginClaimedMirror transfer.owner hash with
      | some after => some (after, transfer.goto (.delete hash))
      | none => some (shared, transfer.goto (.forget hash))
    | .refused => some (shared, transfer.goto (.forget hash))
    | .overLimit | .failed => some (shared, transfer.goto .done)
  | .forget hash =>
    some (shared.forgetMove transfer.key hash, transfer.goto .next)
  | .delete hash =>
    match outcome with
    | .failed => some (shared, transfer.goto .done)
    | .ok | .refused | .overLimit =>
      some (shared.deleteClaim transfer.key hash, transfer.goto .next)
  | .done => none

end Transfer

namespace Restore

def goto (restore : Restore Key Hash) (pc : RestorePc Hash) : Restore Key Hash :=
  { restore with pc := pc }

def step (shared : Shared Key Hash) (restore : Restore Key Hash)
    (outcome : Outcome) : Option (Shared Key Hash × Restore Key Hash) :=
  match restore.pc with
  | .page =>
    let page := shared.db.movedPage restore.key restore.issuer restore.after movedPageSize
    match page.getLast? with
    | none => some (shared, restore.goto .done)
    | some last =>
      some (shared, { restore with after := some last, page := page, pc := .next })
  | .next =>
    match restore.page with
    | [] => some (shared, restore.goto .page)
    | hash :: rest =>
      some (shared, { restore with page := rest, pc := .check hash })
  | .check hash =>
    some (shared, restore.goto
      (if shared.store.holdsClaim restore.issuer hash then .claim hash
        else .forget hash))
  | .claim hash =>
    match outcome with
    | .ok =>
      match shared.beginClaimedMirror restore.key hash with
      | some after => some (after, restore.goto (.drop hash))
      | none => some (shared, restore.goto (.forget hash))
    | .refused => some (shared, restore.goto (.forget hash))
    | .overLimit => some (shared, restore.goto .next)
    | .failed => some (shared, restore.goto .done)
  | .forget hash =>
    some (shared.forgetMove restore.key hash, restore.goto .next)
  | .drop hash =>
    some (shared.dropOwnerClaimIfOurs restore.key hash, restore.goto .next)
  | .done => none

end Restore

def PrunePc.step (shared : Shared Key Hash) : PrunePc → Option (Shared Key Hash × PrunePc)
  | .stamp => some (shared, .prune shared.clock)
  | .prune now => some ({ shared with db := shared.db.prune now }, .done)
  | .done => none

/-- An active key deletes a blob whose claim was moved to `owner`. -/
def Shared.release (shared : Shared Key Hash) (key owner : Key) (hash : Hash) : Shared Key Hash :=
  match shared.db.movedRow key hash with
  | some record =>
    if record.owner = owner then shared.dropOwnerClaimIfOurs key hash
    else shared
  | none => shared

def Task.step (shared : Shared Key Hash) (outcome : Outcome) :
    Task Key Hash → Option (Shared Key Hash × Task Key Hash)
  | .write work =>
    (work.step shared outcome).map fun next => (next.1, .write next.2)
  | .transfer work =>
    (work.step shared outcome).map fun next => (next.1, .transfer next.2)
  | .restore work =>
    (work.step shared outcome).map fun next => (next.1, .restore next.2)
  | .prune pc => (pc.step shared).map fun next => (next.1, .prune next.2)

def Task.interrupted : Task Key Hash → Task Key Hash
  | .write work => .write (work.goto .done)
  | .transfer work => .transfer (work.goto .done)
  | .restore work => .restore (work.goto .done)
  | .prune _ => .prune .done

/-! ## Runs -/

abbrev State (Key Hash : Type) := Pool (Shared Key Hash) (Task Key Hash)

/-- Besides the tasks, time passes, keys release and delete claims, and keys
make claims with their own uploads. -/
inductive Action (Key Hash : Type)
  | tick (seconds : ℕ)
  | write (owner : Key) (hashes : List Hash) (hash : Hash)
  | transfer (key owner : Key) (paid : List Hash)
  | restore (key issuer : Key)
  | prune
  | release (key owner : Key) (hash : Hash)
  | delete (key : Key) (hash : Hash)
  | upload (key : Key) (hash : Hash)
  | advance (id : ℕ) (outcome : Outcome)
  | interrupt (id : ℕ)

def step (state : State Key Hash) : Action Key Hash → Option (State Key Hash)
  | .tick seconds =>
    some { state with shared := { state.shared with clock := state.shared.clock + seconds } }
  | .write owner hashes hash =>
    some (state.start (.write { owner := owner, hashes := hashes, hash := hash }))
  | .transfer key owner paid =>
    some (state.start (.transfer
      { key := key, owner := owner, now := state.shared.clock, paid := paid }))
  | .restore key issuer =>
    some (state.start (.restore { key := key, issuer := issuer }))
  | .prune => some (state.start (.prune .stamp))
  | .release key owner hash =>
    some { state with shared := state.shared.release key owner hash }
  | .delete key hash =>
    some { state with shared := state.shared.deleteClaim key hash }
  | .upload key hash =>
    some { state with shared := { state.shared with store := state.shared.store.commit key hash } }
  | .advance id outcome =>
    (state.requests id).bind fun task =>
      (task.step state.shared outcome).map (state.put id)
  | .interrupt id =>
    (state.requests id).map fun task =>
      state.put id (state.shared, task.interrupted)

/-- A node over any store, with no move recorded; the owner claims that are
there are the owners' own. -/
def State.initial (clock : ℕ) (store : Store Key Hash) : State Key Hash where
  shared :=
    { clock := clock
      store := store
      db := { moves := [], ownerWrites := fun _ _ => none }
      own := store.claims
      drops := [] }
  requests := fun _ => none
  started := 0

end OwnerClaims
end Wildbloom
