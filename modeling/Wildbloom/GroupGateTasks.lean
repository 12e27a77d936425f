import Wildbloom.ClaimCache
import Wildbloom.GuardedRuns
import Wildbloom.GroupHoldings

/-!
# The requests of a group as tasks on claims

Each step of the gate is one move of the tasks of `ClaimCache`.  An upload or
a mirror that did not find its blob among the holdings is at risk until it has
proven its bytes, a claim made to keep is owed to the holdings until it is
recorded, and a DELETE removes the blob from the holdings after it has seen
that no device claims it.
-/

namespace Wildbloom
namespace GroupGate

open ClaimCache

variable {Key Hash : Type} [DecidableEq Key] [DecidableEq Hash] (config : Config Key Hash)

/-! ## The view of a state -/

namespace Cell

/-- The holdings a request finds when it gets the lock on the cell. -/
def ready (id : ℕ) : Cell Key Hash → Option (Holdings Hash)
  | .idle holdings => holdings
  | .rebuilding owner [] _ found => if owner = id then some found else none
  | .rebuilding _ (_ :: _) _ _ => none
  | .judging _ _ _ => none

/-- A mirror that is over the ceiling is about to remove its blob. -/
def known : Cell Key Hash → Set Hash
  | .idle none => ∅
  | .idle (some holdings) => {hash | holdings.contains hash = true}
  | .rebuilding _ _ _ found => {hash | found.contains hash = true}
  | .judging _ hash holdings =>
    {other | holdings.contains other = true ∧ other ≠ hash}

def unread : Cell Key Hash → Set (Key × Hash)
  | .idle none => {claim | claim.1 ∈ config.devices}
  | .idle (some _) => ∅
  | .rebuilding _ todo _ found =>
    {claim | claim.1 ∈ todo ∧ ¬ found.contains claim.2 = true}
  | .judging _ _ _ => ∅

def Unbuilt : Cell Key Hash → Prop
  | .idle none => True
  | .idle (some _) => False
  | .rebuilding _ _ _ _ => True
  | .judging _ _ _ => False

end Cell

def Upload.task (upload : Upload Key Hash) : Task Key Hash :=
  match upload.pc with
  | .lockReserved | .readTotal | .admitting _ | .judge | .lookup =>
    .riskUnless upload.held upload.signer upload.hash
  | .prove | .begin =>
    .riskUnless (upload.held || upload.proven) upload.signer upload.hash
  | .takeBack => .risk upload.signer upload.hash true
  | .record _ => .owes upload.signer upload.hash
  | .acquire | .check | .stream | .commit | .release _ | .answered _ => .none

def Mirror.task (mirror : Mirror Key Hash) : Task Key Hash :=
  match mirror.pc with
  | .forward => .riskUnless mirror.held mirror.signer mirror.hash
  | .verdict _ =>
    if mirror.held then .owes mirror.signer mirror.hash
    else .risk mirror.signer mirror.hash true
  | .overTakeBack => .risk mirror.signer mirror.hash true
  | .readReserved | .check | .overRemove | .answered _ => .none

def Delete.task (delete : Delete Key Hash) : Task Key Hash :=
  match delete.pc with
  | .deleting _ _ => .removing delete.hash config.devices
  | .recheck todo false _ => .removing delete.hash todo
  | .remove _ => .removing delete.hash []
  | .spend | .find _ _ _ | .recheck _ true _ | .answered _ => .none

namespace Request

def task : Request Key Hash → Task Key Hash
  | .upload work => work.task
  | .mirror work => work.task
  | .delete work => work.task config

/-- The claim an upload made to keep, with the deletions of it by then. -/
def kept : Request Key Hash → Option (Key × Hash × ℕ)
  | .upload work =>
    work.claimedAt.map fun count => (work.signer, work.hash, count)
  | .mirror _ | .delete _ => none

end Request

namespace State

variable (state : State Key Hash)

def tasks (id : ℕ) : Task Key Hash :=
  match state.requests id with
  | none => .none
  | some request => request.task config

/-- The claims that uploads made to keep and no DELETE deleted since. -/
def standing : Set (ℕ × Key × Hash) :=
  {claim | (state.requests claim.1).bind Request.kept = some (claim.2.1, claim.2.2,
      state.shared.deletions claim.2.1 claim.2.2)}

def view : View Key Hash ℕ where
  claims := {claim | claim ∈ state.shared.store.claims}
  known := state.shared.cell.known
  unread := state.shared.cell.unread config
  tasks := state.tasks config
  standing := state.standing

end State

/-! ## The delicate steps -/

variable (shared : Shared Key Hash) (id : ℕ)

/-- The label of an access to the holdings; while they are being built the
access reads pages of claims. -/
def accessLabel (label : Holdings Hash → Label Key Hash ℕ) : Label Key Hash ℕ :=
  match shared.cell.ready id with
  | some holdings => label holdings
  | none =>
    match shared.cell with
    | .rebuilding _ (device :: _) cursor _ =>
      match shared.store.listClaims device cursor pageSize with
      | some page => .list device page
      | none => .quiet
    | _ => .quiet

def Upload.label (upload : Upload Key Hash) (ok : Bool) : Label Key Hash ℕ :=
  match upload.pc with
  | .check =>
    accessLabel shared id fun _ =>
      .check id upload.signer upload.hash true
  | .readTotal => accessLabel shared id fun _ => .quiet
  | .begin =>
    if ok = true ∧ shared.store.get upload.hash = true then
      .claim id upload.signer upload.hash (upload.held || upload.proven)
        (upload.held || upload.proven)
    else .quiet
  | .commit =>
    if ok ∧ upload.length = config.size upload.hash then
      .claim id upload.signer upload.hash true true
    else .quiet
  | .record _ =>
    accessLabel shared id fun _ => .record id upload.signer upload.hash
  | _ => .quiet

def Mirror.label (mirror : Mirror Key Hash) (ok : Bool) : Label Key Hash ℕ :=
  match mirror.pc with
  | .check =>
    accessLabel shared id fun _ =>
      .check id mirror.signer mirror.hash mirror.named
  | .forward =>
    if ok then .claim id mirror.signer mirror.hash mirror.held false
    else .quiet
  | .verdict created =>
    if created = false ∧ mirror.held = false then .quiet
    else
      accessLabel shared id fun holdings =>
        if (mirror.judged config id holdings).2 then .overrun mirror.hash
        else .record id mirror.signer mirror.hash
  | _ => .quiet

def Delete.label (delete : Delete Key Hash) : Label Key Hash ℕ :=
  match delete.pc with
  | .recheck (key :: _) false _ => .look key delete.hash
  | .remove _ => accessLabel shared id fun _ => .quiet
  | _ => .quiet

def Request.label (ok : Bool) : Request Key Hash → Label Key Hash ℕ
  | .upload work => work.label config shared id ok
  | .mirror work => work.label config shared id ok
  | .delete work => work.label shared id

def State.label (state : State Key Hash) : Action Key Hash → Label Key Hash ℕ
  | .advance id ok =>
    match state.requests id with
    | some request => request.label config state.shared id ok
    | none => .quiet
  | _ => .quiet

end GroupGate
end Wildbloom
