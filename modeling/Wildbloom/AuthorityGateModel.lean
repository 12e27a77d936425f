import Wildbloom.GroupGateModel
import Wildbloom.RequestTables

/-!
# Reads, uploads and mirrors of an authority key

In group mode an owner, a friend or a device-grant key is an authority: the
core stores for it, and the gate only makes sure that the key has proven a
blob before it reads it or is waved through as holding it.  Here are
`group_read`, `group_upload` and `group_mirror` for such keys, one lock
acquisition or store call a step.

The core fetches and claims a mirrored blob in one step.  `vouched` and
`passes` are not in the source: they record which claims rest on bytes that
were read and hashed, and what the gate let through.
-/

namespace Wildbloom
namespace AuthorityGate

open GroupGate (Store)
open Runs

variable {Key Hash : Type}

structure Config (Key Hash : Type) where
  authorities : List Key
  size : Hash → ℕ

/-- A `GET` that was forwarded, or an upload that was forwarded because its
key holds the blob. -/
structure Pass (Key Hash : Type) where
  signer : Key
  hash : Hash
  vouched : Bool

structure Shared (Key Hash : Type) where
  store : Store Key Hash
  /-- How many mirrors mark the pair as unproven. -/
  marks : Key → Hash → ℕ
  /-- The claims that were there at the start or that were made with bytes
  read and hashed. -/
  vouched : List (Key × Hash)
  passes : List (Pass Key Hash)

section Shared

variable [DecidableEq Key] [DecidableEq Hash]

namespace Shared

variable (shared : Shared Key Hash) (key : Key) (hash : Hash)

def isUnproven : Bool :=
  decide (shared.marks key hash ≠ 0)

def setMarks (count : ℕ) : Shared Key Hash :=
  { shared with
    marks := Function.update shared.marks key
      (Function.update (shared.marks key) hash count) }

def markUnproven : Shared Key Hash :=
  shared.setMarks key hash (shared.marks key hash + 1)

def dropMark : Shared Key Hash :=
  shared.setMarks key hash (shared.marks key hash - 1)

def vouch : Shared Key Hash :=
  { shared with vouched := (key, hash) :: shared.vouched }

def deleteClaim : Shared Key Hash :=
  { shared with
    store := (shared.store.deleteClaim key hash).1
    vouched := shared.vouched.filter fun claim => claim ≠ (key, hash) }

def pass : Shared Key Hash :=
  { shared with passes := ⟨key, hash, decide ((key, hash) ∈ shared.vouched)⟩ :: shared.passes }

end Shared

end Shared

/-! ## The requests -/

inductive Answer
  | forwarded
  | stored (created : Bool)
  | mirrored (created : Bool)
  | absent
  | grantEnded
  | unauthorised
  | refusedByCore
  | busy
  | mismatch
  | wrongBlob
  | hungUp
deriving DecidableEq

inductive ReadPc
  | checkMark
  | lookUp
  | answered (answer : Answer)
deriving DecidableEq

structure Read (Key Hash : Type) where
  signer : Key
  hash : Hash
  pc : ReadPc := .checkMark

inductive UploadPc
  | probeMark
  | probeClaim
  | probeStored
  | checkGrant
  | authorise
  | judge
  | permit
  | prove
  | begin
  | stream
  | answered (answer : Answer)
deriving DecidableEq

/-- `proven` says that the gate read and hashed the bytes; the core then gets
an empty body. -/
structure Upload (Key Hash : Type) where
  signer : Key
  hash : Hash
  length : ℕ
  proven : Bool := false
  pc : UploadPc := .probeMark

inductive MirrorPc
  | probeMark
  | probeClaim
  | mark
  | forward
  | verdict (created : Bool)
  | unmark (answer : Answer)
  | answered (answer : Answer)
deriving DecidableEq

/-- `named` says whether the URL names the hash. -/
structure Mirror (Key Hash : Type) where
  signer : Key
  hash : Hash
  named : Bool
  held : Bool := false
  marked : Bool := false
  pc : MirrorPc := .probeMark

variable [DecidableEq Key] [DecidableEq Hash]

namespace Read

def goto (read : Read Key Hash) (pc : ReadPc) : Read Key Hash :=
  { read with pc := pc }

/-- One step of `group_read`: the mark is looked at first, the claim second. -/
def step (shared : Shared Key Hash) (read : Read Key Hash) :
    Option (Shared Key Hash × Read Key Hash) :=
  match read.pc with
  | .checkMark =>
    some (shared, read.goto
      (if shared.isUnproven read.signer read.hash then .answered .absent
        else .lookUp))
  | .lookUp =>
    if shared.store.holdsClaim read.signer read.hash then
      some (shared.pass read.signer read.hash, read.goto (.answered .forwarded))
    else some (shared, read.goto (.answered .absent))
  | .answered _ => none

end Read

namespace Upload

def goto (upload : Upload Key Hash) (pc : UploadPc) : Upload Key Hash :=
  { upload with pc := pc }

def check (upload : Upload Key Hash) (ok : Bool) (pc : UploadPc)
    (refusal : Answer) : Upload Key Hash :=
  upload.goto (if ok then pc else .answered refusal)

def delivered (upload : Upload Key Hash) : ℕ :=
  if upload.proven then 0 else upload.length

/-- One step of `group_upload`.  The body is proven when the key does not hold
the blob and the node has it; everything else the core decides. -/
def step (config : Config Key Hash) (shared : Shared Key Hash)
    (upload : Upload Key Hash) (ok : Bool) : Option (Shared Key Hash × Upload Key Hash) :=
  match upload.pc with
  | .probeMark =>
    some (shared, upload.goto
      (if shared.isUnproven upload.signer upload.hash then .probeStored
        else .probeClaim))
  | .probeClaim =>
    if shared.store.holdsClaim upload.signer upload.hash then
      some (shared.pass upload.signer upload.hash, upload.goto .begin)
    else some (shared, upload.goto .probeStored)
  | .probeStored =>
    some (shared, upload.goto (if shared.store.get upload.hash then .checkGrant else .begin))
  | .checkGrant => some (shared, upload.check ok .authorise .grantEnded)
  | .authorise => some (shared, upload.check ok .judge .unauthorised)
  | .judge => some (shared, upload.check ok .permit .refusedByCore)
  | .permit => some (shared, upload.check ok .prove .busy)
  | .prove =>
    if ok ∧ upload.length = config.size upload.hash then
      some (shared, { upload with proven := true, pc := .begin })
    else some (shared, upload.goto (.answered .mismatch))
  | .begin =>
    if ok then
      match shared.store.beginClaimedUpload upload.signer upload.hash with
      | some store =>
        some (if upload.proven then
            { shared with store := store }.vouch upload.signer upload.hash
          else { shared with store := store },
          upload.goto (.answered (.stored false)))
      | none => some (shared, upload.goto .stream)
    else some (shared, upload.goto (.answered .refusedByCore))
  | .stream =>
    if ok ∧ upload.delivered = config.size upload.hash then
      some ({ shared with store := shared.store.commit upload.signer upload.hash }.vouch
            upload.signer upload.hash,
        upload.goto (.answered (.stored true)))
    else some (shared, upload.goto (.answered .refusedByCore))
  | .answered _ => none

end Upload

namespace Mirror

def goto (mirror : Mirror Key Hash) (pc : MirrorPc) : Mirror Key Hash :=
  { mirror with pc := pc }

/-- One step of `group_mirror`.  Only a mirror that names its hash looks for a
claim and makes a mark; the mark is dropped after the verdict. -/
def step (shared : Shared Key Hash) (mirror : Mirror Key Hash) (ok : Bool) :
    Option (Shared Key Hash × Mirror Key Hash) :=
  match mirror.pc with
  | .probeMark =>
    some (shared, mirror.goto
      (if mirror.named = true ∧ shared.isUnproven mirror.signer mirror.hash = false then .probeClaim
        else .mark))
  | .probeClaim =>
    some (shared,
      { mirror with held := shared.store.holdsClaim mirror.signer mirror.hash, pc := .mark })
  | .mark =>
    if mirror.named = true ∧ mirror.held = false then
      some (shared.markUnproven mirror.signer mirror.hash,
        { mirror with marked := true, pc := .forward })
    else some (shared, mirror.goto .forward)
  | .forward =>
    if ok then
      let landed : Shared Key Hash :=
        { shared with store := shared.store.commit mirror.signer mirror.hash }
      if shared.store.get mirror.hash then
        some (landed, mirror.goto (.verdict false))
      else
        some (landed.vouch mirror.signer mirror.hash, mirror.goto (.verdict true))
    else some (shared, mirror.goto (.unmark .refusedByCore))
  | .verdict created =>
    if created = false ∧ mirror.held = false then
      some (shared.deleteClaim mirror.signer mirror.hash, mirror.goto (.unmark .wrongBlob))
    else some (shared, mirror.goto (.unmark (.mirrored created)))
  | .unmark answer =>
    if mirror.marked then
      some (shared.dropMark mirror.signer mirror.hash,
        { mirror with marked := false, pc := .answered answer })
    else some (shared, mirror.goto (.answered answer))
  | .answered _ => none

end Mirror

inductive Request (Key Hash : Type)
  | read (work : Read Key Hash)
  | upload (work : Upload Key Hash)
  | mirror (work : Mirror Key Hash)

inductive Order (Key Hash : Type)
  | read (signer : Key) (hash : Hash)
  | upload (signer : Key) (hash : Hash) (length : ℕ)
  | mirror (signer : Key) (hash : Hash) (named : Bool)

omit [DecidableEq Key] [DecidableEq Hash] in
def Order.request : Order Key Hash → Request Key Hash
  | .read signer hash => .read { signer := signer, hash := hash }
  | .upload signer hash length =>
    .upload { signer := signer, hash := hash, length := length }
  | .mirror signer hash named =>
    .mirror { signer := signer, hash := hash, named := named }

namespace Request

omit [DecidableEq Key] [DecidableEq Hash] in
def signer : Request Key Hash → Key
  | .read work => work.signer
  | .upload work => work.signer
  | .mirror work => work.signer

def step (config : Config Key Hash) (shared : Shared Key Hash) (ok : Bool) :
    Request Key Hash → Option (Shared Key Hash × Request Key Hash)
  | .read work =>
    (work.step shared).map fun next => (next.1, .read next.2)
  | .upload work =>
    (work.step config shared ok).map fun next => (next.1, .upload next.2)
  | .mirror work =>
    (work.step shared ok).map fun next => (next.1, .mirror next.2)

/-- The client hangs up.  From the mark on a mirror is a task of its own. -/
def hangUp : Request Key Hash → Option (Request Key Hash)
  | .read work => some (.read (work.goto (.answered .hungUp)))
  | .upload work => some (.upload (work.goto (.answered .hungUp)))
  | .mirror work =>
    match work.pc with
    | .probeMark | .probeClaim =>
      some (.mirror (work.goto (.answered .hungUp)))
    | _ => none

end Request

/-! ## Runs -/

abbrev State (Key Hash : Type) := Pool (Shared Key Hash) (Request Key Hash)

/-- An authority deletes a claim of its own through the core; all other keys
make and drop claims in the same store. -/
inductive Action (Key Hash : Type)
  | start (order : Order Key Hash)
  | advance (id : ℕ) (ok : Bool)
  | hangUp (id : ℕ)
  | delete (key : Key) (hash : Hash)
  | otherClaim (key : Key) (hash : Hash)
  | otherDrop (key : Key) (hash : Hash)

def Config.step (config : Config Key Hash) (state : State Key Hash) :
    Action Key Hash → Option (State Key Hash)
  | .start order =>
    if order.request.signer ∈ config.authorities then
      some (state.start order.request)
    else none
  | .advance id ok =>
    (state.requests id).bind fun request =>
      (request.step config state.shared ok).map (state.put id)
  | .hangUp id =>
    (state.requests id).bind fun request =>
      request.hangUp.map fun next => state.put id (state.shared, next)
  | .delete key hash =>
    some { state with shared := state.shared.deleteClaim key hash }
  | .otherClaim key hash =>
    if key ∈ config.authorities then none
    else
      some
        { state with shared := { state.shared with store := state.shared.store.commit key hash } }
  | .otherDrop key hash =>
    if key ∈ config.authorities then none
    else
      some
        { state with
          shared :=
            { state.shared with store := (state.shared.store.deleteClaim key hash).1 } }

/-- A node that has just started, over any store. -/
def State.initial (store : Store Key Hash) : State Key Hash where
  shared :=
    { store := store
      marks := fun _ _ => 0
      vouched := store.claims
      passes := [] }
  requests := fun _ => none
  started := 0

end AuthorityGate
end Wildbloom
