import Wildbloom.RequestTables

/-!
# Uploads, mirrors and deletes of one group

The requests the gate of a node serves for the device keys of one group, with
the shared state they work on.  Each request is a program whose steps are the
atomic steps of the source, so a run interleaves lock acquisitions, store calls
and cache accesses of any number of requests.

The store is the node's core.  A claim is a pair of a key and a hash, a stored
blob is a hash, and the size of a blob is a function of its hash.  Every claim
a device key makes passes the gate and carries the group's grant id, so claims
carry no grant id here.  The core refuses what it likes; its answers to calls
that it accepts are fixed.
-/

namespace Wildbloom
namespace GroupGate

/-! ## The store -/

variable (Key Hash : Type)

/-- Blobs and claims, the claims in the order in which they are listed. -/
structure Store where
  blobs : List Hash
  claims : List (Key × Hash)

inductive DeleteOutcome
  | blobDeleted
  | claimRemoved
  | notClaimant
deriving DecidableEq

namespace Store

variable {Key Hash} [DecidableEq Key] [DecidableEq Hash]
  (store : Store Key Hash) (key : Key) (hash : Hash)

def get : Bool :=
  decide (hash ∈ store.blobs)

def claimsOf : List Hash :=
  (store.claims.filter fun claim => claim.1 = key).map Prod.snd

/-- A page of the claims of `key` after `cursor`.  A cursor that is not one of
the key's claims is refused. -/
def listClaims (cursor : Option Hash) (limit : ℕ) : Option (List Hash) :=
  match cursor with
  | none => some ((store.claimsOf key).take limit)
  | some hash =>
    if hash ∈ store.claimsOf key then
      some ((((store.claimsOf key).dropWhile (· ≠ hash)).drop 1).take limit)
    else none

/-- The point lookup: `hash` is accepted as a cursor into the key's claims. -/
def holdsClaim : Bool :=
  (store.listClaims key (some hash) 1).isSome

def addClaim : Store Key Hash :=
  if (key, hash) ∈ store.claims then store
  else { store with claims := store.claims ++ [(key, hash)] }

/-- The claim is made at once when the blob is stored. -/
def beginClaimedUpload : Option (Store Key Hash) :=
  if store.get hash then some (store.addClaim key hash) else none

def commit : Store Key Hash :=
  { store.addClaim key hash with
    blobs := if store.get hash then store.blobs else hash :: store.blobs }

/-- Remove one claim, and the blob with its last one. -/
def deleteClaim : Store Key Hash × DeleteOutcome :=
  if (key, hash) ∈ store.claims then
    let claims := store.claims.filter fun claim => claim ≠ (key, hash)
    if claims.any fun claim => claim.2 = hash then
      ({ store with claims := claims }, .claimRemoved)
    else
      ({ claims := claims
         blobs := store.blobs.filter fun blob => blob ≠ hash },
        .blobDeleted)
  else (store, .notClaimant)

end Store

/-! ## The holdings of the group -/

structure Holdings where
  blobs : Hash → Option ℕ
  total : ℕ

namespace Holdings

variable {Hash} [DecidableEq Hash]

def empty : Holdings Hash where
  blobs := fun _ => none
  total := 0

variable (holdings : Holdings Hash) (hash : Hash)

def contains : Bool :=
  (holdings.blobs hash).isSome

def insert (size : ℕ) : Holdings Hash where
  blobs := Function.update holdings.blobs hash (some size)
  total :=
    match holdings.blobs hash with
    | some old => holdings.total - old + size
    | none => holdings.total + size

def remove : Holdings Hash where
  blobs := Function.update holdings.blobs hash none
  total :=
    match holdings.blobs hash with
    | some old => holdings.total - old
    | none => holdings.total

end Holdings

/-- The group as it is enrolled, and the sizes of blobs. -/
structure Config where
  devices : List Key
  ceiling : ℕ
  size : Hash → ℕ

def pageSize : ℕ := 100

/-- The group's cell of the cache.  The lock on it is free in `idle`, where
`none` is a cache that was not built yet.  A request that finds it unbuilt
lists the claims of every device under the lock, one page at a time.  A mirror
that is over the ceiling takes its claim back under the lock. -/
inductive Cell
  | idle (holdings : Option (Holdings Hash))
  | rebuilding (owner : ℕ) (todo : List Key) (cursor : Option Hash)
      (found : Holdings Hash)
  | judging (owner : ℕ) (hash : Hash) (holdings : Holdings Hash)

/-- What the requests share.  `reservedBy` is the holder of the lock on
`reserved`, `permits` the free write slots, `spent` the delete tokens used so
far.  The history variable `deletions` counts the delete steps of DELETE
requests by the claim they name. -/
structure Shared where
  store : Store Key Hash
  cell : Cell Key Hash
  reserved : ℕ
  reservedBy : Option ℕ
  permits : ℕ
  spent : List ℕ
  deletions : Key → Hash → ℕ

inductive Access (Result : Type)
  | blocked
  | working (cell : Cell Key Hash)
  | failed
  | done (cell : Cell Key Hash) (result : Result)

section Cache

variable {Key Hash} {Result : Type} [DecidableEq Key] [DecidableEq Hash]

def Config.insertPage (config : Config Key Hash) (found : Holdings Hash)
    (page : List Hash) : Holdings Hash :=
  page.foldl (fun found hash => found.insert hash (config.size hash)) found

/-- The lock is taken, the cache is built if it has to be, and `f` runs under
the same lock.  A store that refuses a page leaves the cache unbuilt. -/
def withHoldings (config : Config Key Hash) (shared : Shared Key Hash)
    (id : ℕ) (f : Holdings Hash → Cell Key Hash × Result) : Access Key Hash Result :=
  match shared.cell with
  | .idle (some holdings) => .done (f holdings).1 (f holdings).2
  | .idle none => .working (.rebuilding id config.devices none .empty)
  | .judging _ _ _ => .blocked
  | .rebuilding owner todo cursor found =>
    if owner = id then
      match todo with
      | [] => .done (f found).1 (f found).2
      | device :: rest =>
        match shared.store.listClaims device cursor pageSize with
        | none => .failed
        | some page =>
          if page.length = pageSize then
            .working (.rebuilding id (device :: rest) page.getLast? (config.insertPage found page))
          else
            .working (.rebuilding id rest none (config.insertPage found page))
    else .blocked

def reading (f : Holdings Hash → Result) (holdings : Holdings Hash) : Cell Key Hash × Result :=
  (.idle (some holdings), f holdings)

def writing (f : Holdings Hash → Holdings Hash) (holdings : Holdings Hash) : Cell Key Hash × Unit :=
  (.idle (some (f holdings)), ())

/-- The step of a request that accesses the cache: it stays where it is while
the cache is being built, is refused when that fails, and goes on otherwise. -/
def Access.resume {Request : Type} (access : Access Key Hash Result)
    (shared : Shared Key Hash) (stay : Request)
    (refuse : Shared Key Hash → Shared Key Hash × Request)
    (proceed : Shared Key Hash → Result → Shared Key Hash × Request) :
    Option (Shared Key Hash × Request) :=
  match access with
  | .blocked => none
  | .working cell => some ({ shared with cell := cell }, stay)
  | .failed => some (refuse { shared with cell := .idle none })
  | .done cell result => some (proceed { shared with cell := cell } result)

end Cache

/-! ## Uploads -/

inductive Answer
  | stored (created : Bool)
  | mirrored (created : Bool)
  | deleted (blobDeleted : Bool)
  | busy
  | groupFull
  | unavailable
  | badRequest
  | refusedByCore
  | wrongBlob
  | absent
  | spent
  | hungUp
deriving DecidableEq

inductive UploadPc
  | acquire
  | check
  | lockReserved
  | readTotal
  | admitting (total : ℕ)
  | judge
  | lookup
  | prove
  | begin
  | takeBack
  | stream
  | commit
  | record (created : Bool)
  | release (answer : Answer)
  | answered (answer : Answer)
deriving DecidableEq

/-- `bytes` and `permit` are the reservation and the write slot the request
holds, `gone` says that its client hung up.  The history variable `claimedAt`
is the number of deletions of its claim when it made the claim. -/
structure Upload where
  signer : Key
  hash : Hash
  length : ℕ
  pc : UploadPc := .acquire
  held : Bool := false
  proven : Bool := false
  bytes : ℕ := 0
  permit : Bool := false
  gone : Bool := false
  claimedAt : Option ℕ := none

section Uploads

variable {Key Hash} [DecidableEq Key] [DecidableEq Hash]

namespace Upload

variable (upload : Upload Key Hash) (shared : Shared Key Hash)

def goto (pc : UploadPc) : Upload Key Hash :=
  { upload with pc := pc }

def finish (answer : Answer) : Upload Key Hash :=
  upload.goto (.release (if upload.gone then .hungUp else answer))

/-- Where the handler goes on when a task it waited for is done; a handler
whose client hung up is dropped there. -/
def resume (pc : UploadPc) : Upload Key Hash :=
  if upload.gone then upload.finish .hungUp else upload.goto pc

def drop : Shared Key Hash × Upload Key Hash :=
  ({ shared with
      reserved := shared.reserved - upload.bytes
      permits := if upload.permit then shared.permits + 1 else shared.permits },
    { upload with bytes := 0, permit := false })

/-- The claim was just made, by `begin_claimed_upload` or by `commit`. -/
def claimed (created : Bool) : Upload Key Hash :=
  { upload with
    pc := .record created
    claimedAt := some (shared.deletions upload.signer upload.hash) }

def need : ℕ :=
  if upload.held then 0 else upload.length

/-- One step of `group_upload`.  With `ok` the core accepts the call of the
step, or the client sends what it declared. -/
def step (config : Config Key Hash) (shared : Shared Key Hash) (id : ℕ)
    (upload : Upload Key Hash) (ok : Bool) : Option (Shared Key Hash × Upload Key Hash) :=
  match upload.pc with
  | .acquire =>
    if shared.permits = 0 then some (shared, upload.goto (.answered .busy))
    else
      some ({ shared with permits := shared.permits - 1 },
        { upload with permit := true, pc := .check })
  | .check =>
    (withHoldings config shared id
      (reading fun held => held.contains upload.hash)).resume shared upload
      (fun shared => (shared, upload.finish .unavailable)) (fun shared held =>
        (shared, { upload with held := held, pc := .lockReserved }))
  -- `reserve_group_bytes` reads the total under the lock on `reserved`.
  | .lockReserved =>
    if shared.reservedBy = none then
      some ({ shared with reservedBy := some id }, upload.goto .readTotal)
    else none
  | .readTotal =>
    (withHoldings config shared id
      (reading fun held => held.total)).resume shared upload
      (fun shared =>
        ({ shared with reservedBy := none }, upload.finish .unavailable))
      (fun shared total => (shared, upload.goto (.admitting total)))
  | .admitting total =>
    if 0 < upload.need ∧ config.ceiling < total + shared.reserved + upload.need then
      some ({ shared with reservedBy := none }, upload.finish .groupFull)
    else
      some ({ shared with reserved := shared.reserved + upload.need, reservedBy := none },
        { upload with bytes := upload.need }.resume (if upload.held then .lookup else .judge))
  | .judge =>
    some (shared, if ok then upload.goto .lookup
      else upload.finish .refusedByCore)
  | .lookup =>
    let proven := !upload.held && shared.store.get upload.hash
    some (shared, { upload with proven := proven, pc := if proven then .prove else .begin })
  | .prove =>
    if ok ∧ upload.length = config.size upload.hash then
      some (shared, upload.goto .begin)
    else some (shared, upload.finish .badRequest)
  | .begin =>
    if ok then
      match shared.store.beginClaimedUpload upload.signer upload.hash with
      | some store =>
        let shared := { shared with store := store }
        if !upload.held && !upload.proven then
          some (shared, upload.goto .takeBack)
        else some (shared, upload.claimed shared false)
      | none =>
        if upload.proven then some (shared, upload.finish .unavailable)
        else some (shared, upload.resume .stream)
    else some (shared, upload.finish .refusedByCore)
  | .takeBack =>
    some ({ shared with store := (shared.store.deleteClaim upload.signer upload.hash).1 },
      upload.finish .unavailable)
  | .stream =>
    some (shared, if ok then upload.goto .commit
      else upload.finish .badRequest)
  -- The core commits a body only when its hash and its length are as declared.
  | .commit =>
    if ok ∧ upload.length = config.size upload.hash then
      some ({ shared with store := shared.store.commit upload.signer upload.hash },
        upload.claimed shared true)
    else some (shared, upload.finish .refusedByCore)
  | .record created =>
    (withHoldings config shared id (writing fun held =>
        held.insert upload.hash (config.size upload.hash))).resume
      shared upload
      (fun shared => (shared, upload.finish .unavailable)) (fun shared _ =>
        (shared, upload.finish (.stored (!upload.held || created))))
  | .release answer =>
    if shared.reservedBy = none then
      let dropped := upload.drop shared
      some (dropped.1, dropped.2.goto (.answered answer))
    else none
  | .answered _ => none

def withoutClient : Upload Key Hash :=
  { upload with gone := true }

/-- The client hangs up.  A blocking task runs to its end; while one makes or
takes back the claim, the handler around it is dropped at once. -/
def hangUp (shared : Shared Key Hash) (upload : Upload Key Hash) :
    Option (Shared Key Hash × Upload Key Hash) :=
  match upload.pc with
  | .acquire | .check | .lockReserved | .readTotal | .admitting _ =>
    some (shared, upload.withoutClient)
  | .judge | .lookup | .prove | .stream =>
    some (shared, upload.withoutClient.finish .hungUp)
  | .begin | .takeBack | .commit | .record _ =>
    if shared.reservedBy = none then some (upload.withoutClient.drop shared)
    else none
  | .release _ | .answered _ => none

end Upload

end Uploads

/-! ## Mirrors -/

inductive MirrorPc
  | readReserved
  | check
  | forward
  | verdict (created : Bool)
  | overTakeBack
  | overRemove
  | answered (answer : Answer)
deriving DecidableEq

/-- A mirror whose URL does not name the hash of the blob is not `named`.  It
keeps the reserved bytes it read before the core fetched the blob. -/
structure Mirror where
  signer : Key
  hash : Hash
  named : Bool
  pc : MirrorPc := .readReserved
  reserved : ℕ := 0
  held : Bool := false
  gone : Bool := false

section Mirrors

variable {Key Hash} [DecidableEq Key] [DecidableEq Hash]

namespace Mirror

def goto (mirror : Mirror Key Hash) (pc : MirrorPc) : Mirror Key Hash :=
  { mirror with pc := pc }

/-- Record the mirrored blob and say whether the group is over its ceiling; if
it is, the lock stays taken until the claim is taken back. -/
def judged (config : Config Key Hash) (id : ℕ) (mirror : Mirror Key Hash)
    (holdings : Holdings Hash) : Cell Key Hash × Bool :=
  let holdings := holdings.insert mirror.hash (config.size mirror.hash)
  if mirror.held = false ∧ config.ceiling < holdings.total + mirror.reserved then
    (.judging id mirror.hash holdings, true)
  else (.idle (some holdings), false)

/-- One step of `group_mirror`.  In `forward` the core fetches the blob and
makes the claim; it answers with `created` when it did not have the blob. -/
def step (config : Config Key Hash) (shared : Shared Key Hash) (id : ℕ)
    (mirror : Mirror Key Hash) (ok : Bool) : Option (Shared Key Hash × Mirror Key Hash) :=
  match mirror.pc with
  | .readReserved =>
    if shared.reservedBy = none then
      some (shared, { mirror with reserved := shared.reserved, pc := .check })
    else none
  | .check =>
    (withHoldings config shared id (reading fun held =>
        (mirror.named && held.contains mirror.hash, held.total))).resume
      shared mirror
      (fun shared => (shared, mirror.goto (.answered .unavailable))) (fun shared (held, total) =>
        if mirror.gone then (shared, mirror.goto (.answered .hungUp))
        else if held = false ∧ config.ceiling ≤ total + mirror.reserved then
          (shared, mirror.goto (.answered .groupFull))
        else (shared, { mirror with held := held, pc := .forward }))
  | .forward =>
    if ok then
      some ({ shared with store := shared.store.commit mirror.signer mirror.hash },
        mirror.goto (.verdict (!shared.store.get mirror.hash)))
    else some (shared, mirror.goto (.answered .refusedByCore))
  | .verdict created =>
    if created = false ∧ mirror.held = false then
      some ({ shared with store := (shared.store.deleteClaim mirror.signer mirror.hash).1 },
        mirror.goto (.answered .wrongBlob))
    else
      (withHoldings config shared id (mirror.judged config id)).resume shared mirror
        (fun shared => (shared, mirror.goto (.answered .unavailable))) (fun shared full =>
          (shared, mirror.goto (if full then .overTakeBack else .answered (.mirrored created))))
  | .overTakeBack =>
    some ({ shared with store := (shared.store.deleteClaim mirror.signer mirror.hash).1 },
      mirror.goto .overRemove)
  | .overRemove =>
    match shared.cell with
    | .judging owner hash holdings =>
      if owner = id then
        some ({ shared with cell := .idle (some (holdings.remove hash)) },
          mirror.goto (.answered .groupFull))
      else none
    | _ => none
  | .answered _ => none

/-- The client hangs up, which stops the mirror only before it is forwarded. -/
def hangUp (mirror : Mirror Key Hash) : Option (Mirror Key Hash) :=
  match mirror.pc with
  | .readReserved | .check => some { mirror with gone := true }
  | _ => none

end Mirror

end Mirrors

/-! ## Deletes -/

inductive DeletePc
  | spend
  | find (todo holders : List Key) (fresh : Bool)
  | deleting (todo : List Key) (blobDeleted : Bool)
  | recheck (todo : List Key) (still blobDeleted : Bool)
  | remove (blobDeleted : Bool)
  | answered (answer : Answer)
deriving DecidableEq

structure Delete where
  signer : Key
  hash : Hash
  purge : Bool
  token : ℕ
  pc : DeletePc Key := .spend

section Deletes

variable {Key Hash} [DecidableEq Key] [DecidableEq Hash]

namespace Delete

def goto (delete : Delete Key Hash) (pc : DeletePc Key) : Delete Key Hash :=
  { delete with pc := pc }

def claimants (config : Config Key Hash) (delete : Delete Key Hash) : List Key :=
  if delete.purge then config.devices else [delete.signer]

/-- One step of `group_delete`: the loops over the claimants, over the holders
found among them and over the devices make one store call a step. -/
def step (config : Config Key Hash) (shared : Shared Key Hash) (id : ℕ) (delete : Delete Key Hash) :
    Option (Shared Key Hash × Delete Key Hash) :=
  match delete.pc with
  | .spend =>
    some ({ shared with spent := delete.token :: shared.spent },
      delete.goto (.find (delete.claimants config) [] (decide (delete.token ∉ shared.spent))))
  | .find (key :: todo) holders fresh =>
    some (shared, delete.goto (.find todo
      (if shared.store.holdsClaim key delete.hash then holders ++ [key]
        else holders) fresh))
  | .find [] holders fresh =>
    some (shared, delete.goto
      (if holders = [] then .answered .absent
        else if fresh then .deleting holders false
        else .answered .spent))
  | .deleting (key :: todo) blobDeleted =>
    let deleted := shared.store.deleteClaim key delete.hash
    some ({ shared with
        store := deleted.1
        deletions := Function.update shared.deletions key
          (Function.update (shared.deletions key) delete.hash
            (shared.deletions key delete.hash + 1)) },
      delete.goto (.deleting todo (blobDeleted || decide (deleted.2 = .blobDeleted))))
  | .deleting [] blobDeleted =>
    some (shared, delete.goto (.recheck config.devices false blobDeleted))
  | .recheck (key :: todo) still blobDeleted =>
    some (shared, delete.goto (.recheck todo
      (still || shared.store.holdsClaim key delete.hash) blobDeleted))
  | .recheck [] still blobDeleted =>
    some (shared, delete.goto
      (if still then .answered (.deleted blobDeleted)
        else .remove blobDeleted))
  | .remove blobDeleted =>
    (withHoldings config shared id
      (writing fun held => held.remove delete.hash)).resume shared delete
      (fun shared => (shared, delete.goto (.answered .unavailable))) (fun shared _ =>
        (shared, delete.goto (.answered (.deleted blobDeleted))))
  | .answered _ => none

end Delete

end Deletes

/-! ## The whole gate -/

inductive Request
  | upload (work : Upload Key Hash)
  | mirror (work : Mirror Key Hash)
  | delete (work : Delete Key Hash)

def Request.answer {Key Hash : Type} : Request Key Hash → Option Answer
  | .upload work =>
    match work.pc with
    | .answered answer => some answer
    | _ => none
  | .mirror work =>
    match work.pc with
    | .answered answer => some answer
    | _ => none
  | .delete work =>
    match work.pc with
    | .answered answer => some answer
    | _ => none

/-- What a device asks for; its token and its grant were checked. -/
inductive Order
  | upload (signer : Key) (hash : Hash) (length : ℕ)
  | mirror (signer : Key) (hash : Hash) (named : Bool)
  | delete (signer : Key) (hash : Hash) (purge : Bool) (token : ℕ)

namespace Order

variable {Key Hash}

def signer : Order Key Hash → Key
  | .upload signer _ _ | .mirror signer _ _ | .delete signer _ _ _ => signer

def request : Order Key Hash → Request Key Hash
  | .upload signer hash length =>
    .upload { signer := signer, hash := hash, length := length }
  | .mirror signer hash named =>
    .mirror { signer := signer, hash := hash, named := named }
  | .delete signer hash purge token =>
    .delete { signer := signer, hash := hash, purge := purge, token := token }

end Order

/-- The owner, its friends and other groups make and drop claims of their own
keys in the same store. -/
inductive Action
  | start (order : Order Key Hash)
  | advance (id : ℕ) (ok : Bool)
  | hangUp (id : ℕ)
  | otherClaim (key : Key) (hash : Hash)
  | otherDrop (key : Key) (hash : Hash)

structure State where
  shared : Shared Key Hash
  requests : ℕ → Option (Request Key Hash)
  started : ℕ

section Steps

variable {Key Hash} [DecidableEq Key] [DecidableEq Hash]

def Request.step (config : Config Key Hash) (shared : Shared Key Hash) (id : ℕ) (ok : Bool) :
    Request Key Hash → Option (Shared Key Hash × Request Key Hash)
  | .upload work =>
    (work.step config shared id ok).map fun next =>
      (next.1, .upload next.2)
  | .mirror work =>
    (work.step config shared id ok).map fun next =>
      (next.1, .mirror next.2)
  | .delete work =>
    (work.step config shared id).map fun next => (next.1, .delete next.2)

def Request.hangUp (shared : Shared Key Hash) :
    Request Key Hash → Option (Shared Key Hash × Request Key Hash)
  | .upload work =>
    (work.hangUp shared).map fun next => (next.1, .upload next.2)
  | .mirror work => work.hangUp.map fun next => (shared, .mirror next)
  -- A delete is one blocking task, which runs to its end.
  | .delete _ => none

def State.put (state : State Key Hash) (id : ℕ)
    (next : Shared Key Hash × Request Key Hash) : State Key Hash :=
  { state with shared := next.1, requests := Function.update state.requests id (some next.2) }

def Config.step (config : Config Key Hash) (state : State Key Hash) :
    Action Key Hash → Option (State Key Hash)
  | .start order =>
    if order.signer ∈ config.devices then
      some
        { state with
          requests :=
            Function.update state.requests state.started (some order.request)
          started := state.started + 1 }
    else none
  | .advance id ok =>
    (state.requests id).bind fun request =>
      (request.step config state.shared id ok).map (state.put id)
  | .hangUp id =>
    (state.requests id).bind fun request =>
      (request.hangUp state.shared).map (state.put id)
  | .otherClaim key hash =>
    if key ∈ config.devices then none
    else
      some
        { state with shared := { state.shared with store := state.shared.store.commit key hash } }
  | .otherDrop key hash =>
    if key ∈ config.devices then none
    else
      some
        { state with
          shared :=
            { state.shared with store := (state.shared.store.deleteClaim key hash).1 } }

/-- A node that has just started: no request, no reservation and a cache that
is not built, over any store. -/
def State.initial (store : Store Key Hash) (permits : ℕ) (spent : List ℕ) : State Key Hash where
  shared :=
    { store := store
      cell := .idle none
      reserved := 0
      reservedBy := none
      permits := permits
      spent := spent
      deletions := fun _ _ => 0 }
  requests := fun _ => none
  started := 0

end Steps

end GroupGate
end Wildbloom
