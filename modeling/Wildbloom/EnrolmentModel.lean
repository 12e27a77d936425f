import Wildbloom.GuardedRuns
import Wildbloom.SortedTables
import Mathlib.Data.List.Lex
import Mathlib.Data.List.Sort
import Mathlib.Order.WithBot

/-!
# Enrolment

An enrolment run turns the inventory of one source into signed replica
policies.  It appends newly seen blobs to a ledger, takes verdicts from what the
intake coordinator observed, derives the policies it wants from the ledger, and
signs those that changed or expire soon.  A signed policy is written to its
file first and recorded in the history second; the next revision of a policy
is the one after its last record.

A run takes one durable write a step and may be interrupted at each of them.
The coordinator of a policy loads its file and accepts it.  Hashes are strings
of hexadecimal digits.  A fingerprint stands for what it is taken of, and an
event for its id.
-/

namespace Wildbloom
namespace Enrolment

open Runs

abbrev Digit := Fin 16

abbrev Hash := List Digit

/-- Policy ids: those of the archives end in the leading digits of their
chunk. -/
inductive PolicyId
  | archive (chunk : Hash)
  | intake
deriving DecidableEq

def PolicyId.rank : PolicyId → WithTop Hash
  | .archive chunk => chunk
  | .intake => ⊤

theorem PolicyId.rank_injective : Function.Injective PolicyId.rank := by
  intro one two heq
  cases one <;> cases two <;> simp_all [PolicyId.rank]

instance : LinearOrder PolicyId :=
  LinearOrder.lift' PolicyId.rank PolicyId.rank_injective

inductive Profile
  | directHttps
  | torOnly
  | loopbackDevelopment
deriving DecidableEq

inductive Retention
  | owner
  | friend
  | guest
deriving DecidableEq

variable (Name : Type)

structure Target where
  id : Name
  origin : Name
  failureGroup : Name
  retention : Retention
deriving DecidableEq

structure Blob where
  sha256 : Hash
  size : ℕ
deriving DecidableEq

structure Policy where
  id : PolicyId
  revision : ℕ
  expiresAt : ℕ
  profile : Profile
  desiredGroups : ℕ
  targets : List (Target Name)
  blobs : List Blob
deriving DecidableEq

structure Event where
  owner : Name
  createdAt : ℕ
  policy : Policy Name
deriving DecidableEq

def maxPolicyBlobs : ℕ := 128

def maxBlobBytes : ℕ := 1024 * 1024 * 1024

def day : ℕ := 86400

section Policies

variable {Name} [DecidableEq Name]

/-- `allows` says which origins a profile accepts. -/
def Policy.validate (allows : Profile → Name → Bool) (policy : Policy Name) : Bool :=
  decide (policy.revision ≠ 0) && decide (policy.expiresAt ≠ 0) &&
  decide (policy.targets.length ≤ 16) && decide (policy.blobs.length ≤ 128) &&
  decide (policy.targets.map (·.id)).Nodup &&
  decide (policy.targets.map (·.origin)).Nodup &&
  policy.targets.all (fun target => allows policy.profile target.origin) &&
  policy.blobs.all (fun blob => decide (blob.sha256.length = 64) &&
    decide (blob.size ≠ 0) && decide (blob.size ≤ maxBlobBytes)) &&
  decide (policy.blobs.map (·.sha256)).Nodup &&
  decide (policy.desiredGroups ≤ ((policy.targets.filter fun target =>
    target.retention = .owner).map (·.failureGroup)).dedup.length) &&
  (decide (policy.desiredGroups = 0) || decide (policy.blobs ≠ []))

/-- `verify_policy`: the signature is the owner's. -/
def Event.verify (allows : Profile → Name → Bool) (event : Event Name)
    (owner : Name) (now : ℕ) : Bool :=
  decide (event.owner = owner) && event.policy.validate allows &&
  decide (now < event.policy.expiresAt) &&
  decide (event.createdAt ≤ now + 30) &&
  decide (event.createdAt < event.policy.expiresAt)

end Policies

/-! ## Files -/

inductive Tail
  | whole
  | unended
  | torn
deriving DecidableEq

/-- A file of JSON lines that is only appended to. -/
structure Log (α : Type) where
  entries : List α
  tail : Tail

inductive Left
  | nothing
  | part
  | all
deriving DecidableEq

namespace Log

variable {α : Type}

def empty : Log α where
  entries := []
  tail := .whole

/-- A line that is not JSON refuses the whole file. -/
def read (log : Log α) : Option (List α) :=
  if log.tail = .torn then none else some log.entries

/-- A line that follows one without an end is joined to it. -/
def append (log : Log α) (entry : α) : Log α :=
  match log.tail with
  | .whole => { entries := log.entries ++ [entry], tail := .whole }
  | .unended | .torn => { log with tail := .torn }

/-- An interrupted append; all of the line may be there but for its end. -/
def cut (log : Log α) (entry : α) : Left → Log α
  | .nothing => log
  | .part => { log with tail := .torn }
  | .all =>
    match log.tail with
    | .whole => { entries := log.entries ++ [entry], tail := .unended }
    | .unended | .torn => { log with tail := .torn }

end Log

inductive Reason
  | allArchivesVerified
  | grace (days : ℕ)
deriving DecidableEq

inductive LedgerEvent
  | seen (time : ℕ) (hash : Hash) (size : ℕ) (uploaded : Option ℕ)
  | archived (time : ℕ) (hash : Hash) (verifiedOn : List Name)
      (reason : Reason)
  | lost (time : ℕ) (hash : Hash)

structure Desired where
  targets : List (Target Name)
  desiredGroups : ℕ
  blobs : List Blob
deriving DecidableEq

structure HistoryRecord where
  id : PolicyId
  revision : ℕ
  event : Event Name
  expiresAt : ℕ
  contentFp : Desired Name
  targetsFp : List (Target Name)
  desiredGroups : ℕ

/-- The accepted policy of a coordinator, and which copies it verified. -/
structure Snapshot where
  owner : Name
  policyId : PolicyId
  revision : ℕ
  event : Event Name
  verified : Hash → Name → Bool

/-- The files under the root; `written` lists every policy ever written. -/
structure Disk where
  ledger : Log (LedgerEvent Name)
  history : Log (HistoryRecord Name)
  policies : PolicyId → Option (Event Name)
  coordinators : PolicyId → Option (Snapshot Name)
  written : List (Event Name)

inductive Effect
  | none
  | ledger (event : LedgerEvent Name)
  | file (event : Event Name)
  | history (record : HistoryRecord Name)

namespace Disk

variable {Name}

def writePolicy (disk : Disk Name) (event : Event Name) : Disk Name :=
  { disk with
    policies := Function.update disk.policies event.policy.id (some event)
    written := event :: disk.written }

def apply (disk : Disk Name) : Effect Name → Disk Name
  | .none => disk
  | .ledger event => { disk with ledger := disk.ledger.append event }
  | .file event => disk.writePolicy event
  | .history record => { disk with history := disk.history.append record }

/-- A policy file is replaced as a whole or not at all. -/
def cut (disk : Disk Name) (left : Left) : Effect Name → Disk Name
  | .none => disk
  | .ledger event => { disk with ledger := disk.ledger.cut event left }
  | .file event => if left = .all then disk.writePolicy event else disk
  | .history record => { disk with history := disk.history.cut record left }

end Disk

/-! ## The ledger -/

structure LedgerBlob where
  size : ℕ
  firstSeen : ℕ
  uploaded : Option ℕ
  archived : Bool
  lost : Bool

structure Ledger where
  blobs : List (Hash × LedgerBlob)
  order : List Hash

namespace Ledger

variable (ledger : Ledger) (hash : Hash)

def get : Option LedgerBlob :=
  Tables.get hash ledger.blobs

def put (blob : LedgerBlob) : Ledger :=
  { ledger with blobs := Tables.insert hash blob ledger.blobs }

def see (time : ℕ) (hash : Hash) (size : ℕ) (uploaded : Option ℕ) : Ledger where
  blobs := Tables.insert hash
    { size := size, firstSeen := time, uploaded := uploaded,
      archived := false, lost := false } ledger.blobs
  order :=
    if (ledger.get hash).isSome then ledger.order else ledger.order ++ [hash]

def archive : Ledger :=
  match ledger.get hash with
  | some blob => ledger.put hash { blob with archived := true }
  | none => ledger

def lose : Ledger :=
  match ledger.get hash with
  | some blob => ledger.put hash { blob with lost := true }
  | none => ledger

def note {Name : Type} (ledger : Ledger) : LedgerEvent Name → Ledger
  | .seen time hash size uploaded => ledger.see time hash size uploaded
  | .archived _ hash _ _ => ledger.archive hash
  | .lost _ hash => ledger.lose hash

def replay {Name : Type} (events : List (LedgerEvent Name)) : Ledger :=
  events.foldl note { blobs := [], order := [] }

def sized (hashes : List Hash) : List Blob :=
  hashes.filterMap fun hash =>
    (ledger.get hash).map fun blob => { sha256 := hash, size := blob.size }

end Ledger

/-! ## Inputs -/

structure TargetSpec where
  id : Name
  origin : Name

structure Config where
  owner : Name
  profile : Profile
  source : TargetSpec Name
  archives : List (TargetSpec Name)
  acceptTypes : Option (List Name)
  policyTtlDays : ℕ := 30
  renewBelowDays : ℕ := 7
  intakeGraceDays : ℕ := 7

structure InventoryRow where
  sha256 : Hash
  size : ℕ
  contentType : Option Name
  uploaded : Option ℕ

section Inputs

variable {Name} [DecidableEq Name]
  (config : Config Name)

def Config.validate : Bool :=
  decide (config.archives ≠ []) && decide (config.archives.length ≤ 15) &&
  decide ((config.source :: config.archives).map (·.id)).Nodup &&
  decide (config.policyTtlDays ≠ 0) && decide (config.policyTtlDays ≤ 365)

def Config.sourceTarget : Target Name where
  id := config.source.id
  origin := config.source.origin
  failureGroup := config.source.id
  retention := .guest

def Config.archiveTargets : List (Target Name) :=
  config.archives.map fun spec =>
    { id := spec.id, origin := spec.origin, failureGroup := spec.id, retention := .owner }

def Config.intakeTargets : List (Target Name) :=
  config.sourceTarget :: config.archiveTargets

def Config.acceptsType (row : InventoryRow Name) : Bool :=
  match config.acceptTypes, row.contentType with
  | some accepted, some declared => decide (declared ∈ accepted)
  | some _, none => false
  | none, _ => true

def onSource (rows : List (InventoryRow Name)) : Option (List (Hash × ℕ × Option ℕ)) :=
  (rows.filter config.acceptsType).foldlM
    (fun found row =>
      if row.sha256.length = 64 ∧ row.size ≠ 0 ∧ row.size ≤ maxBlobBytes then
        some (Tables.insert row.sha256 (row.size, row.uploaded) found)
      else none)
    []

end Inputs

/-- The order new blobs are taken in: by upload time where both have one and
they differ, else by hash. -/
def arrivesBefore (one two : Hash × ℕ × Option ℕ) : Bool :=
  match one.2.2, two.2.2 with
  | some first, some second =>
    if first ≠ second then decide (first ≤ second)
    else decide (one.1 ≤ two.1)
  | _, _ => decide (one.1 ≤ two.1)

/-! ## Desired policies -/

def groupByDigit (chunk : Hash) (hashes : List Hash) : List (Hash × List Hash) :=
  hashes.foldl
    (fun groups hash => Tables.insertWith (fun old new => old ++ new)
      (hash.take (chunk.length + 1)) [hash] groups)
    []

/-- `partition`, for as many levels as a hash has digits.  It fails where the
source would slice a hash past its end. -/
def partition : ℕ → List Hash → Hash → Option (List (Hash × List Hash))
  | fuel, hashes, chunk =>
    if hashes.length ≤ maxPolicyBlobs ∧ chunk ≠ [] then
      some [(chunk, hashes)]
    else if hashes.all fun hash => decide (chunk.length < hash.length) then
      match fuel with
      | 0 => none
      | fuel + 1 =>
        ((groupByDigit chunk hashes).mapM fun group =>
          partition fuel group.2 group.1).map List.flatten
    else none

section Plan

variable {Name} [DecidableEq Name]

def recordsOf (history : List (HistoryRecord Name)) (id : PolicyId) : List (HistoryRecord Name) :=
  history.filter fun record => record.id = id

def lastRecord (history : List (HistoryRecord Name)) (id : PolicyId) :
    Option (HistoryRecord Name) :=
  (recordsOf history id).getLast?

def waitsBefore (ledger : Ledger) (one two : Hash) : Bool :=
  let key (hash : Hash) : ℕ × ℕ :=
    match ledger.get hash with
    | some blob => (blob.firstSeen, blob.uploaded.getD 0)
    | none => (0, 0)
  if (key one).1 ≠ (key two).1 then decide ((key one).1 ≤ (key two).1)
  else if (key one).2 ≠ (key two).2 then decide ((key one).2 ≤ (key two).2)
  else decide (one ≤ two)

def intakeBlobs (ledger : Ledger) : List Blob :=
  ledger.sized (((ledger.order.filter fun hash =>
    !(ledger.get hash).any (·.archived)).insertionSort
      (fun one two => waitsBefore ledger one two)).take maxPolicyBlobs)

def archivedHashes (ledger : Ledger) : List Hash :=
  Tables.keys (ledger.blobs.filter fun entry => entry.2.archived)

def desiredPolicies (config : Config Name) (ledger : Ledger) (history : List (HistoryRecord Name)) :
    Option (List (PolicyId × Desired Name)) :=
  let intake : List (PolicyId × Desired Name) :=
    if intakeBlobs ledger ≠ [] ∨ recordsOf history .intake ≠ [] then
      [(.intake,
        { targets := config.intakeTargets
          desiredGroups :=
            if intakeBlobs ledger = [] then 0 else config.archives.length
          blobs := intakeBlobs ledger })]
    else []
  (partition 64 (archivedHashes ledger) []).map fun chunks =>
    let archives := chunks.foldl
      (fun table chunk => Tables.insert (PolicyId.archive chunk.1)
        { targets := config.archiveTargets
          desiredGroups := config.archives.length
          blobs := ledger.sized chunk.2 } table) intake
    -- A chunk that is no longer wanted gets one stop revision.
    (history.map (·.id)).foldl
      (fun table id =>
        match id with
        | .intake => table
        | .archive _ =>
          if id ∉ Tables.keys archives ∧
              (lastRecord history id).any fun record =>
                decide (record.desiredGroups ≠ 0) then
            Tables.insert id
              { targets := config.archiveTargets
                desiredGroups := 0
                blobs := [] } table
          else table)
      archives

/-- The coordinator's observations count when its policy is one that this
enrolment recorded, for the owner and with exactly the targets. -/
def trustedObservations (coordinator : Option (Snapshot Name))
    (id : PolicyId) (targets : List (Target Name))
    (history : List (HistoryRecord Name)) (owner : Name) : Option (Hash → Name → Bool) :=
  match coordinator with
  | none => none
  | some snapshot =>
    if snapshot.owner = owner ∧ snapshot.policyId = id ∧
        (recordsOf history id).any fun record =>
          decide (record.event = snapshot.event ∧ record.targetsFp = targets) then
      some snapshot.verified
    else none

end Plan

/-! ## Runs -/

/-- Where a run stands; each list is what it has still to go through. -/
inductive Pc
  | arrivals (todo : List (Hash × ℕ × Option ℕ))
  | verdicts (verified : Hash → Name → Bool) (todo : List Hash)
  | losses (todo : List Hash)
  | sign (todo : List (PolicyId × Desired Name))
  | write (record : HistoryRecord Name)
      (todo : List (PolicyId × Desired Name))
  | record (record : HistoryRecord Name)
      (todo : List (PolicyId × Desired Name))

structure Run where
  config : Config Name
  now : ℕ
  source : List (Hash × ℕ × Option ℕ)
  ledger : Ledger
  history : List (HistoryRecord Name)
  pc : Pc Name

/-- The signer dates the event; the run's clock shows `now` when it verifies
it. -/
inductive Reply
  | refused
  | signed (createdAt now : ℕ)

namespace Run

variable {Name} [DecidableEq Name]
  (run : Run Name) (id : PolicyId) (spec : Desired Name)

def goto (pc : Pc Name) : Run Name :=
  { run with pc := pc }

/-- One new blob; a known one must have its size. -/
def arrive (hash : Hash) (size : ℕ) (uploaded : Option ℕ) (todo : List (Hash × ℕ × Option ℕ)) :
    Effect Name × Option (Run Name) :=
  match run.ledger.get hash with
  | some known =>
    if known.size = size then (.none, some (run.goto (.arrivals todo)))
    else (.none, none)
  | none =>
    (.ledger (.seen run.now hash size uploaded),
      some { run with ledger := run.ledger.see run.now hash size uploaded, pc := .arrivals todo })

/-- All arrivals are in the ledger: the history and the intake coordinator's
state are read. -/
def readHistory (disk : Disk Name) (run : Run Name) : Effect Name × Option (Run Name) :=
  match disk.history.read with
  | none => (.none, none)
  | some history =>
    (.none, some { run with
      history := history
      pc :=
        match trustedObservations (disk.coordinators .intake) .intake
            run.config.intakeTargets history run.config.owner with
        | some verified => .verdicts verified run.ledger.order
        | none => .losses run.ledger.order })

/-- A blob leaves intake when every archive has it, or one has it and the
grace is over. -/
def judge (verified : Hash → Name → Bool) (hash : Hash) (todo : List Hash) :
    Effect Name × Option (Run Name) :=
  match run.ledger.get hash with
  | none => (.none, none)
  | some blob =>
    let verifiedOn := (run.config.archives.map (·.id)).filter (verified hash)
    let all := decide (verifiedOn.length = run.config.archives.length)
    let graceOver := decide (verifiedOn ≠ []) &&
      decide (run.config.intakeGraceDays * day ≤ run.now - blob.firstSeen)
    if !blob.archived && (all || graceOver) then
      (.ledger (.archived run.now hash verifiedOn (if all then .allArchivesVerified
            else .grace run.config.intakeGraceDays)),
        some { run with ledger := run.ledger.archive hash, pc := .verdicts verified todo })
    else (.none, some (run.goto (.verdicts verified todo)))

/-- A blob that left the source before an archive had it is lost. -/
def missing (hash : Hash) (todo : List Hash) : Effect Name × Option (Run Name) :=
  match run.ledger.get hash with
  | none => (.none, none)
  | some blob =>
    if !blob.archived && !blob.lost && (Tables.get hash run.source).isNone then
      (.ledger (.lost run.now hash),
        some { run with ledger := run.ledger.lose hash, pc := .losses todo })
    else (.none, some (run.goto (.losses todo)))

def content : Policy Name where
  id := id
  revision := ((lastRecord run.history id).map (·.revision)).getD 0 + 1
  expiresAt := run.now + run.config.policyTtlDays * day
  profile := run.config.profile
  desiredGroups := spec.desiredGroups
  targets := spec.targets
  blobs := spec.blobs

def unchanged : Bool :=
  (lastRecord run.history id).any fun record =>
    decide (record.contentFp = spec) && !decide (record.expiresAt <
        run.now + run.config.renewBelowDays * day)

def sign (allows : Profile → Name → Bool) (run : Run Name) (reply : Reply)
    (id : PolicyId) (spec : Desired Name) (todo : List (PolicyId × Desired Name)) :
    Effect Name × Option (Run Name) :=
  if run.unchanged id spec then (.none, some (run.goto (.sign todo)))
  else if (run.content id spec).validate allows ∧ run.now < (run.content id spec).expiresAt then
    match reply with
    | .refused => (.none, none)
    | .signed createdAt now =>
      let event : Event Name :=
        { owner := run.config.owner
          createdAt := createdAt
          policy := run.content id spec }
      if event.verify allows run.config.owner now then
        (.none, some (run.goto (.write
          { id := id
            revision := (run.content id spec).revision
            event := event
            expiresAt := (run.content id spec).expiresAt
            contentFp := spec
            targetsFp := spec.targets
            desiredGroups := spec.desiredGroups } todo)))
      else (.none, none)
  else (.none, none)

/-- The next write of a run and the run after it; a run that ends or fails
stops. -/
def next (allows : Profile → Name → Bool) (disk : Disk Name) (run : Run Name)
    (reply : Reply) : Effect Name × Option (Run Name) :=
  match run.pc with
  | .arrivals [] => run.readHistory disk
  | .arrivals ((hash, size, uploaded) :: todo) =>
    run.arrive hash size uploaded todo
  | .verdicts _ [] => (.none, some (run.goto (.losses run.ledger.order)))
  | .verdicts verified (hash :: todo) => run.judge verified hash todo
  | .losses [] =>
    (.none, (desiredPolicies run.config run.ledger run.history).map
      fun desired => run.goto (.sign desired))
  | .losses (hash :: todo) => run.missing hash todo
  | .sign [] => (.none, none)
  | .sign ((id, spec) :: todo) => run.sign allows reply id spec todo
  -- File first, history second.
  | .write record todo =>
    (.file record.event, some (run.goto (.record record todo)))
  | .record record todo =>
    (.history record, some { run with history := run.history ++ [record], pc := .sign todo })

end Run

/-! ## Coordinators -/

inductive StateError
  | identity
  | rollback
deriving DecidableEq

section Coordinators

variable {Name} [DecidableEq Name]

def accept (snapshot : Option (Snapshot Name)) (event : Event Name) :
    Except StateError (Snapshot Name) :=
  let fresh : Snapshot Name :=
    { owner := event.owner
      policyId := event.policy.id
      revision := event.policy.revision
      event := event
      verified := fun _ _ => false }
  match snapshot with
  | none => .ok fresh
  | some state =>
    if state.owner ≠ event.owner ∨ state.policyId ≠ event.policy.id then
      .error .identity
    else if event.policy.revision < state.revision ∨
        state.revision = event.policy.revision ∧ state.event ≠ event then
      .error .rollback
    else if state.event = event then .ok state
    else .ok fresh

end Coordinators

/-! ## The system -/

structure State where
  disk : Disk Name
  run : Option (Run Name)
  loaded : PolicyId → Option (Event Name)

inductive Action
  | start (config : Config Name) (inventory : List (InventoryRow Name))
      (now : ℕ)
  | advance (reply : Reply)
  | interrupt (left : Left)
  | load (id : PolicyId) (owner : Name) (now : ℕ)
  | accept (id : PolicyId)
  | observe (id : PolicyId) (verified : Hash → Name → Bool)
  | leave (id : PolicyId)

section System

variable {Name} [DecidableEq Name]

def start (state : State Name) (config : Config Name)
    (inventory : List (InventoryRow Name)) (now : ℕ) : Option (State Name) :=
  match state.run with
  | some _ => none
  | none =>
    if config.validate then
      (onSource config inventory).bind fun source =>
        state.disk.ledger.read.map fun events =>
          { state with
            run := some
              { config := config
                now := now
                source := source
                ledger := Ledger.replay events
                history := []
                pc := .arrivals (source.insertionSort
                  (fun one two => arrivesBefore one two)) } }
    else none

def step (allows : Profile → Name → Bool) (state : State Name) : Action Name → Option (State Name)
  | .start config inventory now => start state config inventory now
  | .advance reply =>
    state.run.map fun run =>
      let result := run.next allows state.disk reply
      { state with disk := state.disk.apply result.1, run := result.2 }
  | .interrupt left =>
    state.run.map fun run =>
      let result := run.next allows state.disk .refused
      { state with disk := state.disk.cut left result.1, run := none }
  | .load id owner now =>
    (state.disk.policies id).bind fun event =>
      if event.verify allows owner now then
        some { state with loaded := Function.update state.loaded id (some event) }
      else none
  | .accept id =>
    (state.loaded id).map fun event =>
      match Enrolment.accept (state.disk.coordinators id) event with
      | .ok snapshot =>
        { state with
          disk := { state.disk with
            coordinators := Function.update state.disk.coordinators id
              (some snapshot) } }
      -- The pass fails, and the coordinator clears what it observed.
      | .error _ =>
        { state with
          disk := { state.disk with
            coordinators := Function.update state.disk.coordinators id
              ((state.disk.coordinators id).map fun snapshot =>
                { snapshot with verified := fun _ _ => false }) }
          loaded := Function.update state.loaded id none }
  | .observe id verified =>
    (state.disk.coordinators id).map fun snapshot =>
      { state with
        disk := { state.disk with
          coordinators := Function.update state.disk.coordinators id
            (some { snapshot with verified := verified }) } }
  | .leave id =>
    some { state with loaded := Function.update state.loaded id none }

def State.initial : State Name where
  disk :=
    { ledger := .empty
      history := .empty
      policies := fun _ => none
      coordinators := fun _ => none
      written := [] }
  run := none
  loaded := fun _ => none

end System

end Enrolment
end Wildbloom
