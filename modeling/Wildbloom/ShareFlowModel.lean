import Wildbloom.GuardedRuns

/-!
# The share flows of a file

A share is a separate copy of a file under a fresh key.  A flow makes the copy,
uploads it, records it in the index, pairs with a recipient over a relay and
sends a descriptor with the copy's key and address; when the recipient's receipt
is read the record says that the copy was sent.  Flows of a file take turns, and
a flow that is replaced or cancelled is aborted: it is dropped at its next
await, and a clean-up deletes the copy in its slot, which is the copy it had not
recorded.  Stop sharing, Remove, the sweep and the queued deletions work on the
record and on the copies at the same time.

Copies are numbered as they are made, and the number stands for the copy's key,
its address and the node it is on.  An upload that was sent is in flight until
it is answered, and the node may store it even if the flow never reads the
answer.  Where the source ignores the error of a write to the index, the write
may fail and the task goes on as if it had been made; where it ignores the error
of a read, the read may find nothing.
-/

namespace Wildbloom
namespace ShareFlows

inductive ShareState
  | opened
  | sent
  | stopPending
  | ended
  | ownerOnly
deriving DecidableEq

structure ShareRecord where
  copy : ℕ
  state : ShareState
  deleteAt : Option ℕ := none
  endedAt : Option ℕ := none
deriving DecidableEq

structure SharingPolicy where
  keepAfterDownload : Bool := false
  expirySeconds : ℕ := 24 * 60 * 60

def endedRecordSeconds : ℕ := 24 * 60 * 60

/-- `deletes` are the queued deletions with the time before which they wait,
`blobs` the copies on the nodes, `moved` those that a node has moved to its
owner, `turn` the flow that holds the file's lock, `session` the flow that a
cancel would stop, `slots` the copies that flows have not yet recorded, and
`told` the descriptors that were sent: a copy and its deletion time.  `spent` is
not in the source: the copies that were sent or taken from a slot. -/
structure Shares where
  now : ℕ := 0
  policy : SharingPolicy := {}
  record : Option ShareRecord := none
  deletes : ℕ → Option ℕ := fun _ => none
  blobs : ℕ → Bool := fun _ => false
  moved : ℕ → Bool := fun _ => false
  inFlight : ℕ → Bool := fun _ => false
  made : ℕ := 0
  turn : Option ℕ := none
  session : Option ℕ := none
  aborted : ℕ → Bool := fun _ => false
  slots : ℕ → Option ℕ := fun _ => none
  told : List (ℕ × ℕ) := []
  spent : ℕ → Bool := fun _ => false

inductive Effect
  | nothing
  | takeTurn (flow : ℕ)
  | giveTurn (flow : ℕ)
  | launch (flow : ℕ)
  | abort (flow : ℕ)
  | setSlot (flow : ℕ) (copy : Option ℕ)
  | make
  | send (copy : ℕ)
  | answer (copy : ℕ)
  | store (copy : ℕ)
  | lose (copy : ℕ)
  | moveToOwner (copy : ℕ)
  | delete (copy : ℕ)
  | putShare (record : ShareRecord)
  | deleteShare
  | queueDelete (copy notBefore : ℕ)
  | finishDelete (copy : ℕ)
  | tell (copy deleteAt : ℕ)
  | leave (flow : ℕ) (descriptor : Option (ℕ × ℕ))
  | tick
  | setSharing (policy : SharingPolicy)
  | restart

inductive Reply
  | ok
  | failed
  | lost
  | refused
deriving DecidableEq

inductive DeleteStage
  | asking
  | queueing
  | writing (deleted : Bool)
deriving DecidableEq

/-- Where a flow is in `run_share`.  `previous` is the record it found. -/
inductive Stage
  | waiting
  | reading
  | reusing (previous : Option ShareRecord)
  | heading (previous : Option ShareRecord) (copy : ℕ)
  | making (previous : Option ShareRecord)
  | keying (previous : Option ShareRecord) (copy : ℕ)
  | opening (previous : Option ShareRecord) (copy : ℕ)
  | uploading (previous : Option ShareRecord) (copy : ℕ)
  | notUploaded
  | replacing (previous : Option ShareRecord) (copy : ℕ)
  | recording (copy : ℕ)
  | clearing (copy : ℕ)
  | pairing (copy : ℕ)
  | sending (copy deleteAt : ℕ) (keep : Bool)
  | awaitingReceipt (copy deleteAt : ℕ) (keep : Bool)
  | recordSent (copy deleteAt : ℕ) (keep : Bool)
  | awaitingReply (copy : ℕ) (keep : Bool)
  | downloaded (copy : ℕ) (keep : Bool)
  | recordDownload (record : ShareRecord) (keep : Bool)
  | deleting (record : ShareRecord) (stage : DeleteStage)
  | closing

/-- What a command does after it has stopped a flow. -/
inductive Then
  | nothing
  | cancel
  | stopSharing
  | removeRow

inductive CleanStage
  | relay
  | slot
  | deleting (copy : ℕ)
  | queueing (copy : ℕ)

inductive RunStage
  | sending
  | refused
  | finishing (ended : Bool)
  | marking

inductive Task
  | starting (again : Bool)
  | launching (again : Bool)
  | flow (again : Bool) (stage : Stage)
  | stopping (next : Then)
  | cleaning (flow : ℕ) (stage : CleanStage) (next : Then)
  | reading (next : Then)
  | deleteCopy (record : ShareRecord) (keepRecord : Bool) (stage : DeleteStage)
  | removeQueue (record : ShareRecord)
  | deleteFile
  | sweeping
  | sweepRead (now : ℕ) (pending : ℕ → Bool)
  | sweepEnd (now : ℕ) (record : ShareRecord)
  | sweepClear (record : ShareRecord)
  | runDelete (copy : ℕ) (stage : RunStage)
  | putOwnerOnly (record : ShareRecord)
  | done

structure State where
  shares : Shares := {}
  tasks : List Task := []

inductive Action
  | shareStart (again : Bool)
  | shareCancel
  | stopSharing
  | removeRow
  | sweepShares
  | recoverOpenShares
  | runDelete (copy : ℕ)
  | advance (task : ℕ) (reply : Reply)
  | unwritten (task : ℕ) (reply : Reply)
  | drop (flow : ℕ) (left : Bool)
  | store (copy : ℕ)
  | lose (copy : ℕ)
  | moveToOwner (copy : ℕ)
  | tick
  | setSharing (policy : SharingPolicy)
  | restart

/-! ## Effects -/

namespace Shares

def apply (shares : Shares) : Effect → Shares
  | .nothing => shares
  | .takeTurn flow => { shares with turn := some flow }
  | .giveTurn flow =>
    { shares with turn := if shares.turn = some flow then none else shares.turn }
  | .launch flow =>
    { shares with
      session := some flow
      aborted := Function.update shares.aborted flow false
      slots := Function.update shares.slots flow none }
  | .abort flow =>
    { shares with session := none, aborted := Function.update shares.aborted flow true }
  | .setSlot flow copy =>
    { shares with
      slots := Function.update shares.slots flow copy
      spent := (shares.slots flow).elim shares.spent fun old =>
        Function.update shares.spent old true }
  | .make => { shares with made := shares.made + 1 }
  | .send copy =>
    { shares with
      inFlight := Function.update shares.inFlight copy true
      spent := Function.update shares.spent copy true }
  | .answer copy =>
    { shares with inFlight := Function.update shares.inFlight copy false }
  | .store copy =>
    { shares with blobs := Function.update shares.blobs copy true }
  | .lose copy =>
    { shares with inFlight := Function.update shares.inFlight copy false }
  | .moveToOwner copy =>
    { shares with moved := Function.update shares.moved copy true }
  | .delete copy =>
    { shares with blobs := Function.update shares.blobs copy false }
  | .putShare record => { shares with record := some record }
  | .deleteShare => { shares with record := none }
  | .queueDelete copy notBefore =>
    { shares with
      deletes := Function.update shares.deletes copy
        (some (((shares.deletes copy).map (min notBefore)).getD
          notBefore)) }
  | .finishDelete copy =>
    { shares with deletes := Function.update shares.deletes copy none }
  | .tell copy deleteAt =>
    { shares with told := (copy, deleteAt) :: shares.told }
  | .leave flow descriptor =>
    { shares with
      turn := if shares.turn = some flow then none else shares.turn
      told := descriptor.toList ++ shares.told }
  | .tick => { shares with now := shares.now + 1 }
  | .setSharing policy => { shares with policy := policy }
  | .restart =>
    { shares with turn := none, session := none, aborted := fun _ => false, slots := fun _ => none }

end Shares

/-! ## Tasks -/

def ShareState.live : ShareState → Bool
  | .opened | .sent | .stopPending => true
  | _ => false

variable (shares : Shares)

def Shares.deletable (copy : ℕ) : Bool :=
  !shares.moved copy

/-- A record that cannot be read is taken for absent. -/
def Shares.readRecord (reply : Reply) : Option ShareRecord :=
  if reply = .lost then none else shares.record

/-- One step of `delete_share_copy`, and the next one if there is one. -/
def deleteShareCopy (record : ShareRecord) (keepRecord : Bool) (reply : Reply) :
    DeleteStage → Option (Effect × Option DeleteStage)
  | .asking =>
    if reply = .ok then
      if shares.deletable record.copy then
        some (.delete record.copy, some (.writing true))
      else none
    else some (.nothing, some .queueing)
  | .queueing =>
    some (.queueDelete record.copy 0, some (.writing false))
  | .writing deleted =>
    if keepRecord then
      if deleted then
        some (.putShare { record with state := .ended, endedAt := some shares.now }, none)
      else some (.putShare { record with state := .stopPending }, none)
    else some (.deleteShare, none)

/-- The deletion of the copy that a new one replaces, if it is still to be
deleted. -/
def replaceEffect (previous : Option ShareRecord) (copy : ℕ) : Effect :=
  match previous with
  | none => .nothing
  | some old =>
    if old.copy ≠ copy ∧ old.state.live then
      .queueDelete old.copy (if old.state = .sent then old.deleteAt.getD 0 else 0)
    else .nothing

def flowStep (number : ℕ) (again : Bool) (reply : Reply) : Stage → Option (Effect × Task)
  | .waiting =>
    if shares.turn = none then
      some (.takeTurn number, .flow again .reading)
    else none
  | .reading =>
    if reply = .ok ∨ reply = .lost then
      if again then some (.nothing, .flow again (.reusing (shares.readRecord reply)))
      else some (.nothing, .flow again (.making (shares.readRecord reply)))
    else some (.nothing, .flow again .closing)
  | .reusing previous =>
    match shares.record with
    | none => some (.nothing, .flow again (.making previous))
    | some record =>
      if record.state = .opened ∧ reply = .ok then
        some (.nothing, .flow again (.heading previous record.copy))
      else some (.nothing, .flow again (.making previous))
  | .heading previous copy =>
    if reply = .ok then some (.nothing, .flow again (.clearing copy))
    else some (.nothing, .flow again (.making previous))
  | .making previous =>
    if reply = .ok then
      some (.make, .flow again (.keying previous shares.made))
    else some (.nothing, .flow again .closing)
  | .keying previous copy =>
    some (.setSlot number (some copy), .flow again (.opening previous copy))
  | .opening previous copy =>
    if reply = .ok then
      some (.send copy, .flow again (.uploading previous copy))
    else some (.nothing, .flow again .closing)
  | .uploading previous copy =>
    if reply = .ok then
      if shares.blobs copy then
        some (.answer copy, .flow again (.replacing previous copy))
      else none
    else some (.nothing, .flow again .notUploaded)
  | .notUploaded => some (.setSlot number none, .flow again .closing)
  | .replacing previous copy =>
    some (replaceEffect previous copy, .flow again (.recording copy))
  | .recording copy =>
    some (.putShare { copy := copy, state := .opened }, .flow again (.clearing copy))
  | .clearing copy => some (.setSlot number none, .flow again (.pairing copy))
  | .pairing copy =>
    if reply = .ok then
      some (.nothing, .flow again (.sending copy (shares.now + shares.policy.expirySeconds)
        shares.policy.keepAfterDownload))
    else some (.nothing, .flow again .closing)
  | .sending copy deleteAt keep =>
    if reply = .ok then
      some (.tell copy deleteAt, .flow again (.awaitingReceipt copy deleteAt keep))
    else if reply = .lost then
      some (.tell copy deleteAt, .flow again .closing)
    else some (.nothing, .flow again .closing)
  | .awaitingReceipt copy deleteAt keep =>
    if reply = .ok then
      some (.nothing, .flow again (.recordSent copy deleteAt keep))
    else some (.nothing, .flow again .closing)
  | .recordSent copy deleteAt keep =>
    some (.putShare { copy := copy, state := .sent, deleteAt := some deleteAt },
      .flow again (.awaitingReply copy keep))
  | .awaitingReply copy keep =>
    if reply = .ok then some (.nothing, .flow again (.downloaded copy keep))
    else some (.nothing, .flow again .closing)
  | .downloaded copy keep =>
    match shares.readRecord reply with
    | none => some (.nothing, .flow again .closing)
    | some record =>
      if record.copy = copy ∧ record.state = .sent then
        some (.nothing, .flow again (.recordDownload record keep))
      else some (.nothing, .flow again .closing)
  | .recordDownload record keep =>
    if reply = .ok then
      some (.putShare record, .flow again (if keep then .closing else .deleting record .asking))
    else some (.nothing, .flow again .closing)
  | .deleting record stage =>
    (deleteShareCopy shares record true reply stage).map fun next =>
      (next.1, .flow again (next.2.elim .closing (.deleting record)))
  | .closing => some (.giveTurn number, .done)

/-- The stages in which a flow waits; an aborted flow is dropped there. -/
def Stage.awaits : Stage → Bool
  | .waiting => true
  | .heading _ _ => true
  | .making _ => true
  | .opening _ _ => true
  | .uploading _ _ => true
  | .pairing _ => true
  | .sending _ _ _ => true
  | .awaitingReceipt _ _ _ => true
  | .awaitingReply _ _ => true
  | .deleting _ .asking => true
  | .closing => true
  | _ => false

def cleanStep (flow : ℕ) (next : Then) (reply : Reply) : CleanStage → Option (Effect × Task)
  | .relay => some (.nothing, .cleaning flow .slot next)
  | .slot =>
    match shares.slots flow with
    | none => some (.nothing, .reading next)
    | some copy =>
      some (.setSlot flow none, .cleaning flow (.deleting copy) next)
  | .deleting copy =>
    if reply = .ok then
      if shares.deletable copy then some (.delete copy, .reading next)
      else none
    else some (.nothing, .cleaning flow (.queueing copy) next)
  | .queueing copy => some (.queueDelete copy 0, .reading next)

def readStep (record : Option ShareRecord) : Then → Task
  | .nothing => .done
  | .cancel =>
    match record with
    | some record =>
      if record.state = .opened then .deleteCopy record false .asking
      else .done
    | none => .done
  | .stopSharing =>
    match record with
    | some record =>
      if record.state.live then .deleteCopy record true .asking else .done
    | none => .done
  | .removeRow =>
    match record with
    | some record =>
      if record.state.live then .removeQueue record else .deleteFile
    | none => .deleteFile

def sweepStep (now : ℕ) (pending : ℕ → Bool) : Option ShareRecord → Task
  | none => .done
  | some record =>
    match record.state with
    | .sent =>
      if record.deleteAt.any fun at_ => decide (at_ ≤ now) then
        .deleteCopy record true .asking
      else .done
    | .stopPending =>
      if pending record.copy then .done else .sweepEnd now record
    | .ended | .ownerOnly =>
      if record.endedAt.any fun at_ =>
          decide (endedRecordSeconds ≤ now - at_) then
        .sweepClear record
      else .done
    | .opened => .done

def runDeleteStep (copy : ℕ) (reply : Reply) : RunStage → Option (Effect × Task)
  | .sending =>
    match reply with
    | .ok =>
      if shares.deletable copy then
        some (.delete copy, .runDelete copy (.finishing false))
      else none
    | .refused => some (.nothing, .runDelete copy .refused)
    | _ => some (.nothing, .done)
  | .refused =>
    if reply = .ok then
      if shares.moved copy then
        some (.nothing, .runDelete copy (.finishing true))
      else none
    else some (.nothing, .done)
  | .finishing ended =>
    some (.finishDelete copy, if ended then .runDelete copy .marking else .done)
  | .marking =>
    match shares.readRecord reply with
    | none => some (.nothing, .done)
    | some record =>
      if record.copy = copy ∧ record.state ≠ .ended then
        some (.nothing, .putOwnerOnly
          { record with state := .ownerOnly, endedAt := some shares.now })
      else some (.nothing, .done)

/-- One step of a task; the last part are the tasks it spawns. -/
def Task.run (number fresh : ℕ) (reply : Reply) : Task → Option (Effect × Task × List Task)
  | .starting again =>
    match shares.session with
    | none => some (.nothing, .launching again, [])
    | some current =>
      some (.abort current, .launching again, [.cleaning current .relay .nothing])
  | .launching again => some (.launch fresh, .done, [.flow again .waiting])
  | .flow again stage =>
    if shares.aborted number ∧ stage.awaits then none
    else (flowStep shares number again reply stage).map fun next =>
      (next.1, next.2, [])
  | .stopping next =>
    match shares.session with
    | none => some (.nothing, .reading next, [])
    | some current =>
      some (.abort current, .cleaning current .relay next, [])
  | .cleaning stopped stage next =>
    (cleanStep shares stopped next reply stage).map fun step =>
      (step.1, step.2, [])
  | .reading next => some (.nothing, readStep shares.record next, [])
  | .deleteCopy record keepRecord stage =>
    (deleteShareCopy shares record keepRecord reply stage).map fun next =>
      (next.1, next.2.elim .done (.deleteCopy record keepRecord), [])
  | .removeQueue record =>
    if reply = .ok then some (.queueDelete record.copy 0, .deleteFile, [])
    else some (.nothing, .done, [])
  | .deleteFile =>
    if reply = .ok then some (.deleteShare, .done, [])
    else some (.nothing, .done, [])
  | .sweeping =>
    some (.nothing, .sweepRead shares.now fun copy =>
      decide (reply ≠ .lost) && (shares.deletes copy).isSome, [])
  | .sweepRead now pending =>
    some (.nothing, sweepStep now pending (shares.readRecord reply), [])
  | .sweepEnd now record =>
    some (.putShare { record with state := .ended, endedAt := some now }, .done, [])
  | .sweepClear _ => some (.deleteShare, .done, [])
  | .runDelete copy stage =>
    (runDeleteStep shares copy reply stage).map fun next =>
      (next.1, next.2, [])
  | .putOwnerOnly record => some (.putShare record, .done, [])
  | .done => none

/-! ## Writes whose errors are ignored -/

def DeleteStage.swallows : DeleteStage → Bool
  | .asking => false
  | .queueing | .writing _ => true

def Stage.swallows : Stage → Bool
  | .replacing _ _ => true
  | .recording _ => true
  | .recordSent _ _ _ => true
  | .deleting _ stage => stage.swallows
  | _ => false

def Task.swallows : Task → Bool
  | .flow _ stage => stage.swallows
  | .cleaning _ (.queueing _) _ => true
  | .deleteCopy _ _ stage => stage.swallows
  | .sweepEnd _ _ => true
  | .sweepClear _ => true
  | .runDelete _ (.finishing _) => true
  | .putOwnerOnly _ => true
  | _ => false

/-! ## Steps -/

namespace State

def start (state : State) (task : Task) : State :=
  { state with tasks := state.tasks ++ [task] }

def write (state : State) (effect : Effect) : State :=
  { state with shares := state.shares.apply effect }

def descriptor (stage : Stage) (left : Bool) : Option (ℕ × ℕ) :=
  match stage with
  | .sending copy deleteAt _ => if left then some (copy, deleteAt) else none
  | _ => none

def put (state : State) (number : ℕ) (next : Effect × Task × List Task) : State :=
  { shares := state.shares.apply next.1
    tasks := state.tasks.set number next.2.1 ++ next.2.2 }

def step (state : State) : Action → Option State
  | .shareStart again => some (state.start (.starting again))
  | .shareCancel => some (state.start (.stopping .cancel))
  | .stopSharing => some (state.start (.stopping .stopSharing))
  | .removeRow => some (state.start (.stopping .removeRow))
  | .sweepShares => some (state.start .sweeping)
  | .recoverOpenShares =>
    match state.shares.record with
    | some record =>
      if record.state = .opened then
        some (state.start (.deleteCopy record false .asking))
      else none
    | none => none
  | .runDelete copy =>
    if (state.shares.deletes copy).any fun notBefore =>
        decide (notBefore ≤ state.shares.now) then
      some (state.start (.runDelete copy .sending))
    else none
  | .advance number reply =>
    ((state.tasks[number]?).bind (Task.run state.shares number state.tasks.length reply)).map
      (state.put number)
  | .unwritten number reply =>
    (((state.tasks[number]?).filter Task.swallows).bind
      (Task.run state.shares number state.tasks.length reply)).map
        fun next => state.put number (.nothing, next.2)
  | .drop number left =>
    match state.tasks[number]? with
    | some (.flow _ stage) =>
      if state.shares.aborted number ∧ stage.awaits then
        some (state.put number (.leave number (descriptor stage left), .done, []))
      else none
    | _ => none
  | .store copy =>
    if state.shares.inFlight copy then some (state.write (.store copy))
    else none
  | .lose copy => some (state.write (.lose copy))
  | .moveToOwner copy =>
    if state.shares.blobs copy then some (state.write (.moveToOwner copy))
    else none
  | .tick => some (state.write .tick)
  | .setSharing policy => some (state.write (.setSharing policy))
  | .restart =>
    some { shares := state.shares.apply .restart, tasks := [] }

end State

def proceed (number steps : ℕ) : List Action :=
  List.replicate steps (.advance number .ok)

end ShareFlows
end Wildbloom
