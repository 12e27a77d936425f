import Wildbloom.FileEntryModel

/-!
# The copies of the files a computer keeps

A computer keeps each file's envelope on its own node and on an online node,
and its index records where the envelope is.  Uploads, copies back, adoptions
of other computers' files, checks of the copies, folder passes, removals and
queued deletions all run at the same time.  Each of them is a task, which takes
one operation on the index, the keychain or a node at a time; an operation is
an `Effect`, and `Task.run` is what a task does next.

An id is never used for two encryptions, so a file has one envelope, and copies
and deletions are named by the file.  Replies are chosen by the outside world.
Where the source ignores the error of a write, the write may be lost; where it
ignores that of a read, the row may be taken for absent.
-/

namespace Wildbloom
namespace FileCopies

open FileEntries (LocalState)

inductive OnlineState
  | none
  | queued
  | copying
  | ok
  | waiting
  | failed
  | missing
  | full
deriving DecidableEq

inductive Node (Origin : Type)
  | localNode
  | onlineNode (origin : Origin)
deriving DecidableEq

/-- A row of `files`.  `hasEnvelope` says that its `sha256` is set. -/
structure Row (Id : Type) where
  hasEnvelope : Bool := false
  localState : LocalState
  online : OnlineState
  prev : Option Id := none
deriving DecidableEq

/-- The index, the keychain and the nodes.  `removed` are the tombstones,
`removedIds` the ids removed since the start of the program, `deletes` the
queued deletions and `onlineUrl` the online node in use.  `blobs` are the copies
that the nodes keep for this computer's key; where its approval has `ended` the
node's owner has taken them over. -/
structure Files (Id Origin : Type) where
  rows : Id → Option (Row Id) := fun _ => none
  removed : Id → Bool := fun _ => false
  removedIds : Id → Bool := fun _ => false
  onlineCopies : Id → List Origin := fun _ => []
  deletes : Node Origin → Id → Bool := fun _ _ => false
  onlineUrl : Option Origin := none
  keys : Id → Bool := fun _ => false
  blobs : Node Origin → Id → Bool := fun _ _ => false
  ended : Origin → Bool := fun _ => false

/-- One operation on the index, the keychain or a node. -/
inductive Effect (Id Origin : Type)
  | nothing
  | insertFile (id : Id) (row : Row Id)
  | setEnvelope (id : Id)
  | setLocal (id : Id) (state : LocalState)
  | setOnline (id : Id) (state : OnlineState)
  | addOnlineCopy (id : Id) (origin : Origin)
  | insertRemovedId (id : Id)
  | queueDelete (node : Node Origin) (id : Id)
  | finishDelete (node : Node Origin) (id : Id)
  | addTombstone (id : Id)
  | setFileKey (id : Id)
  | removeFileKey (id : Id)
  | deleteFile (id : Id)
  | upload (node : Node Origin) (id : Id)
  | delete (node : Node Origin) (id : Id)
  | setOnlineNode (url : Option Origin)
  | endApproval (origin : Origin)
  | approve (origin : Origin)
  | start (linked : Id → Bool)

inductive Reply
  | ok
  | failed
  | full
  | unreachable
  | unauthorised
deriving DecidableEq

inductive EncryptStage
  | opening
  | encrypting
  | keying
  | persisting
  | checking
  | dropKey (unreadable : Bool)
  | unreadable
  | setEnvelope
  | setPending
deriving DecidableEq

inductive Purpose (Origin : Type)
  | uploadLocal
  | uploadOnline (origin : Origin)
  | copyBack
  | adopted
deriving DecidableEq

/-- `landed` is after the node has stored the envelope and before this
computer reads the answer. -/
inductive CopyStage
  | reading
  | marking
  | sending
  | landed
  | answered (reply : Reply)
deriving DecidableEq

/-- The steps of `remove_row`.  `hasEnvelope` is what the row said when it was
read. -/
inductive RemoveStage (Origin : Type)
  | reading (folderLock : Bool)
  | rereading
  | flagging (hasEnvelope : Bool)
  | queueing (hasEnvelope : Bool)
  | listing
  | queueOnline (rest : List Origin)
  | tombstone
  | dropKey
  | deleteRow
deriving DecidableEq

inductive DeleteStage
  | sending
  | refused
  | answered
deriving DecidableEq

/-- A task and where it is.  `successor` of a removal is the row in whose
favour it is made, if it is made as superseded. -/
inductive Task (Id Origin : Type)
  | encrypt (id : Id) (stage : EncryptStage)
  | uploadOnline (id : Id)
  | copyBack (id : Id)
  | copy (id : Id) (purpose : Purpose Origin) (stage : CopyStage)
  | recorded (id : Id) (purpose : Purpose Origin)
  | adoptedRow (id : Id) (ok : Bool)
  | adoptedGone (id : Id)
  | completeEdit (id : Id)
  | supersede (id prev : Id)
  | remove (id : Id) (successor : Option Id) (stage : RemoveStage Origin)
  | checkOnline (id : Id)
  | checkLocal (id : Id)
  | delete (node : Node Origin) (id : Id) (stage : DeleteStage)
  | done
deriving DecidableEq

inductive SyncStage
  | asking
  | keying
  | inserting
deriving DecidableEq

/-- `sync` is the entry that `apply_key_list` is adopting. -/
structure State (Id Origin : Type) where
  files : Files Id Origin
  tasks : List (Task Id Origin) := []
  sync : Option (Id × SyncStage) := none

inductive Action (Id Origin : Type)
  | queueNewFile (id : Id) (prev : Option Id)
  | uploadLocal (id : Id)
  | uploadOnline (id : Id)
  | copyBack (id : Id)
  | checkOnline (id : Id)
  | checkLocal (id : Id)
  | settle (loser winner : Id)
  | removeRow (id : Id) (folderLock : Bool)
  | runDelete (node : Node Origin) (id : Id)
  | requeue (id : Id)
  | wait (id : Id)
  | unset (id : Id)
  | unreadable (id : Id)
  | setOnlineNode (url : Option Origin)
  | endApproval (origin : Origin)
  | approve (origin : Origin)
  | adopt (id : Id)
  | syncStep (prev : Option Id) (reply : Reply)
  | advance (task : ℕ) (reply : Reply)
  | lose (task : ℕ) (reply : Reply)
  | restart (linked : Id → Bool)

variable {Id Origin : Type}

/-! ## Effects -/

namespace Row

variable (row : Row Id)

def setLocal (state : LocalState) : Row Id :=
  { row with localState := state }

def setOnline (state : OnlineState) : Row Id :=
  { row with online := state }

def setEnvelope : Row Id := { row with hasEnvelope := true }

def start : Row Id :=
  match row.localState, row.online with
  | .encrypting, _ => row.setLocal .unreadable
  | .restoring, _ => row.setLocal .missing
  | _, .copying => row.setOnline .queued
  | _, _ => row

def ready : Bool :=
  row.hasEnvelope &&
    match row.localState with
    | .encrypting | .unreadable | .restoring => false
    | _ => true

end Row

namespace Files

variable [DecidableEq Id] [DecidableEq Origin]

variable (files : Files Id Origin) (node : Node Origin) (id : Id)

def update (write : Row Id → Row Id) : Files Id Origin :=
  { files with rows := Function.update files.rows id ((files.rows id).map write) }

def setDelete (queued : Bool) : Files Id Origin :=
  { files with
    deletes := Function.update files.deletes node
      (Function.update (files.deletes node) id queued) }

def setBlob (stored : Bool) : Files Id Origin :=
  { files with
    blobs := Function.update files.blobs node
      (Function.update (files.blobs node) id stored) }

/-- An import that was cut off while it was encrypted is forgotten if its row
is linked to a file in the folder; `linked` are the rows so linked. -/
def forgets (linked : Id → Bool) (id : Id) : Bool :=
  (files.rows id).any (fun row => decide (row.localState = .encrypting)) && linked id

def apply : Effect Id Origin → Files Id Origin
  | .nothing => files
  | .insertFile id row =>
    { files with rows := Function.update files.rows id (some row) }
  | .setEnvelope id => files.update id (·.setEnvelope)
  | .setLocal id state => files.update id (·.setLocal state)
  | .setOnline id state => files.update id (·.setOnline state)
  | .addOnlineCopy id origin =>
    { files with
      onlineCopies := Function.update files.onlineCopies id
        (files.onlineCopies id |>.insert origin) }
  | .insertRemovedId id =>
    { files with removedIds := Function.update files.removedIds id true }
  | .queueDelete node id => files.setDelete node id true
  | .finishDelete node id => files.setDelete node id false
  | .addTombstone id =>
    { files with removed := Function.update files.removed id true }
  | .setFileKey id =>
    { files with keys := Function.update files.keys id true }
  | .removeFileKey id =>
    { files with keys := Function.update files.keys id false }
  | .deleteFile id =>
    { files with
      rows := Function.update files.rows id none
      onlineCopies := Function.update files.onlineCopies id [] }
  | .upload node id => files.setBlob node id true
  | .delete node id => files.setBlob node id false
  | .setOnlineNode url => { files with onlineUrl := url }
  | .endApproval origin =>
    { files with
      ended := Function.update files.ended origin true
      blobs := Function.update files.blobs (.onlineNode origin)
        fun _ => false }
  | .approve origin =>
    { files with ended := Function.update files.ended origin false }
  | .start linked =>
    { files with
      rows := fun id =>
        if files.forgets linked id then none
        else (files.rows id).map (·.start)
      onlineCopies := fun id =>
        if files.forgets linked id then [] else files.onlineCopies id
      keys := fun id => files.keys id && !files.forgets linked id
      removedIds := fun _ => false }

def readRow (reply : Reply) : Option (Row Id) :=
  if reply = .unreachable then none else files.rows id

def wasRemoved (reply : Reply) : Bool :=
  files.removedIds id || (files.readRow id reply).isNone

def accepts : Node Origin → Bool
  | .localNode => true
  | .onlineNode origin => !files.ended origin

end Files

/-! ## Tasks -/

namespace Purpose

def node : Purpose Origin → Node Origin
  | .uploadOnline origin => .onlineNode origin
  | _ => .localNode

/-- Where a copy goes on if its file, or the node it reads from, is not
there. -/
def unread (purpose : Purpose Origin) (id : Id) : Task Id Origin :=
  match purpose with
  | .copyBack | .adopted => .copy id purpose (.answered .failed)
  | _ => .done

end Purpose

def Reply.onlineState : Reply → OnlineState
  | .ok => .ok
  | .full => .full
  | .unreachable | .unauthorised => .waiting
  | .failed => .failed

def Reply.localState (reply : Reply) : LocalState :=
  if reply = .ok then .ok else .missing

section Tasks

variable [DecidableEq Id] [DecidableEq Origin]

variable (files : Files Id Origin) (id : Id) (reply : Reply)

def encryptStep : EncryptStage → Effect Id Origin × Task Id Origin
  | .opening =>
    match files.rows id with
    | none => (.nothing, .done)
    | some _ => (.nothing, .encrypt id .encrypting)
  | .encrypting =>
    if files.wasRemoved id reply then (.nothing, .done)
    else if reply = .ok then (.nothing, .encrypt id .keying)
    else (.nothing, .encrypt id .unreadable)
  | .keying =>
    if reply = .ok then (.setFileKey id, .encrypt id .persisting)
    else (.nothing, .encrypt id .unreadable)
  | .persisting =>
    if reply = .ok then (.nothing, .encrypt id .checking)
    else (.nothing, .encrypt id (.dropKey true))
  | .checking =>
    if files.wasRemoved id reply then (.nothing, .encrypt id (.dropKey false))
    else (.nothing, .encrypt id .setEnvelope)
  | .dropKey unreadable =>
    (.removeFileKey id, if unreadable then .encrypt id .unreadable else .done)
  | .unreadable => (.setLocal id .unreadable, .done)
  | .setEnvelope => (.setEnvelope id, .encrypt id .setPending)
  | .setPending => (.setLocal id .pending, .copy id .uploadLocal .reading)

def answerStep (answer : Reply) : Purpose Origin → Effect Id Origin × Task Id Origin
  | .uploadLocal =>
    if answer = .ok then (.setLocal id .ok, .recorded id .uploadLocal)
    else (.nothing, .done)
  | .uploadOnline origin =>
    if answer = .ok then
      (.setOnline id .ok, .recorded id (.uploadOnline origin))
    else (.setOnline id answer.onlineState, .done)
  | .copyBack => (.setLocal id answer.localState, .done)
  | .adopted =>
    match files.readRow id reply with
    | some _ => (.nothing, .adoptedRow id (decide (answer = .ok)))
    | none =>
      if answer = .ok then (.nothing, .adoptedGone id) else (.nothing, .done)

def copyStep (purpose : Purpose Origin) (reply : Reply) :
    CopyStage → Option (Effect Id Origin × Task Id Origin)
  | .reading =>
    match files.rows id with
    | none => some (.nothing, purpose.unread id)
    | some row =>
      if row.hasEnvelope ∧ reply = .ok then
        some (.nothing, .copy id purpose .sending)
      else some (.nothing, purpose.unread id)
  | .marking => some (.setOnline id .copying, .copy id purpose .sending)
  | .sending =>
    if reply = .ok then
      if files.accepts purpose.node then
        some (.upload purpose.node id, .copy id purpose .landed)
      else none
    else some (.nothing, .copy id purpose (.answered reply))
  | .landed => some (.nothing, .copy id purpose (.answered reply))
  | .answered answer => some (answerStep files id reply answer purpose)

/-- A reply other than `ok` is an error that ends the removal. -/
def removeStep (successor : Option Id) (reply : Reply) :
    RemoveStage Origin → Effect Id Origin × Task Id Origin
  | .reading folderLock =>
    match files.rows id with
    | none => (.nothing, .done)
    | some row =>
      if folderLock then (.nothing, .remove id successor .rereading)
      else (.nothing, .remove id successor (.flagging row.hasEnvelope))
  | .rereading =>
    match files.rows id with
    | none => (.nothing, .done)
    | some row =>
      if reply = .ok then
        (.nothing, .remove id successor (.flagging row.hasEnvelope))
      else (.nothing, .done)
  | .flagging hasEnvelope =>
    (.insertRemovedId id, .remove id successor (.queueing hasEnvelope))
  | .queueing hasEnvelope =>
    if hasEnvelope then
      if reply = .ok then
        (.queueDelete .localNode id, .remove id successor .listing)
      else (.nothing, .done)
    else (.nothing, .remove id successor .tombstone)
  | .listing =>
    if reply = .ok then
      (.nothing, .remove id successor (.queueOnline (files.onlineCopies id)))
    else (.nothing, .done)
  | .queueOnline [] => (.nothing, .remove id successor .tombstone)
  | .queueOnline (origin :: rest) =>
    if reply = .ok then
      (.queueDelete (.onlineNode origin) id, .remove id successor (.queueOnline rest))
    else (.nothing, .done)
  | .tombstone =>
    if reply = .ok then (.addTombstone id, .remove id successor .dropKey)
    else (.nothing, .done)
  | .dropKey =>
    if reply = .ok then (.removeFileKey id, .remove id successor .deleteRow)
    else (.nothing, .done)
  | .deleteRow =>
    if reply = .ok then (.deleteFile id, .done) else (.nothing, .done)

/-- A deletion that is refused asks whether the approval has ended. -/
def deleteStep (node : Node Origin) (id : Id) (reply : Reply) :
    DeleteStage → Option (Effect Id Origin × Task Id Origin)
  | .sending =>
    match reply, node with
    | .ok, _ => some (.delete node id, .delete node id .answered)
    | .unauthorised, .onlineNode _ =>
      some (.nothing, .delete node id .refused)
    | _, _ => some (.nothing, .done)
  | .refused =>
    match node with
    | .localNode => some (.nothing, .done)
    | .onlineNode origin =>
      if reply = .ok then
        if files.ended origin then
          some (.nothing, .delete node id .answered)
        else none
      else some (.nothing, .done)
  | .answered => some (.finishDelete node id, .done)

def Task.run : Task Id Origin → Option (Effect Id Origin × Task Id Origin)
  | .encrypt id stage => some (encryptStep files id reply stage)
  | .uploadOnline id =>
    match files.rows id, files.onlineUrl with
    | some row, some origin =>
      if row.hasEnvelope ∧ reply = .ok then
        some (.nothing, .copy id (.uploadOnline origin) .marking)
      else some (.nothing, .done)
    | _, _ => some (.nothing, .done)
  | .copyBack id =>
    if reply = .ok then
      some (.setLocal id .restoring, .copy id .copyBack .reading)
    else some (.nothing, .done)
  | .copy id purpose stage => copyStep files id purpose reply stage
  | .recorded id .uploadLocal =>
    match files.onlineUrl with
    | none => some (.nothing, .completeEdit id)
    | some _ => some (.nothing, .done)
  | .recorded id (.uploadOnline origin) =>
    some (.addOnlineCopy id origin, .completeEdit id)
  | .recorded _ _ => some (.nothing, .done)
  | .adoptedRow id ok =>
    some (.setLocal id (if ok then .ok else .missing), .done)
  | .adoptedGone id => some (.queueDelete .localNode id, .done)
  | .completeEdit id =>
    match (files.rows id).bind (·.prev) with
    | none => some (.nothing, .done)
    | some prev => some (.nothing, .supersede id prev)
  | .supersede id prev =>
    match files.rows prev with
    | none => some (.nothing, .done)
    | some _ => some (.nothing, .remove prev (some id) (.reading false))
  | .remove id successor stage =>
    some (removeStep files id successor reply stage)
  | .checkOnline id =>
    if reply = .ok then some (.nothing, .done)
    else some (.setOnline id .missing, .done)
  | .checkLocal id =>
    if reply = .ok then some (.nothing, .done)
    else some (.setLocal id .missing, .done)
  | .delete node id stage => deleteStep files node id reply stage
  | .done => none

/-- The write that the task does next is one whose error is ignored. -/
def Task.swallows : Task Id Origin → Bool
  | .encrypt _ (.dropKey _) => true
  | .encrypt _ .unreadable => true
  | .encrypt _ .setEnvelope => true
  | .encrypt _ .setPending => true
  | .copy _ _ .marking => true
  | .copy _ _ (.answered _) => true
  | .recorded _ _ => true
  | .adoptedRow _ _ => true
  | .adoptedGone _ => true
  | .checkOnline _ => true
  | .checkLocal _ => true
  | .delete _ _ .answered => true
  | _ => false

/-! ## Steps -/

def newRow (prev : Option Id) : Row Id where
  localState := .encrypting
  online := if files.onlineUrl.isSome then .queued else .none
  prev := prev

def rowForEntry (prev : Option Id) : Row Id where
  hasEnvelope := true
  localState := .restoring
  online := .ok
  prev := prev

def Row.due (row : Row Id) : Bool :=
  row.hasEnvelope &&
    (match row.localState with
      | .unreadable | .encrypting => false
      | _ => true) &&
    match row.online with
    | .queued | .waiting | .failed => true
    | _ => false

namespace State

/-- What a step does to the files, and the tasks and the adoption after it. -/
structure Turn (Id Origin : Type) where
  effect : Effect Id Origin := .nothing
  tasks : List (Task Id Origin)
  sync : Option (Id × SyncStage)

variable (state : State Id Origin)

def write (effect : Effect Id Origin) : Turn Id Origin :=
  { effect := effect, tasks := state.tasks, sync := state.sync }

def startIf (id : Id) (test : Row Id → Bool) (task : Task Id Origin) : Option (Turn Id Origin) :=
  if (state.files.rows id).any test then
    some { tasks := state.tasks ++ [task], sync := state.sync }
  else none

def syncTurn (id : Id) (prev : Option Id) (reply : Reply) : SyncStage → Turn Id Origin
  | .asking =>
    { tasks := state.tasks
      sync := if reply = .ok then some (id, .keying) else none }
  | .keying =>
    if reply = .ok then
      { effect := .setFileKey id, tasks := state.tasks, sync := some (id, .inserting) }
    else { tasks := state.tasks, sync := none }
  | .inserting =>
    if reply = .ok then
      { effect := .insertFile id (rowForEntry prev)
        tasks := state.tasks ++ [.copy id .adopted .reading]
        sync := none }
    else { tasks := state.tasks, sync := none }

/-- The effect of an action and what it leaves to do.  A new id is drawn at
random, so it is the id of no row, no tombstone and no entry.  The rows that
are requeued, set to wait, unset or marked unreadable are chosen by passes over
the index that the outside world makes. -/
def turn : Action Id Origin → Option (Turn Id Origin)
  | .queueNewFile id prev =>
    if state.files.rows id = none ∧ state.files.removed id = false ∧
        state.sync.all (fun entry => decide (entry.1 ≠ id)) then
      some
        { effect := .insertFile id (newRow state.files prev)
          tasks := state.tasks ++ [.encrypt id .opening]
          sync := state.sync }
    else none
  | .uploadLocal id =>
    state.startIf id (fun row => decide (row.localState = .pending))
      (.copy id .uploadLocal .reading)
  | .uploadOnline id => state.startIf id Row.due (.uploadOnline id)
  | .copyBack id =>
    state.startIf id (fun row => decide (row.localState = .missing)) (.copyBack id)
  | .checkOnline id =>
    state.startIf id
      (fun row => row.hasEnvelope && decide (row.online = .ok)) (.checkOnline id)
  | .checkLocal id =>
    state.startIf id
      (fun row => row.hasEnvelope && decide (row.localState = .ok)) (.checkLocal id)
  | .settle loser winner =>
    if (state.files.rows loser).any Row.ready ∧ (state.files.rows winner).any Row.ready then
      some
        { tasks := state.tasks ++ [.remove loser (some winner) (.reading false)]
          sync := state.sync }
    else none
  | .removeRow id folderLock =>
    some
      { tasks := state.tasks ++ [.remove id none (.reading folderLock)]
        sync := state.sync }
  | .runDelete node id =>
    if state.files.deletes node id then
      some
        { tasks := state.tasks ++ [.delete node id .sending]
          sync := state.sync }
    else none
  | .requeue id => some (state.write (.setOnline id .queued))
  | .wait id => some (state.write (.setOnline id .waiting))
  | .unset id => some (state.write (.setOnline id .none))
  | .unreadable id => some (state.write (.setLocal id .unreadable))
  | .setOnlineNode url => some (state.write (.setOnlineNode url))
  | .endApproval origin => some (state.write (.endApproval origin))
  | .approve origin => some (state.write (.approve origin))
  | .adopt id =>
    if state.sync = none ∧ state.files.removedIds id = false ∧
        state.files.rows id = none ∧ state.files.removed id = false then
      some { tasks := state.tasks, sync := some (id, .asking) }
    else none
  | .syncStep prev reply =>
    state.sync.map fun entry => state.syncTurn entry.1 prev reply entry.2
  | .advance task reply =>
    ((state.tasks[task]?).bind (Task.run state.files reply)).map fun next =>
      { effect := next.1, tasks := state.tasks.set task next.2, sync := state.sync }
  -- The task goes on as if it had written.
  | .lose task reply =>
    (((state.tasks[task]?).filter Task.swallows).bind (Task.run state.files reply)).map
      fun next => { tasks := state.tasks.set task next.2, sync := state.sync }
  | .restart linked =>
    some { effect := .start linked, tasks := [], sync := none }

def step (action : Action Id Origin) : Option (State Id Origin) :=
  (state.turn action).map fun turn =>
    { files := state.files.apply turn.effect, tasks := turn.tasks, sync := turn.sync }

end State

def Action.loses : Action Id Origin → Bool
  | .lose _ _ => true
  | _ => false

def proceed (number steps : ℕ) : List (Action Id Origin) :=
  List.replicate steps (.advance number .ok)

end Tasks

end FileCopies
end Wildbloom
