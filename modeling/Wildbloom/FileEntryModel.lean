import Wildbloom.KeySyncModel

/-!
# From a file on disk to its key list entry

A new file is measured and hashed when it is queued, and its row keeps what was
measured.  The encryption reads the file again later and seals what it finds.
The key list entry is then built in one of two places: by the encryption, from
what it sealed, or by reconciling the list with the rows, from what the row
keeps.  Other programs may change the file at any time.

Tasks take a file in step by step; a task's number is the id of its file, which
in the source is drawn at random.  Envelopes are numbered as they are sealed,
and the number stands for both their SHA-256 and their key.
-/

namespace Wildbloom
namespace FileEntries

open KeyLists (KeyList maxSafeInteger)
open KeySync (Index)

structure Rules (Path Name Media Content Hash : Type) where
  sanitiseName : Path → Name
  guessMediaType : Name → Media
  normaliseMediaType : Media → Option Media
  noMediaType : Media
  noName : Name
  length : Content → ℕ
  sha256 : Content → Hash
  envelopeBytes : Name → Media → ℕ → ℕ
  validName : Name → Bool
  validPath : Name → Bool
  validFrom : Name → Bool
  dropMaxBytes : ℕ
  minEnvelopeBytes : ℕ
  normalise_normalised : ∀ mediaType normal, normaliseMediaType mediaType = some normal →
      normaliseMediaType normal = some normal
  validPath_noName : validPath noName = false

structure Columns (Name Hash : Type) where
  name : Name
  bytes : ℕ
  added : ℕ
  path : Name
  prev : Option ℕ
  origin : Name
  entryPlain : Option Hash
deriving DecidableEq

inductive LocalState
  | encrypting
  | pending
  | ok
  | restoring
  | missing
  | unreadable
deriving DecidableEq

/-- `linked` says that the row is linked to a file in the folder. -/
structure FileRecord (Name Media Hash : Type) where
  id : ℕ
  columns : Columns Name Hash
  mediaType : Media
  plainSha256 : Option Hash
  sha256 : Option ℕ := none
  size : Option ℕ := none
  localState : LocalState
  linked : Bool
deriving DecidableEq

structure EntryData (Name Media Hash : Type) where
  sha256 : ℕ
  size : ℕ
  key : ℕ
  name : Name
  mediaType : Media
  bytes : ℕ
  added : ℕ
  path : Name
  prev : Option ℕ
  plain : Option Hash
  origin : Name
deriving DecidableEq

/-- What was sealed for a row: the content and the envelope's metadata. -/
structure Envelope (Name Media Content Hash : Type) where
  id : ℕ
  columns : Columns Name Hash
  content : Content
  name : Name
  mediaType : Media
  size : ℕ

structure File (Content : Type) where
  content : Content
  mtime : ℕ

/-- How a file comes in: from the window, with the folder mirror on or off, or
from the folder, at a path and perhaps as an edit. -/
inductive Arrival (Name : Type)
  | window (mirror : Bool) (freePath : Name)
  | folder (rel : Name) (prev : Option ℕ)

/-- Where the task of a file is.  From `hash` to `queue` it is taken in, the
rest is `encrypt_and_keep`.  The columns of `encrypt` are those of the row that
was queued; the encryption itself reads the row. -/
inductive Task (Path Name Media Hash : Type)
  | hash (arrival : Arrival Name) (source : Path) (bytes mtime : ℕ)
  | restat (arrival : Arrival Name) (source : Path) (bytes mtime : ℕ)
      (plain : Hash)
  | queue (arrival : Arrival Name) (source : Path) (bytes : ℕ) (plain : Hash)
  | encrypt (source : Path) (columns : Columns Name Hash)
  | setKey (record : FileRecord Name Media Hash) (sha : ℕ)
  | persist (record : FileRecord Name Media Hash) (sha : ℕ)
  | setEnvelope (record : FileRecord Name Media Hash) (sha : ℕ)
  | setMediaType (record : FileRecord Name Media Hash) (sha : ℕ)
  | setPending (record : FileRecord Name Media Hash) (sha : ℕ)
  | insertEntry (record : FileRecord Name Media Hash) (sha : ℕ)
  | done

variable {Computer Path Name Media Content Hash : Type}

structure Local (Path Name Media Content Hash : Type) where
  computerName : Name
  disk : Path → Option (File Content)
  rows : List (FileRecord Name Media Hash) := []
  keychain : ℕ → Option ℕ := fun _ => none
  tombstones : List (ℕ × ℕ) := []
  removedIds : List ℕ := []
  slot : Option (KeyList ℕ (EntryData Name Media Hash)) := none
  sealedCopy : Option (KeyList ℕ (EntryData Name Media Hash)) := none

/-- `copies` are the key lists ever uploaded and `built` the entries ever
built. -/
structure State (Computer Path Name Media Content Hash : Type) where
  computers : Computer → Local Path Name Media Content Hash
  tasks : List (Computer × Task Path Name Media Hash) := []
  envelopes : List (Envelope Name Media Content Hash) := []
  copies : List (KeyList ℕ (EntryData Name Media Hash)) := []
  built : List (ℕ × EntryData Name Media Hash) := []

section Entries

variable [DecidableEq Name] [DecidableEq Media] (rules : Rules Path Name Media Content Hash)

def checkEntry (id : ℕ) (entry : EntryData Name Media Hash) : Bool :=
  rules.validName entry.name &&
    decide (rules.normaliseMediaType entry.mediaType = some entry.mediaType) &&
    decide (rules.minEnvelopeBytes ≤ entry.size) &&
    decide (entry.size ≤ maxSafeInteger) && decide (entry.bytes < entry.size) &&
    decide (0 < entry.added) && decide (entry.added ≤ maxSafeInteger) &&
    (decide (entry.path = entry.name) || rules.validPath entry.path) &&
    decide (entry.prev ≠ some id) && rules.validFrom entry.origin

/-- The entry `encrypt_and_keep` builds: sizes and names from what was sealed,
the rest from the row. -/
def Envelope.entry (envelope : Envelope Name Media Content Hash)
    (columns : Columns Name Hash) (sha : ℕ) : EntryData Name Media Hash where
  sha256 := sha
  size := envelope.size
  key := sha
  name := envelope.name
  mediaType := envelope.mediaType
  bytes := rules.length envelope.content
  added := columns.added
  path := if columns.path = columns.name then envelope.name else columns.path
  prev := columns.prev
  plain := columns.entryPlain
  origin := columns.origin

/-- The path a row's entry carries; rows from before the column have none. -/
def Columns.entryPath (columns : Columns Name Hash) : Name :=
  if columns.path = rules.noName then columns.name else columns.path

/-- The entry `reconcile_key_list` builds from a row, if it has an envelope and
a key. -/
def FileRecord.entry (row : FileRecord Name Media Hash)
    (keychain : ℕ → Option ℕ) : Option (ℕ × EntryData Name Media Hash) :=
  if row.localState = .unreadable ∨ row.localState = .encrypting then none
  else
    match row.sha256, row.size, keychain row.id with
    | some sha, some size, some key =>
      some (row.id,
        { sha256 := sha
          size := size
          key := key
          name := row.columns.name
          mediaType :=
            (rules.normaliseMediaType row.mediaType).getD rules.noMediaType
          bytes := row.columns.bytes
          added := row.columns.added
          path := row.columns.entryPath rules
          prev := row.columns.prev
          plain := row.columns.entryPlain
          origin := row.columns.origin })
    | _, _, _ => none

end Entries

def rowForEntry (id : ℕ) (entry : EntryData Name Media Hash) : FileRecord Name Media Hash where
  id := id
  columns :=
    { name := entry.name
      bytes := entry.bytes
      added := entry.added
      path := entry.path
      prev := entry.prev
      origin := entry.origin
      entryPlain := entry.plain }
  mediaType := entry.mediaType
  plainSha256 := entry.plain
  sha256 := some entry.sha256
  size := some entry.size
  localState := .restoring
  linked := false

namespace Local

section

variable (computer : Local Path Name Media Content Hash) (id : ℕ)

def file : Option (FileRecord Name Media Hash) :=
  computer.rows.find? fun row => row.id = id

def wasRemoved : Bool :=
  decide (id ∈ computer.removedIds) || (computer.file id).isNone

def updateRow (change : FileRecord Name Media Hash → FileRecord Name Media Hash) :
    Local Path Name Media Content Hash :=
  { computer with rows := computer.rows.map fun row => if row.id = id then change row else row }

def setLocal (localState : LocalState) : Local Path Name Media Content Hash :=
  computer.updateRow id fun row => { row with localState := localState }

def encryptFailed : Local Path Name Media Content Hash :=
  if computer.wasRemoved id then computer else computer.setLocal id .unreadable

def setFileKey (id key : ℕ) : Local Path Name Media Content Hash :=
  { computer with keychain := Function.update computer.keychain id (some key) }

def removeFileKey : Local Path Name Media Content Hash :=
  { computer with keychain := Function.update computer.keychain id none }

end

section Lists

variable [DecidableEq Name] [DecidableEq Media] [DecidableEq Hash]
  (rules : Rules Path Name Media Content Hash)
  (computer : Local Path Name Media Content Hash)

def index : Index ℕ (EntryData Name Media Hash) where
  tombstones := computer.tombstones
  files := computer.rows.filterMap fun row => row.entry rules computer.keychain

def reconcile (list : KeyList ℕ (EntryData Name Media Hash)) :
    KeyList ℕ (EntryData Name Media Hash) :=
  KeySync.Local.reconcileKeyList (checkEntry rules) (computer.index rules) list

/-- The entries that `reconcile` builds: those of files that the list, with the
recorded removals, does not know. -/
def builtEntries (list : KeyList ℕ (EntryData Name Media Hash)) :
    List (ℕ × EntryData Name Media Hash) :=
  (computer.index rules).files.filter fun file =>
    ¬ list.Holds file.1 ∧ file.1 ∉ Tables.keys computer.tombstones

/-- Load the list if it is not in memory: the sealed copy, or an empty list if
there is none or it is rebuilt, reconciled with the rows. -/
def loadKeyList (rebuild : Bool) :
    Local Path Name Media Content Hash × List (ℕ × EntryData Name Media Hash) :=
  match computer.slot with
  | some _ => (computer, [])
  | none =>
    let list := if rebuild then {} else computer.sealedCopy.getD {}
    ({ computer with slot := some (computer.reconcile rules list) },
      computer.builtEntries rules list)

end Lists

inductive Placing (Hash : Type)
  | notReady
  | unreadable
  | refused
  | placed (hash : Hash)
deriving DecidableEq

/-- Fetch and decrypt the envelope of a row, and compare the plaintext with
the hash its entry names. -/
def placeRow [DecidableEq Hash] (rules : Rules Path Name Media Content Hash)
    (envelopes : List (Envelope Name Media Content Hash))
    (computer : Local Path Name Media Content Hash)
    (row : FileRecord Name Media Hash) : Placing Hash :=
  match row.sha256, computer.keychain row.id with
  | some sha, some key =>
    match envelopes[sha]? with
    | some envelope =>
      let hash := rules.sha256 envelope.content
      if key ≠ sha then .unreadable
      else if row.columns.entryPlain.any fun expect => expect ≠ hash then
        .refused
      else .placed hash
    | none => .notReady
  | _, _ => .notReady

end Local

/-! ## Tasks -/

section Tasks

variable [DecidableEq Name] [DecidableEq Media] [DecidableEq Hash]
  (rules : Rules Path Name Media Content Hash)

def Arrival.columns (arrival : Arrival Name) (computerName : Name)
    (source : Path) (bytes now : ℕ) (plain : Hash) : Columns Name Hash :=
  let name := rules.sanitiseName source
  match arrival with
  | .window true freePath =>
    { name := name, bytes := bytes, added := now, path := freePath,
      prev := none, origin := computerName, entryPlain := some plain }
  | .window false _ =>
    { name := name, bytes := bytes, added := now, path := name,
      prev := none, origin := rules.noName, entryPlain := none }
  | .folder rel prev =>
    { name := name, bytes := bytes, added := now, path := rel,
      prev := prev, origin := computerName, entryPlain := some plain }

def Arrival.linked : Arrival Name → Bool
  | .window _ _ => false
  | .folder _ _ => true

/-- The row and the task `queue_new_file` makes, if the path and the computer's
name may stand in an entry. -/
def queueNewFile (arrival : Arrival Name) (computerName : Name)
    (source : Path) (bytes now : ℕ) (plain : Hash) (id : ℕ) : Option (FileRecord Name Media Hash) :=
  let columns := arrival.columns rules computerName source bytes now plain
  if (columns.path = columns.name ∨ rules.validPath columns.path = true) ∧
      rules.validFrom columns.origin = true then
    some
      { id := id
        columns := columns
        mediaType := rules.guessMediaType columns.name
        plainSha256 := some plain
        localState := .encrypting
        linked := arrival.linked }
  else none

def encryptNewFile (computer : Local Path Name Media Content Hash)
    (record : FileRecord Name Media Hash) (source : Path) :
    Option (Envelope Name Media Content Hash) := do
  let file ← computer.disk source
  let mediaType ← rules.normaliseMediaType record.mediaType
  if 0 < rules.length file.content ∧ rules.length file.content ≤ rules.dropMaxBytes then
    let name := rules.sanitiseName source
    some
      { id := record.id
        columns := record.columns
        content := file.content
        name := name
        mediaType := mediaType
        size := rules.envelopeBytes name mediaType (rules.length file.content) }
  else none

/-- What a step of a task leaves behind: its computer, the next task, an envelope it
sealed and the entries it built. -/
structure Result (Path Name Media Content Hash : Type) where
  computer : Local Path Name Media Content Hash
  task : Task Path Name Media Hash
  sealedFile : Option (Envelope Name Media Content Hash) := none
  built : List (ℕ × EntryData Name Media Hash) := []

/-- One step of the task with number `id`.  `ok` is the outcome of the call it
makes, `now` the clock; `envelopes` are those sealed so far. -/
def Task.step (envelopes : List (Envelope Name Media Content Hash))
    (computer : Local Path Name Media Content Hash) (id : ℕ) (ok : Bool) (now : ℕ) :
    Task Path Name Media Hash → Option (Result Path Name Media Content Hash)
  | .hash arrival source bytes mtime =>
    match computer.disk source with
    | some file =>
      let plain := rules.sha256 file.content
      match arrival with
      | .window _ _ =>
        -- the same content again is reported as a duplicate
        if computer.rows.any fun row => row.plainSha256 = some plain then
          some ⟨computer, .done, none, []⟩
        else some ⟨computer, .queue arrival source bytes plain, none, []⟩
      | .folder _ _ =>
        some ⟨computer, .restat arrival source bytes mtime plain, none, []⟩
    | none => some ⟨computer, .done, none, []⟩
  | .restat arrival source bytes mtime plain =>
    match computer.disk source with
    | some file =>
      if rules.length file.content = bytes ∧ file.mtime = mtime then
        some ⟨computer, .queue arrival source bytes plain, none, []⟩
      else some ⟨computer, .done, none, []⟩
    | none => some ⟨computer, .done, none, []⟩
  | .queue arrival source bytes plain =>
    match queueNewFile rules arrival computer.computerName source bytes now plain id with
    | some record =>
      some ⟨{ computer with rows := computer.rows ++ [record] },
        .encrypt source record.columns, none, []⟩
    | none => some ⟨computer, .done, none, []⟩
  | .encrypt source _ =>
    match computer.file id with
    | none => some ⟨computer, .done, none, []⟩
    | some record =>
      match encryptNewFile rules computer record source with
      | some envelope =>
        if ok then
          some ⟨computer, .setKey record envelopes.length, some envelope, []⟩
        else some ⟨computer.encryptFailed id, .done, none, []⟩
      | none => some ⟨computer.encryptFailed id, .done, none, []⟩
  | .setKey record sha =>
    if computer.wasRemoved id then some ⟨computer, .done, none, []⟩
    else if ok then
      some ⟨computer.setFileKey id sha, .persist record sha, none, []⟩
    else some ⟨computer.setLocal id .unreadable, .done, none, []⟩
  | .persist record sha =>
    if ok then some ⟨computer, .setEnvelope record sha, none, []⟩
    else
      some ⟨(computer.removeFileKey id).setLocal id .unreadable, .done, none, []⟩
  | .setEnvelope record sha =>
    if computer.wasRemoved id then
      some ⟨computer.removeFileKey id, .done, none, []⟩
    else
      let size := (envelopes[sha]?).map fun envelope => envelope.size
      some ⟨if ok then computer.updateRow id fun row =>
          { row with sha256 := some sha, size := size } else computer,
        .setMediaType record sha, none, []⟩
  | .setMediaType record sha =>
    let updated := (envelopes[sha]?).map fun envelope =>
      computer.updateRow id fun row =>
        { row with mediaType := envelope.mediaType }
    some ⟨if ok then updated.getD computer else computer, .setPending record sha, none, []⟩
  | .setPending record sha =>
    some ⟨if ok then computer.setLocal id .pending else computer, .insertEntry record sha, none, []⟩
  | .insertEntry record sha =>
    let (loaded, reconciled) :=
      if ok then computer.loadKeyList rules false else (computer, [])
    match loaded.slot, envelopes[sha]? with
    | some list, some envelope =>
      let entry := envelope.entry rules record.columns sha
      some
        ⟨{ loaded with
            slot := some
              (match list.insert (checkEntry rules) id entry with
              | .ok next => next
              | .error _ => list) },
          .done, none, reconciled ++ [(id, entry)]⟩
    | _, _ => some ⟨loaded, .done, none, reconciled⟩
  | .done => none

end Tasks

/-! ## Runs -/

/-- `write` is another program's.  `load`, `reconcile`, `sealList`,
`publish`, `pull` and `adopt` are the parts of syncs and pulls that touch entries; `place`
writes a plaintext to the folder; `mark` is any other change of a row's state.
`restart` ends a program and starts it again. -/
inductive Action (Computer Path Name Content : Type)
  | write (computer : Computer) (path : Path) (file : Option (File Content))
  | add (computer : Computer) (arrival : Arrival Name) (source : Path)
  | advance (task : ℕ) (ok : Bool) (now : ℕ)
  | load (computer : Computer) (rebuild : Bool)
  | reconcile (computer : Computer)
  | sealList (computer : Computer)
  | lose (computer : Computer)
  | publish (computer : Computer)
  | pull (computer : Computer) (copy : ℕ)
  | adopt (computer : Computer) (id : ℕ)
  | place (computer : Computer) (id : ℕ)
  | mark (computer : Computer) (id : ℕ) (localState : LocalState)
  | remove (computer : Computer) (id : ℕ) (removedAt : ℕ)
  | restart (computer : Computer) (mirror : Bool)

def restartRow (mirror : Bool) (row : FileRecord Name Media Hash) :
    Option (FileRecord Name Media Hash) :=
  match row.localState with
  | .encrypting =>
    if row.linked && mirror then none
    else some { row with localState := .unreadable }
  | .restoring => some { row with localState := .missing }
  | _ => some row

def Local.restart (computer : Local Path Name Media Content Hash)
    (mirror : Bool) : Local Path Name Media Content Hash :=
  { computer with
    rows := computer.rows.filterMap (restartRow mirror)
    keychain := fun id =>
      if computer.rows.any fun row =>
          row.id = id && (restartRow mirror row).isNone then none
      else computer.keychain id
    removedIds := []
    slot := none }

def Local.remove (computer : Local Path Name Media Content Hash) (id : ℕ)
    (removedAt : ℕ) : Local Path Name Media Content Hash :=
  { computer.removeFileKey id with
    rows := computer.rows.filter fun row => row.id ≠ id
    tombstones := computer.tombstones ++ [(id, removedAt)]
    removedIds := id :: computer.removedIds
    slot := computer.slot.map fun list =>
      match list.remove id removedAt with
      | .ok next => next
      | .error _ => list }

section Step

variable [DecidableEq Computer] [DecidableEq Path] [DecidableEq Name]
  [DecidableEq Media] [DecidableEq Hash]
  (rules : Rules Path Name Media Content Hash)

def State.put (state : State Computer Path Name Media Content Hash)
    (name : Computer) (computer : Local Path Name Media Content Hash)
    (built : List (ℕ × EntryData Name Media Hash)) : State Computer Path Name Media Content Hash :=
  { state with
    computers := Function.update state.computers name computer
    built := state.built ++ built }

def step (state : State Computer Path Name Media Content Hash) : Action Computer Path Name Content →
      Option (State Computer Path Name Media Content Hash)
  | .write name path file =>
    let computer := state.computers name
    some (state.put name { computer with disk := Function.update computer.disk path file } [])
  | .add name arrival source =>
    match (state.computers name).disk source with
    | some file =>
      let bytes := rules.length file.content
      if 0 < bytes ∧ bytes ≤ rules.dropMaxBytes then
        some { state with tasks := state.tasks ++ [(name, .hash arrival source bytes file.mtime)] }
      else none
    | none => none
  | .advance id ok now => do
      let (name, task) ← state.tasks[id]?
      let result ← task.step rules state.envelopes (state.computers name) id ok now
      let next := state.put name result.computer result.built
      some { next with
        tasks := state.tasks.set id (name, result.task)
        envelopes := state.envelopes ++ result.sealedFile.toList }
  | .load name rebuild =>
    let (loaded, built) := (state.computers name).loadKeyList rules rebuild
    some (state.put name loaded built)
  | .reconcile name =>
    let computer := state.computers name
    computer.slot.map fun list =>
      state.put name { computer with slot := some (computer.reconcile rules list) }
        (computer.builtEntries rules list)
  | .sealList name => do
      let computer := state.computers name
      let list ← computer.slot
      let next ← list.sealList.toOption
      some (state.put name { computer with slot := some next, sealedCopy := some next } [])
  | .lose name =>
    some (state.put name { state.computers name with sealedCopy := none } [])
  | .publish name =>
    (state.computers name).sealedCopy.map fun list =>
      { state with copies := state.copies ++ [list] }
  | .pull name copy => do
      let computer := state.computers name
      let list ← computer.slot
      let other ← state.copies[copy]?
      let merged ← (KeyList.merge [list, other]).toOption
      some (state.put name { computer with slot := some merged } [])
  | .adopt name id => do
      let computer := state.computers name
      let list ← computer.slot
      let entry ← Tables.get id list.entries
      if id ∈ computer.removedIds ∨ (computer.file id).isSome ∨
          id ∈ Tables.keys computer.tombstones then none
      else
        let adopting := computer.setFileKey id entry.key
        some (state.put name { adopting with rows := adopting.rows ++ [rowForEntry id entry] } [])
  | .place name id => do
      let computer := state.computers name
      let row ← computer.file id
      match computer.placeRow rules state.envelopes row with
      | .notReady => none
      | .unreadable | .refused =>
        some (state.put name (computer.setLocal id .unreadable) [])
      | .placed hash =>
        some (state.put name
          (computer.updateRow id fun row =>
            { row with plainSha256 := some hash, linked := true }) [])
  | .mark name id localState =>
    let computer := state.computers name
    if (computer.file id).any fun row => row.localState = .encrypting then none
    else some (state.put name (computer.setLocal id localState) [])
  | .remove name id removedAt =>
    some (state.put name ((state.computers name).remove id removedAt) [])
  | .restart name mirror =>
    let next := state.put name ((state.computers name).restart mirror) []
    some { next with
      tasks := state.tasks.map fun task =>
        if task.1 = name then (task.1, .done) else task }

end Step

end FileEntries
end Wildbloom
