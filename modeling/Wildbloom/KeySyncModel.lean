import Wildbloom.KeyListJoin

/-!
# Key list syncs of several computers

Computers that share one recovery secret keep copies of the key list on one
online node.  A sync seals the list on its own computer, merges the copies the
node lists, uploads the result and queues the deletion of the copies it merged
and of the one it uploaded before.  A pull merges copies into the list of its
computer and uploads nothing.

The node numbers copies as they are uploaded.  On each computer one sync or pull
runs at a time.  Each durable write is a step of its own, so that a crash may
fall between any two of them.
-/

namespace Wildbloom
namespace KeySync

open KeyLists (KeyList KeyListError)
open Tables (keys)

variable {Computer Id Data : Type}

/-- What the index and the keychain know: recorded removals, and the entries
of the files with an envelope and a key. -/
structure Index (Id Data : Type) where
  tombstones : List (Id × ℕ) := []
  files : List (Id × Data) := []

inductive SealedCopy (Id Data : Type)
  | missing
  | damaged
  | kept (list : KeyList Id Data)

/-- Where the sync or pull of a computer is.  `mergedAway` are the copies it
merged, `sealed` says that the list is sealed already. -/
inductive Run (Id Data : Type)
  | idle
  | syncSeal (list : KeyList Id Data)
  | syncSealed (list : KeyList Id Data) (lastSeen : ℕ)
  | syncList (list : KeyList Id Data) (isSealed : Bool) (lastSeen : ℕ)
  | syncDownload (list : KeyList Id Data) (isSealed : Bool) (lastSeen : ℕ)
      (todo : List ℕ) (copies : List (KeyList Id Data)) (mergedAway : List ℕ)
  | syncSettle (list : KeyList Id Data) (isSealed : Bool) (lastSeen : ℕ)
      (mergedAway : List ℕ)
  | syncResealed (list : KeyList Id Data) (mergedAway : List ℕ)
  | syncUpload (list : KeyList Id Data) (mergedAway : List ℕ)
  | syncQueuePrevious (sha : ℕ) (list : KeyList Id Data)
      (mergedAway : List ℕ)
  | syncRecord (sha : ℕ) (mergedAway : List ℕ)
  | syncQueue (sha : ℕ) (mergedAway : List ℕ)
  | pullList
  | pullDownload (todo : List ℕ) (opened : List (ℕ × KeyList Id Data))
  | pullMerge (opened : List (ℕ × KeyList Id Data))
  | pullAdopt (merged : KeyList Id Data) (seq : ℕ)
      (opened : List (ℕ × KeyList Id Data))

structure Local (Id Data : Type) where
  index : Index Id Data := {}
  slot : Option (KeyList Id Data) := none
  sealedCopy : SealedCopy Id Data := .missing
  lastSeen : ℕ := 0
  onlineSha : Option ℕ := none
  pulled : List ℕ := []
  deletes : List ℕ := []
  run : Run Id Data := .idle

structure Node (Id Data : Type) where
  stored : List (KeyList Id Data) := []
  copies : List ℕ := []

/-- `lost` is a request that took effect and whose answer was lost; `ended` is
the answer that the approval has ended. -/
inductive Outcome
  | ok
  | failed
  | lost
  | refused
  | ended
deriving DecidableEq

def Node.upload (node : Node Id Data) (list : KeyList Id Data) : Node Id Data where
  stored := node.stored ++ [list]
  copies := node.copies ++ [node.stored.length]

def Node.delete (node : Node Id Data) (sha : ℕ) : Node Id Data :=
  { node with copies := node.copies.filter fun copy => copy ≠ sha }

def Node.download (node : Node Id Data) (outcome : Outcome) (sha : ℕ) : Option (KeyList Id Data) :=
  if outcome = .ok ∧ sha ∈ node.copies then node.stored[sha]? else none

/-- Does the run hold the lock of the list in memory? -/
def Run.holdsSlot : Run Id Data → Bool
  | .syncSeal _ | .syncSealed _ _ | .syncList _ _ _
  | .syncDownload _ _ _ _ _ _ | .syncSettle _ _ _ _ | .syncResealed _ _
  | .pullMerge _ | .pullAdopt _ _ _ => true
  | _ => false

def pullBatch : ℕ := 16

def newestOpened (opened : List (ℕ × KeyList Id Data)) : Option (KeyList Id Data) :=
  opened.foldl
    (fun best copy =>
      match best with
      | some found => if copy.2.seq < found.seq then best else some copy.2
      | none => some copy.2)
    none

namespace Local

def goto (computer : Local Id Data) (run : Run Id Data) : Local Id Data :=
  { computer with run := run }

def queueDelete (computer : Local Id Data) (sha : ℕ) : Local Id Data :=
  { computer with deletes := computer.deletes.insert sha }

variable [LinearOrder Id] [DecidableEq Data] (valid : Id → Data → Bool)
  (computer : Local Id Data)

def reconcileKeyList (index : Index Id Data) (list : KeyList Id Data) : KeyList Id Data :=
  let removed := index.tombstones.foldl
    (fun list stone =>
      match list.remove stone.1 (max stone.2 1) with
      | .ok next => next
      | .error _ => list) list
  index.files.foldl
    (fun list file =>
      if file.1 ∈ keys list.entries ∨ file.1 ∈ keys list.removed then list
      else
        match list.insert valid file.1 file.2 with
        | .ok next => next
        | .error _ => list) removed

omit [DecidableEq Data] in
theorem mem_entries_reconcileKeyList {valid : Id → Data → Bool}
    {index : Index Id Data} {list : KeyList Id Data} {entry : Id × Data}
    (hentry : entry ∈ (reconcileKeyList valid index list).entries) :
    entry ∈ list.entries ∨ entry ∈ index.files := by
  revert hentry
  apply List.foldlRecOn (motive := fun next : KeyList Id Data =>
    entry ∈ next.entries → entry ∈ list.entries ∨ entry ∈ index.files)
  · apply List.foldlRecOn (motive := fun next : KeyList Id Data =>
      entry ∈ next.entries → entry ∈ list.entries ∨ entry ∈ index.files)
    · exact Or.inl
    · intro next hnext stone _ hmem
      split at hmem
      next hremove =>
        exact hnext (KeyList.mem_entries_remove hremove hmem)
      · exact hnext hmem
  · intro next hnext file hfile hmem
    split at hmem
    · exact hnext hmem
    · split at hmem
      next hinsert =>
        rcases KeyList.mem_entries_insert hinsert hmem with hnew | hold
        · rw [hnew]
          exact Or.inr hfile
        · exact hnext hold
      · exact hnext hmem

def loadKeyList : Except KeyListError (KeyList Id Data) :=
  match computer.slot with
  | some list => .ok list
  | none =>
    match computer.sealedCopy with
    | .missing => .ok (reconcileKeyList valid computer.index {})
    | .damaged => .error .envelope
    | .kept list => do
        let opened ← KeyList.openNewest [some list] computer.lastSeen
        .ok (reconcileKeyList valid computer.index opened)

/-- Take the turn of a sync and load the list.  A list that cannot be loaded
is rebuilt from the index. -/
def startSync : Local Id Data :=
  match computer.loadKeyList valid with
  | .ok list =>
    { computer with
      slot := some list
      run := .syncSeal (reconcileKeyList valid computer.index list) }
  | .error _ =>
    computer.goto (.syncSeal (reconcileKeyList valid computer.index
      (reconcileKeyList valid computer.index {})))

/-- Merge what was downloaded.  A conflicting or rolled-back set is not
merged. -/
def settle (list : KeyList Id Data) (isSealed : Bool) (lastSeen : ℕ)
    (copies : List (KeyList Id Data)) (mergedAway : List ℕ) : Run Id Data :=
  match KeyList.merge copies with
  | .ok merged =>
    if lastSeen ≤ merged.seq then
      if merged ≠ list then .syncSettle merged false lastSeen mergedAway
      else .syncSettle list isSealed lastSeen mergedAway
    else .syncSettle list isSealed lastSeen []
  | .error _ => .syncSettle list isSealed lastSeen []

/-- The merge of a pull, with the list of its computer loaded. -/
def pullMerge (outcome : Outcome) (current : KeyList Id Data)
    (opened : List (ℕ × KeyList Id Data)) : Local Id Data :=
  let loaded := { computer with slot := some current }
  match newestOpened opened with
  | none => loaded.goto .idle
  | some newest =>
    match KeyList.merge (current :: opened.map Prod.snd) with
    | .error _ => loaded.goto .idle
    | .ok merged =>
      let pulled :=
        { loaded with pulled := opened.map Prod.fst ++ loaded.pulled, run := .idle }
      if merged.sameContent current then pulled
      else if merged.sameContent newest ∧ computer.lastSeen < newest.seq ∧ outcome = .ok then
        { loaded with sealedCopy := .kept newest, run := .pullAdopt merged newest.seq opened }
      else { pulled with slot := some merged }

def step (node : Node Id Data) (computer : Local Id Data) (outcome : Outcome) :
    Option (Node Id Data × Local Id Data) :=
  match computer.run with
  | .idle => none
  | .syncSeal list =>
    if computer.lastSeen ≤ list.seq then
      match list.sealList with
      | .ok next =>
        if outcome = .ok then
          some (node,
            { computer with sealedCopy := .kept next, run := .syncSealed next computer.lastSeen })
        else some (node, computer.goto .idle)
      | .error _ => some (node, computer.goto .idle)
    else some (node, computer.goto (.syncList list false computer.lastSeen))
  | .syncSealed list lastSeen =>
    some (node,
      { computer with
        slot := some list
        lastSeen := list.seq
        run := .syncList list true lastSeen })
  | .syncList list isSealed lastSeen =>
    some (node, computer.goto
      (if outcome = .ok then
        .syncDownload list isSealed lastSeen node.copies [list] []
      else .syncSettle list isSealed lastSeen []))
  | .syncDownload list isSealed lastSeen (sha :: todo) copies mergedAway =>
    some (node, computer.goto
      (match node.download outcome sha with
      | some copy =>
        .syncDownload list isSealed lastSeen todo (copies ++ [copy]) (mergedAway ++ [sha])
      | none =>
        .syncDownload list isSealed lastSeen todo copies mergedAway))
  | .syncDownload list isSealed lastSeen [] copies mergedAway =>
    some (node, computer.goto (settle list isSealed lastSeen copies mergedAway))
  | .syncSettle list isSealed lastSeen mergedAway =>
    if list.seq < lastSeen then some (node, computer.goto .idle)
    else if isSealed then
      some (node, { computer with slot := some list, run := .syncUpload list mergedAway })
    else
      match list.sealList with
      | .ok next =>
        if outcome = .ok then
          some (node,
            { computer with sealedCopy := .kept next, run := .syncResealed next mergedAway })
        else some (node, computer.goto .idle)
      | .error _ => some (node, computer.goto .idle)
  | .syncResealed list mergedAway =>
    some (node,
      { computer with slot := some list, lastSeen := list.seq, run := .syncUpload list mergedAway })
  | .syncUpload list mergedAway =>
    match outcome with
    | .ok =>
      some (node.upload list, computer.goto (.syncQueuePrevious node.stored.length list mergedAway))
    | .lost => some (node.upload list, computer.goto .idle)
    | _ => some (node, computer.goto .idle)
  | .syncQueuePrevious sha _ mergedAway =>
    some (node,
      (match computer.onlineSha with
      | some previous =>
        if previous ≠ sha then computer.queueDelete previous
        else computer
      | none => computer).goto (.syncRecord sha mergedAway))
  | .syncRecord sha mergedAway =>
    some (node, { computer with onlineSha := some sha, run := .syncQueue sha mergedAway })
  | .syncQueue sha (old :: mergedAway) =>
    some (node,
      (if old ≠ sha then computer.queueDelete old else computer).goto (.syncQueue sha mergedAway))
  | .syncQueue _ [] => some (node, computer.goto .idle)
  | .pullList =>
    some (node, computer.goto
      (if outcome = .ok then
        .pullDownload ((node.copies.filter fun sha =>
          some sha ≠ computer.onlineSha ∧ sha ∉ computer.pulled).take pullBatch) []
      else .idle))
  | .pullDownload (sha :: todo) opened =>
    match node.download outcome sha with
    | some copy =>
      some (node, computer.goto (.pullDownload todo (opened ++ [(sha, copy)])))
    | none =>
      some (node,
        { computer with
          pulled :=
            if outcome = .refused then sha :: computer.pulled
            else computer.pulled
          run := .pullDownload todo opened })
  | .pullDownload [] opened => some (node, computer.goto (.pullMerge opened))
  | .pullMerge opened =>
    match computer.loadKeyList valid with
    | .error _ => some (node, computer.goto .idle)
    | .ok current =>
      some (node, computer.pullMerge outcome current opened)
  | .pullAdopt merged seq opened =>
    some (node,
      { computer with
        slot := some merged
        lastSeen := seq
        pulled := opened.map Prod.fst ++ computer.pulled
        run := .idle })

end Local

/-! ## Runs -/

structure State (Computer Id Data : Type) where
  node : Node Id Data := {}
  computers : Computer → Local Id Data := fun _ => {}

/-- `abort` is an error that ends a run, `crash` ends the program of the
computer. -/
inductive Action (Computer Id Data : Type)
  | sync (computer : Computer)
  | pull (computer : Computer)
  | advance (computer : Computer) (outcome : Outcome)
  | abort (computer : Computer)
  | crash (computer : Computer)
  | lose (computer : Computer) (damaged : Bool)
  | setIndex (computer : Computer) (index : Index Id Data)
  | addEntry (computer : Computer) (id : Id) (data : Data)
  | removeEntry (computer : Computer) (id : Id) (removedAt : ℕ)
  | delete (computer : Computer) (sha : ℕ) (outcome : Outcome)

variable [DecidableEq Computer] [LinearOrder Id] [DecidableEq Data]

def State.put (state : State Computer Id Data) (computer : Computer)
    (next : Node Id Data × Local Id Data) : State Computer Id Data where
  node := next.1
  computers := Function.update state.computers computer next.2

variable (valid : Id → Data → Bool) (computer : Local Id Data) (id : Id)

def Local.addEntry (data : Data) : Local Id Data :=
  match computer.loadKeyList valid with
  | .error _ => computer
  | .ok list =>
    { computer with
      slot := some
        (match list.insert valid id data with
        | .ok next => next
        | .error _ => list) }

def Local.removeEntry (removedAt : ℕ) : Local Id Data :=
  match computer.slot with
  | none => computer
  | some list =>
    { computer with
      slot := some
        (match list.remove id removedAt with
        | .ok next => next
        | .error _ => list) }

def Local.delete (node : Node Id Data) (computer : Local Id Data) (sha : ℕ)
    (outcome : Outcome) : Node Id Data × Local Id Data :=
  let finished := { computer with deletes := computer.deletes.erase sha }
  match outcome with
  | .ok => (node.delete sha, finished)
  | .lost => (node.delete sha, computer)
  | .ended => (node, finished)
  | .failed | .refused => (node, computer)

def step (state : State Computer Id Data) :
    Action Computer Id Data → Option (State Computer Id Data)
  | .sync name =>
    let computer := state.computers name
    match computer.run with
    | .idle => some (state.put name (state.node, computer.startSync valid))
    | _ => none
  | .pull name =>
    let computer := state.computers name
    match computer.run with
    | .idle => some (state.put name (state.node, computer.goto .pullList))
    | _ => none
  | .advance name outcome =>
    ((state.computers name).step valid state.node outcome).map (state.put name)
  | .abort name =>
    some (state.put name (state.node, (state.computers name).goto .idle))
  | .crash name =>
    some (state.put name (state.node,
      { state.computers name with slot := none, pulled := [], run := .idle }))
  | .lose name damaged =>
    some (state.put name (state.node,
      { state.computers name with sealedCopy := if damaged then .damaged else .missing }))
  | .setIndex name index =>
    some (state.put name (state.node, { state.computers name with index := index }))
  | .addEntry name id data =>
    let computer := state.computers name
    if computer.run.holdsSlot then none
    else some (state.put name (state.node, computer.addEntry valid id data))
  | .removeEntry name id removedAt =>
    let computer := state.computers name
    if computer.run.holdsSlot then none
    else some (state.put name (state.node, computer.removeEntry id removedAt))
  | .delete name sha outcome =>
    let computer := state.computers name
    if sha ∈ computer.deletes then
      some (state.put name (computer.delete state.node sha outcome))
    else none

end KeySync
end Wildbloom
