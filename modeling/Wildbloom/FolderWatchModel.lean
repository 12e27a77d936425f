import Wildbloom.GuardedRuns

/-!
# Deletions that a folder pass infers

A pass compares the linked rows with one scan of the folder.  A linked file
that stays missing is inferred to be deleted.  Rows whose content still seems
to be in the folder count as moved and are removed at once; the others go
through the mass-removal brake, which removes them or holds them back until
the owner chooses.  Instants are in nanoseconds.
-/

namespace Wildbloom
namespace FolderWatch

variable {Id Path Hash : Type}

def seconds (count : ℕ) : ℕ := count * 1000000000

def settle : ℕ := seconds 3

def importWaitSeconds : ℕ := 600

def brakeWindow : ℕ := seconds 600

def brakeFloor : ℕ := 10

def brakeAny : ℕ := 50

structure Metadata where
  len : ℕ
  mtime : ℤ
deriving DecidableEq

inductive Stat where
  | present (found : Metadata)
  | missing
  | unknown
deriving DecidableEq

def Stat.isPresent : Stat → Bool
  | .present _ => true
  | _ => false

inductive LocalState where
  | encrypting
  | pending
  | ok
  | missing
  | restoring
  | unreadable
  | notKept
deriving DecidableEq

/-- What a pass reads of a row.  A recorded hash that does not parse is left
out. -/
structure FileRecord (Id Path Hash : Type) where
  id : Id
  state : LocalState := .ok
  added : ℕ := 0
  watchPath : Option Path
  watchSize : Option ℕ
  watchMtime : Option ℤ
  plainSha256 : Option Hash

def FileRecord.unchanged (row : FileRecord Id Path Hash) (found : Metadata) : Bool :=
  decide (some found.len = row.watchSize ∧ some found.mtime = row.watchMtime)

/-- What the walk lists, which paths are under a folder it could not read,
what is at a path, and how the path is spelled on the disk. -/
structure Scan (Path : Type) where
  files : List (Path × Metadata)
  tooDeep : List (Path × Metadata) := []
  unreadable : Path → Bool := fun _ => false
  statPath : Path → Stat
  actualPath : Path → Option Path := fun _ => none

section Functions

variable [DecidableEq Id]

def inferOne (blocked : Bool) (now : ℕ) (acc : List Id × List (Id × ℕ))
    (check : Id × Stat) : List Id × List (Id × ℕ) :=
  match check.2 with
  | .missing =>
    if blocked then acc
    else
      match acc.2.lookup check.1 with
      | some since =>
        if settle ≤ now - since then (acc.1 ++ [check.1], acc.2) else acc
      | none => (acc.1, acc.2 ++ [(check.1, now)])
  | _ => (acc.1, acc.2.filter fun entry => entry.1 ≠ check.1)

def inferMissing (available truncated importing : Bool)
    (checks : List (Id × Stat)) (missing : List (Id × ℕ)) (now : ℕ) : List Id × List (Id × ℕ) :=
  let acc := checks.foldl (inferOne (!available || truncated || importing) now) ([], missing)
  (acc.1, acc.2.filter fun entry =>
    checks.any fun check => decide (check.1 = entry.1))

structure Braked (Id : Type) where
  release : List Id
  hold : List Id := []

def brake (inferred : List Id) (moved : Id → Bool) (holding : Bool)
    (pending linked : ℕ) (recent : List ℕ) (now : ℕ) : Braked Id × List ℕ :=
  let recent := recent.dropWhile fun instant =>
    decide (brakeWindow ≤ now - instant)
  let release := inferred.filter moved
  let losing := inferred.filter fun id => !moved id
  if losing = [] then ({ release }, recent)
  else
    let total := recent.length + losing.length + pending
    let base := linked + recent.length
    if holding = true ∨ brakeAny ≤ total ∨ brakeFloor ≤ total ∧ base ≤ total * 2 then
      ({ release, hold := losing }, recent)
    else
      ({ release := release ++ losing }, recent ++ List.replicate losing.length now)

end Functions

structure Pass (Id Path Hash : Type) where
  now : ℕ
  unixTime : ℕ := 0
  rows : List (FileRecord Id Path Hash)
  scan : Scan Path
  readsHeld : Bool := true
  releasesHold : Id → Bool := fun _ => true
  savesHold : Bool := true
  removesRow : Id → Bool := fun _ => true

/-- The rows a pass released although they were not classed as moved. -/
structure Release (Id : Type) where
  now : ℕ
  ids : List Id
  linked : ℕ
deriving DecidableEq

structure State (Id : Type) where
  clock : ℕ := 0
  missing : List (Id × ℕ) := []
  held : List Id := []
  removalWindow : List ℕ := []
  /-- What passes released, for the specification. -/
  log : List (Release Id) := []

section Passes

variable [DecidableEq Id] [DecidableEq Path] [DecidableEq Hash]

namespace Pass

variable (pass : Pass Id Path Hash)

/-- Under a folder the walk could not read nothing counts as missing. -/
def statAt (path : Path) : Stat :=
  if pass.scan.unreadable path then .unknown else pass.scan.statPath path

def spelled (path : Path) : Path :=
  if (pass.statAt path).isPresent = true ∧
      path ∉ (pass.scan.files ++ pass.scan.tooDeep).map Prod.fst then
    (pass.scan.actualPath path).getD path
  else path

def staysNotKept (row : FileRecord Id Path Hash) : Stat → Bool
  | .unknown => true
  | .present found => row.unchanged found
  | .missing => false

def known : List Path :=
  pass.rows.filterMap fun row => row.watchPath.bind fun path =>
    if row.state = .notKept ∧ staysNotKept row (pass.statAt path) = false then
      none
    else some (pass.spelled path)

def linked : List (FileRecord Id Path Hash × Stat) :=
  pass.rows.filterMap fun row =>
    if row.state = .notKept then none
    else row.watchPath.map fun path => (row, pass.statAt path)

section Held

variable (held : List Id)

def back : List Id :=
  (pass.linked.filter fun look =>
    decide (look.1.id ∈ held) && look.2.isPresent).map fun look => look.1.id

def heldMissing : List (FileRecord Id Path Hash) :=
  (pass.linked.filter fun look =>
    decide (look.1.id ∈ held) && decide (look.2 = .missing)).map Prod.fst

def checks : List (FileRecord Id Path Hash × Stat) :=
  pass.linked.filter fun look =>
    decide (look.1.id ∉ held) || look.2.isPresent

def presentPlain : List Hash :=
  (pass.checks held).filterMap fun look =>
    match look.2 with
    | .present found =>
      if look.1.unchanged found then look.1.plainSha256 else none
    | _ => none

def unknownStamps : List Metadata :=
  (pass.scan.files.filter fun file => decide (file.1 ∉ pass.known)).map Prod.snd

/-- The row's content seems to be in the folder: a linked file as last seen
has its hash, or a file not taken in yet has its size and time. -/
def stillHere (row : FileRecord Id Path Hash) : Bool :=
  row.plainSha256.any (fun plain => decide (plain ∈ pass.presentPlain held)) ||
    pass.unknownStamps.any row.unchanged

def byId (id : Id) : Option (FileRecord Id Path Hash) :=
  pass.rows.find? fun row => decide (row.id = id)

def movedHeld : List Id :=
  ((pass.heldMissing held).filter (pass.stillHere held)).map (·.id)

/-- Some row is held and its hold does not end in this pass. -/
def holding : Bool :=
  held.any fun id =>
    decide (id ∉ pass.back held) && decide (id ∉ pass.movedHeld held)

def importing : Bool :=
  pass.rows.any fun row =>
    row.watchPath.isSome &&
      decide (row.state = .encrypting ∨ row.state = .pending) &&
      decide (pass.unixTime ≤ row.added + importWaitSeconds)

def infer (missing : List (Id × ℕ)) : List Id × List (Id × ℕ) :=
  inferMissing true false pass.importing
    ((pass.checks held).map fun look => (look.1.id, look.2)) missing pass.now

def isMoved (id : Id) : Bool := (pass.byId id).any (pass.stillHere held)

def pending (missing : List (Id × ℕ)) : ℕ :=
  let found := pass.infer held missing
  (found.2.map Prod.fst).countP fun id => decide (id ∉ found.1) &&
    (pass.byId id).any fun row => !pass.stillHere held row

def braked (missing : List (Id × ℕ)) (recent : List ℕ) : Braked Id × List ℕ :=
  brake (pass.infer held missing).1 (pass.isMoved held) (pass.holding held)
    (pass.pending held missing) (pass.checks held).length recent pass.now

end Held

/-- The rows that count as held.  A read that fails gives none. -/
def heldIds (state : State Id) : List Id :=
  if pass.readsHeld then state.held else []

end Pass

def State.folderPass (state : State Id) (pass : Pass Id Path Hash) : State Id :=
  let held := pass.heldIds state
  let braked := pass.braked held state.missing state.removalWindow
  let removed := pass.movedHeld held ++ braked.1.release
  let lost := braked.1.release.filter fun id => !pass.isMoved held id
  { clock := pass.now
    missing := (pass.infer held state.missing).2.filter fun entry =>
      decide (entry.1 ∉ removed)
    held := (state.held.filter (fun id =>
        !(decide (id ∈ pass.back held) && pass.releasesHold id)) ++
      if pass.savesHold then braked.1.hold else []).filter fun id =>
        !(decide (id ∈ removed) && pass.removesRow id)
    removalWindow := braked.2
    log := if lost = [] then state.log
      else state.log ++ [⟨pass.now, lost, (pass.checks held).length⟩] }

inductive Action (Id Path Hash : Type) where
  | pass (pass : Pass Id Path Hash)
  /-- The folder is unavailable or the scan stopped early. -/
  | noScan
  /-- A row goes for another reason, and its hold with it. -/
  | rowGone (id : Id)

def step (state : State Id) : Action Id Path Hash → Option (State Id)
  | .pass pass =>
    if state.clock ≤ pass.now then some (state.folderPass pass) else none
  | .noScan => some { state with missing := [] }
  | .rowGone id => some { state with held := state.held.filter (· ≠ id) }

end Passes

end FolderWatch
end Wildbloom
