import Wildbloom.NamedFiles

/-!
# One folder pass and another program

The pass over the Wildbloom folder renames files whose place changed, moves
replaced ones to the Trash and writes files that are missing.  Each of these
is a sequence of file-system calls on paths that another program may change
between any two calls.  A call may fail.

A file holds a version that the other program stored, or a copy that the pass
wrote itself.  Versions are numbered as they are stored.
-/

namespace Wildbloom
namespace FolderPass

open NamedFiles

/-- A file to write at a target, by way of a staging file beside it.
`expected` says that its plaintext has the hash its entry names. -/
structure Placement (Path : Type) where
  target : Path
  staging : Path
  expected : Bool
  distinct : target ≠ staging

/-- What comes after a move: nothing, or the rest of a removal to the
`removed` folder, and what is placed when that is done. -/
inductive After (Path : Type)
  | moved
  | removed (candidates : List Path) (place : Option (Placement Path))

/-- The next file-system call of the pass. -/
inductive Pass (Path : Type)
  | idle
  | statSource (source target : Path)
  | statTarget (source target : Path)
  | hardLink (source target : Path) (after : After Path)
  | removeSource (source target : Path) (after : After Path)
  | removeTarget (source target : Path) (after : After Path)
  | checkTarget (source target : Path) (after : After Path)
  | rename (source target : Path) (after : After Path)
  | statRemoved (path : Path) (candidates : List Path)
      (place : Option (Placement Path))
  | trash (path : Path) (candidates : List Path)
      (place : Option (Placement Path))
  | statPlace (placement : Placement Path)
  | checkPlace (placement : Placement Path)
  | copy (placement : Placement Path)
  | linkPlace (placement : Placement Path)
  | discard (placement : Placement Path)
  | checkAgain (placement : Placement Path)
  | renamePlace (placement : Placement Path)

/-- `removed` are the versions that the other program took away or wrote over
itself. -/
structure State (Path : Type) where
  disk : Disk Path (Option ℕ) := {}
  stored : ℕ := 0
  removed : List ℕ := []
  trashed : List ℕ := []
  pass : Pass Path := .idle

/-- `create` to `delete` are the other program's; `move`, `remove` and `place`
start a sequence of the pass, and `advance` makes its next call, which succeeds
or fails. -/
inductive Action (Path : Type)
  | create (path : Path)
  | write (path : Path)
  | replace (path : Path)
  | shift (source target : Path)
  | delete (path : Path)
  | move (source target : Path)
  | remove (path : Path) (candidates : List Path)
      (place : Option (Placement Path))
  | place (placement : Placement Path)
  | advance (ok : Bool)

variable {Path : Type} [DecidableEq Path] (state : State Path)

def State.goto (pass : Pass Path) : State Path :=
  { state with pass := pass }

def State.version (path : Path) : List ℕ :=
  ((state.disk.read path).bind fun content => content).toList

def After.succeeded : After Path → Pass Path
  | .moved => .idle
  | .removed _ (some placement) => .checkPlace placement
  | .removed _ none => .idle

def After.occupied (source : Path) : After Path → Pass Path
  | .moved => .idle
  | .removed [] _ => .idle
  | .removed (candidate :: candidates) place =>
    .hardLink source candidate (.removed candidates place)

def State.advance (ok : Bool) : Option (State Path) :=
  let disk := state.disk
  match state.pass with
  | .idle => none
  -- `rename_moved`: only a file as last seen, to a place with nothing there
  | .statSource source target =>
    some (state.goto
      (if (disk.names source).isSome && ok then .statTarget source target
      else .idle))
  | .statTarget source target =>
    some (state.goto
      (if (disk.names target).isNone && ok then
        .hardLink source target .moved
      else .idle))
  -- `move_no_clobber`
  | .hardLink source target after =>
    some
      (if !ok then state.goto (.checkTarget source target after)
      else if (disk.names target).isSome then
        state.goto (after.occupied source)
      else if (disk.names source).isSome then
        { state with disk := disk.link source target, pass := .removeSource source target after }
      else state.goto (.checkTarget source target after))
  | .removeSource source target after =>
    some
      (if (disk.names source).isSome && ok then
        { state with disk := disk.unlink source, pass := after.succeeded }
      else state.goto (.removeTarget source target after))
  | .removeTarget _ target _ =>
    some
      { state with disk := if ok then disk.unlink target else disk, pass := .idle }
  | .checkTarget source target after =>
    some (state.goto
      (if (disk.names target).isSome && ok then after.occupied source
      else .rename source target after))
  | .rename source target after =>
    some
      (if (disk.names source).isSome && ok then
        { state with disk := disk.rename source target, pass := after.succeeded }
      else state.goto .idle)
  -- `remove_to_trash`
  | .statRemoved path candidates place =>
    some (state.goto
      (if (disk.names path).isSome && ok then .trash path candidates place
      else .idle))
  | .trash path candidates place =>
    some
      (if (disk.names path).isSome && ok then
        { state with
          disk := disk.unlink path
          trashed := state.trashed ++ state.version path
          pass := (After.removed candidates place).succeeded }
      else state.goto ((After.removed candidates place).occupied path))
  -- `place_missing` and `place_file`
  | .statPlace placement =>
    some (state.goto
      (if (disk.names placement.target).isNone && ok then
        .checkPlace placement
      else .idle))
  | .checkPlace placement =>
    some (state.goto
      (if (disk.names placement.target).isSome && ok then .idle
      else .copy placement))
  | .copy placement =>
    some
      (if (disk.names placement.staging).isNone && ok then
        { state with
          disk := disk.create placement.staging none
          pass :=
            if placement.expected then .linkPlace placement
            else .discard placement }
      else state.goto (.discard placement))
  | .linkPlace placement =>
    some
      (if !ok then state.goto (.checkAgain placement)
      else if (disk.names placement.target).isSome then
        state.goto (.discard placement)
      else if (disk.names placement.staging).isSome then
        { state with
          disk := disk.link placement.staging placement.target
          pass := .discard placement }
      else state.goto (.checkAgain placement))
  | .discard placement =>
    some
      { state with disk := if ok then disk.unlink placement.staging else disk, pass := .idle }
  | .checkAgain placement =>
    some (state.goto
      (if (disk.names placement.target).isSome && ok then
        .discard placement
      else .renamePlace placement))
  | .renamePlace placement =>
    some
      (if (disk.names placement.staging).isSome && ok then
        { state with disk := disk.rename placement.staging placement.target, pass := .idle }
      else state.goto (.discard placement))

def State.start (pass : Pass Path) : Option (State Path) :=
  match state.pass with
  | .idle => some (state.goto pass)
  | _ => none

def step : Action Path → Option (State Path)
  | .create path =>
    if (state.disk.names path).isSome then none
    else
      some { state with
        disk := state.disk.create path (some state.stored)
        stored := state.stored + 1 }
  | .write path =>
    if (state.disk.read path).isSome then
      some { state with
        disk := state.disk.write path (some state.stored)
        stored := state.stored + 1
        removed := state.version path ++ state.removed }
    else none
  | .replace path =>
    some { state with
      disk := state.disk.create path (some state.stored)
      stored := state.stored + 1
      removed := state.version path ++ state.removed }
  | .shift source target =>
    if (state.disk.names source).isSome then
      some { state with
        disk := state.disk.rename source target
        removed :=
          if state.disk.names source = state.disk.names target then
            state.removed
          else state.version target ++ state.removed }
    else none
  | .delete path =>
    some { state with
      disk := state.disk.unlink path
      removed := state.version path ++ state.removed }
  | .move source target => state.start (.statSource source target)
  | .remove path candidates place =>
    state.start (.statRemoved path candidates place)
  | .place placement => state.start (.statPlace placement)
  | .advance ok => state.advance ok

end FolderPass
end Wildbloom
