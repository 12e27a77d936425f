import Wildbloom.SortedTables
import Mathlib.Tactic

/-!
# Key lists

A key list holds one entry for each file of the owner and a tombstone for each
removed one, both in ascending order of ids, with a sequence number that goes
up with every seal.  Everything of an entry but its id is its data.

A list holds an id when it has an entry or a tombstone of it.  No function
here loses an id that one of its arguments holds.
-/

namespace Wildbloom
namespace KeyLists

open Tables (keys)

structure KeyList (Id Data : Type) where
  seq : ℕ := 0
  entries : List (Id × Data) := []
  removed : List (Id × ℕ) := []
deriving DecidableEq

inductive KeyListError
  | envelope
  | malformed
  | noCandidates
  | rollback (lastSeen newest : ℕ)
  | conflict (seq : ℕ)
  | removed
  | duplicateId
  | seqExhausted
deriving DecidableEq

def maxSafeInteger : ℕ := 2 ^ 53 - 1

variable {Id Data : Type}

namespace KeyList

section

variable [LinearOrder Id] [DecidableEq Data]

def insert (valid : Id → Data → Bool) (list : KeyList Id Data) (id : Id)
    (data : Data) : Except KeyListError (KeyList Id Data) :=
  if !valid id data then .error .malformed
  else if id ∈ keys list.removed then .error .removed
  else if id ∈ keys list.entries then .error .duplicateId
  else .ok { list with entries := Tables.insert id data list.entries }

def remove (list : KeyList Id Data) (id : Id) (removedAt : ℕ) :
    Except KeyListError (KeyList Id Data) :=
  if removedAt = 0 ∨ maxSafeInteger < removedAt then .error .malformed
  else
    .ok { list with
      entries := Tables.erase id list.entries
      removed := Tables.insertWith max id removedAt list.removed }

def sameContent (list other : KeyList Id Data) : Bool :=
  decide (list.entries = other.entries) && decide (list.removed = other.removed)

def sealList (list : KeyList Id Data) : Except KeyListError (KeyList Id Data) :=
  if list.seq + 1 ≤ maxSafeInteger then .ok { list with seq := list.seq + 1 }
  else .error .seqExhausted

/-! ## Merging -/

def mergeRemoved (lists : List (KeyList Id Data)) : List (Id × ℕ) :=
  (lists.flatMap (·.removed)).foldl
    (fun table stone => Tables.insertWith max stone.1 stone.2 table) []

/-- For each id the highest `seq` that holds it with that list's data, and the
ids on which two lists of that `seq` disagree. -/
structure Merging (Id Data : Type) where
  chosen : List (Id × ℕ × Data) := []
  disputed : List (Id × ℕ) := []

def mergeEntry (removed : List (Id × ℕ)) (seq : ℕ)
    (merging : Merging Id Data) (entry : Id × Data) : Merging Id Data :=
  let take : Merging Id Data :=
    { chosen := Tables.insert entry.1 (seq, entry.2) merging.chosen
      disputed := Tables.erase entry.1 merging.disputed }
  if entry.1 ∈ keys removed then merging
  else
    match Tables.get entry.1 merging.chosen with
    | some (best, existing) =>
      if seq < best then merging
      else if best = seq then
        if existing ≠ entry.2 then
          { merging with disputed := Tables.insert entry.1 seq merging.disputed }
        else merging
      else take
    | none => take

def mergeList (removed : List (Id × ℕ)) (merging : Merging Id Data)
    (list : KeyList Id Data) : Merging Id Data :=
  list.entries.foldl (mergeEntry removed list.seq) merging

def merge (lists : List (KeyList Id Data)) : Except KeyListError (KeyList Id Data) :=
  match (lists.map (·.seq)).max? with
  | none => .error .noCandidates
  | some seq =>
    let removed := mergeRemoved lists
    let merging := lists.foldl (mergeList removed) {}
    match (merging.disputed.map Prod.snd).max? with
    | some disputed => .error (.conflict disputed)
    | none =>
      .ok
        { seq := seq
          entries := merging.chosen.map fun entry => (entry.1, entry.2.2)
          removed := removed }

/-- Merge the copies that open; a result older than one already seen is
refused. -/
def openNewest (candidates : List (Option (KeyList Id Data)))
    (lastSeen : ℕ) : Except KeyListError (KeyList Id Data) :=
  let opened := candidates.filterMap fun candidate => candidate
  if opened = [] then
    .error (if candidates = [] then .noCandidates else .envelope)
  else do
    let merged ← merge opened
    if merged.seq < lastSeen then
      .error (.rollback lastSeen merged.seq)
    else .ok merged

/-! ## What a list holds -/

def Holds (list : KeyList Id Data) (id : Id) : Prop :=
  id ∈ keys list.entries ∨ id ∈ keys list.removed

instance (list : KeyList Id Data) (id : Id) : Decidable (list.Holds id) :=
  inferInstanceAs (Decidable (_ ∨ _))

end

def Within (list other : KeyList Id Data) : Prop :=
  ∀ id, list.Holds id → other.Holds id

theorem Within.refl (list : KeyList Id Data) : list.Within list :=
  fun _ hholds => hholds

theorem Within.trans {first second third : KeyList Id Data}
    (hfirst : first.Within second) (hsecond : second.Within third) : first.Within third :=
  fun id hholds => hsecond id (hfirst id hholds)

variable {list next : KeyList Id Data}

theorem holds_sealList (hseal : list.sealList = .ok next) (id : Id) :
    next.Holds id ↔ list.Holds id := by
  simp only [sealList] at hseal
  split at hseal
  · cases hseal
    exact Iff.rfl
  · cases hseal

theorem entries_sealList (hseal : list.sealList = .ok next) : next.entries = list.entries := by
  simp only [sealList] at hseal
  split at hseal
  · cases hseal
    rfl
  · cases hseal

variable [LinearOrder Id] {valid : Id → Data → Bool} {id : Id}

theorem within_insert {data : Data} (hinsert : list.insert valid id data = .ok next) :
    list.Within next := by
  simp only [insert] at hinsert
  split at hinsert
  · cases hinsert
  · split at hinsert
    · cases hinsert
    · split at hinsert
      · cases hinsert
      · cases hinsert
        intro other hholds
        exact hholds.imp_left fun hentry =>
          (Tables.mem_keys_insert data).mpr (Or.inr hentry)

theorem within_remove {removedAt : ℕ} (hremove : list.remove id removedAt = .ok next) :
    list.Within next := by
  simp only [remove] at hremove
  split at hremove
  · cases hremove
  · cases hremove
    intro other hholds
    by_cases heq : other = id
    · right
      exact (Tables.mem_keys_insertWith max removedAt).mpr (Or.inl heq)
    · rcases hholds with hentry | hstone
      · left
        exact Tables.mem_keys_erase.mpr ⟨heq, hentry⟩
      · right
        exact (Tables.mem_keys_insertWith max removedAt).mpr (Or.inr hstone)

theorem within_of_sameContent [DecidableEq Data] {other : KeyList Id Data}
    (hsame : list.sameContent other = true) : list.Within other := by
  simp only [sameContent, Bool.and_eq_true, decide_eq_true_eq] at hsame
  intro id hholds
  rw [Holds, ← hsame.1, ← hsame.2]
  exact hholds

/-! ## Where entries come from -/

variable {entry : Id × Data}

theorem mem_entries_insert {data : Data} (hinsert : list.insert valid id data = .ok next)
    (hentry : entry ∈ next.entries) : entry = (id, data) ∨ entry ∈ list.entries := by
  simp only [insert] at hinsert
  split at hinsert
  · cases hinsert
  · split at hinsert
    · cases hinsert
    · split at hinsert
      · cases hinsert
      · cases hinsert
        exact Tables.mem_insert hentry

theorem mem_entries_remove {removedAt : ℕ} (hremove : list.remove id removedAt = .ok next)
    (hentry : entry ∈ next.entries) : entry ∈ list.entries := by
  simp only [remove] at hremove
  split at hremove
  · cases hremove
  · cases hremove
    exact Tables.mem_of_mem_erase hentry

end KeyList

end KeyLists
end Wildbloom
