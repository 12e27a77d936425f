import Wildbloom.KeySyncModel
import Wildbloom.SupersededCopies
import Wildbloom.GuardedRuns

/-!
# No id of the online key list is lost

Every id that a copy on the node ever held is held by a copy that is there.

A sync deletes the copies it merged and its own previous one.  The first kind
is safe: what it uploads holds every id of them, and it uploads after it
downloaded them, so that no two syncs can each count on the other's copy.  The
second kind rests on the list of the computer alone.
-/

namespace Wildbloom
namespace KeySync

open KeyLists (KeyList KeyListError)
open StoredCopies (Superseded)
open Runs

variable {Computer Id Data : Type}

/-- When a sync queues the deletion of the copy recorded before, the list it
uploaded holds every id of that copy. -/
def CoveringStep (state : State Computer Id Data) : Action Computer Id Data → Prop
  | .advance name _ => ∀ sha list mergedAway previous copy,
      (state.computers name).run = .syncQueuePrevious sha list mergedAway →
      (state.computers name).onlineSha = some previous →
      state.node.stored[previous]? = some copy → copy.Within list
  | _ => True

/-! ## The invariant -/

/-- The copies a run will delete are held by the list it uploads. -/
def Run.Justified (stored : List (KeyList Id Data)) : Run Id Data → Prop
  | .syncDownload _ _ _ _ copies mergedAway =>
    ∀ sha ∈ mergedAway, ∃ copy ∈ copies, stored[sha]? = some copy
  | .syncSettle list _ _ mergedAway
  | .syncResealed list mergedAway
  | .syncUpload list mergedAway =>
    ∀ sha ∈ mergedAway, ∃ copy, stored[sha]? = some copy ∧ copy.Within list
  | .syncQueuePrevious sha list mergedAway =>
    stored[sha]? = some list ∧ ∀ old ∈ mergedAway, Superseded KeyList.Holds stored old
  | .syncRecord sha mergedAway =>
    sha < stored.length ∧ ∀ old ∈ mergedAway, Superseded KeyList.Holds stored old
  | .syncQueue _ mergedAway =>
    ∀ old ∈ mergedAway, Superseded KeyList.Holds stored old
  | _ => True

def Run.recording : Run Id Data → Option ℕ
  | .syncQueuePrevious sha _ _ => some sha
  | _ => none

structure Local.Justified (stored : List (KeyList Id Data)) (computer : Local Id Data) : Prop where
  run : computer.run.Justified stored
  queued : ∀ sha ∈ computer.deletes, Superseded KeyList.Holds stored sha
  online : ∀ sha, computer.onlineSha = some sha → sha < stored.length
  previous : ∀ sha, computer.run.recording = some sha →
    ∀ previous, computer.onlineSha = some previous → previous < sha

structure Kept (state : State Computer Id Data) : Prop where
  gone : ∀ sha copy, state.node.stored[sha]? = some copy →
    sha ∉ state.node.copies → Superseded KeyList.Holds state.node.stored sha
  justified : ∀ name, (state.computers name).Justified state.node.stored

structure State.AtRest (state : State Computer Id Data) : Prop where
  copies : ∀ sha copy, state.node.stored[sha]? = some copy → sha ∈ state.node.copies
  idle : ∀ name, (state.computers name).run = .idle
  deletes : ∀ name, (state.computers name).deletes = []
  online : ∀ name sha, (state.computers name).onlineSha = some sha → sha < state.node.stored.length

theorem State.AtRest.kept {state : State Computer Id Data} (hrest : state.AtRest) : Kept state := by
  constructor
  · intro sha copy hcopy hgone
    exact absurd (hrest.copies sha copy hcopy) hgone
  · intro name
    constructor
    · rw [hrest.idle name]
      trivial
    · intro sha hsha
      rw [hrest.deletes name] at hsha
      cases hsha
    · exact hrest.online name
    · intro sha hrecording
      rw [hrest.idle name] at hrecording
      cases hrecording

variable {stored : List (KeyList Id Data)} {computer : Local Id Data} {sha : ℕ}

theorem Run.Justified.append {run : Run Id Data}
    (hrun : run.Justified stored) (more : List (KeyList Id Data)) :
    run.Justified (stored ++ more) := by
  cases run with
  | syncDownload list isSealed lastSeen todo copies mergedAway =>
    intro sha hsha
    obtain ⟨copy, hmem, hcopy⟩ := hrun sha hsha
    exact ⟨copy, hmem, StoredCopies.getElem?_append more hcopy⟩
  | syncSettle | syncResealed | syncUpload =>
    intro sha hsha
    obtain ⟨copy, hcopy, hwithin⟩ := hrun sha hsha
    exact ⟨copy, StoredCopies.getElem?_append more hcopy, hwithin⟩
  | syncQueuePrevious sha list mergedAway =>
    exact ⟨StoredCopies.getElem?_append more hrun.1, fun old hold => (hrun.2 old hold).append more⟩
  | syncRecord sha mergedAway =>
    refine ⟨?_, fun old hold => (hrun.2 old hold).append more⟩
    have hlength := hrun.1
    rw [List.length_append]
    omega
  | syncQueue sha mergedAway =>
    exact fun old hold => (hrun old hold).append more
  | _ => trivial

theorem Local.Justified.append (hlocal : computer.Justified stored)
    (more : List (KeyList Id Data)) : computer.Justified (stored ++ more) where
  run := hlocal.run.append more
  queued := fun sha hsha => (hlocal.queued sha hsha).append more
  online := fun sha hsha => by
    have hlength := hlocal.online sha hsha
    rw [List.length_append]
    omega
  previous := hlocal.previous

theorem Local.Justified.goto (hlocal : computer.Justified stored)
    {next : Local Id Data} (hdeletes : next.deletes = computer.deletes)
    (honline : next.onlineSha = computer.onlineSha) (hrun : next.run.Justified stored)
    (hquiet : next.run.recording = none) : next.Justified stored where
  run := hrun
  queued := by
    rw [hdeletes]
    exact hlocal.queued
  online := by
    rw [honline]
    exact hlocal.online
  previous := fun sha hrecording => by
    rw [hquiet] at hrecording
    cases hrecording

theorem Local.Justified.queueDelete (hlocal : computer.Justified stored)
    (hsuperseded : Superseded KeyList.Holds stored sha) {run : Run Id Data}
    (hrun : run.Justified stored) (hquiet : run.recording = none) :
    ((computer.queueDelete sha).goto run).Justified stored where
  run := hrun
  queued := by
    intro other hother
    rcases List.mem_insert_iff.mp hother with hsame | hold
    · rw [hsame]
      exact hsuperseded
    · exact hlocal.queued other hold
  online := hlocal.online
  previous := fun other hrecording => by
    have hnone : run.recording = some other := hrecording
    rw [hquiet] at hnone
    cases hnone

section Steps

variable [LinearOrder Id] [DecidableEq Data]

theorem Run.justified_settle {list : KeyList Id Data} {isSealed : Bool}
    {lastSeen : ℕ} {copies : List (KeyList Id Data)} {mergedAway : List ℕ}
    (hcopies : ∀ sha ∈ mergedAway, ∃ copy ∈ copies, stored[sha]? = some copy) :
    (Local.settle list isSealed lastSeen copies mergedAway).Justified
      stored := by
  unfold Local.settle
  split
  next merged hmerge =>
    have hmerged : ∀ sha ∈ mergedAway, ∃ copy, stored[sha]? = some copy ∧ copy.Within merged := by
      intro sha hsha
      obtain ⟨copy, hmem, hcopy⟩ := hcopies sha hsha
      exact ⟨copy, hcopy, KeyList.within_merge hmerge hmem⟩
    split
    · split
      · exact hmerged
      next hsame =>
        rw [not_not.mp hsame] at hmerged
        exact hmerged
    · intro sha hsha
      cases hsha
  · intro sha hsha
    cases hsha

theorem Local.recording_settle (list : KeyList Id Data) (isSealed : Bool)
    (lastSeen : ℕ) (copies : List (KeyList Id Data)) (mergedAway : List ℕ) :
    (Local.settle list isSealed lastSeen copies mergedAway).recording = none := by
  unfold Local.settle
  split
  · split
    · split <;> rfl
    · rfl
  · rfl

/-- The step of a computer queues superseded copies only, and the node keeps
what it has. -/
theorem Local.Justified.step {valid : Id → Data → Bool} {node : Node Id Data} {outcome : Outcome}
    {next : Node Id Data × Local Id Data} (hlocal : computer.Justified node.stored)
    (hguard : ∀ sha list mergedAway previous copy,
      computer.run = .syncQueuePrevious sha list mergedAway →
      computer.onlineSha = some previous →
      node.stored[previous]? = some copy → copy.Within list)
    (hstep : computer.step valid node outcome = some next) :
    (next.1 = node ∨ ∃ list, next.1 = node.upload list) ∧ next.2.Justified next.1.stored := by
  have hrunning := hlocal.run
  obtain ⟨index, slot, sealedCopy, lastSeen, onlineSha, pulled, deletes, run⟩ := computer
  cases run with
  | idle =>
    cases hstep
  | syncSeal list =>
    simp only [Local.step] at hstep
    repeat' split at hstep
    all_goals cases hstep
    all_goals exact ⟨Or.inl rfl, hlocal.goto rfl rfl trivial rfl⟩
  | syncSealed | pullAdopt =>
    cases hstep
    exact ⟨Or.inl rfl, hlocal.goto rfl rfl trivial rfl⟩
  | syncList list isSealed lastSeen =>
    cases hstep
    refine ⟨Or.inl rfl, hlocal.goto rfl rfl ?_ ?_⟩
    · simp only [Local.goto]
      split <;>
      · intro sha hsha
        cases hsha
    · simp only [Local.goto]
      split <;> rfl
  | syncDownload list isSealed lastSeen todo copies mergedAway =>
    cases todo with
    | nil =>
      cases hstep
      exact ⟨Or.inl rfl, hlocal.goto rfl rfl (Run.justified_settle hrunning)
        (Local.recording_settle list isSealed lastSeen copies mergedAway)⟩
    | cons sha todo =>
      cases hstep
      refine ⟨Or.inl rfl, hlocal.goto rfl rfl ?_ ?_⟩
      · simp only [Local.goto]
        split
        next copy hdownload =>
          simp only [Node.download, Option.ite_none_right_eq_some] at hdownload
          intro old hold
          rcases List.mem_append.mp hold with hold | hnew
          · obtain ⟨found, hmem, hfound⟩ := hrunning old hold
            exact ⟨found, List.mem_append_left _ hmem, hfound⟩
          · rw [List.mem_singleton] at hnew
            rw [hnew]
            exact ⟨copy, List.mem_append_right _ List.mem_cons_self, hdownload.2⟩
        · exact hrunning
      · simp only [Local.goto]
        split <;> rfl
  | syncSettle list isSealed lastSeen mergedAway =>
    simp only [Local.step] at hstep
    split at hstep
    · cases hstep
      exact ⟨Or.inl rfl, hlocal.goto rfl rfl trivial rfl⟩
    · split at hstep
      · cases hstep
        exact ⟨Or.inl rfl, hlocal.goto rfl rfl hrunning rfl⟩
      · split at hstep
        next sealed hseal =>
          split at hstep
          · cases hstep
            refine ⟨Or.inl rfl, hlocal.goto rfl rfl ?_ rfl⟩
            intro sha hsha
            obtain ⟨copy, hcopy, hwithin⟩ := hrunning sha hsha
            exact ⟨copy, hcopy, fun id hholds =>
              (KeyList.holds_sealList hseal id).mpr (hwithin id hholds)⟩
          · cases hstep
            exact ⟨Or.inl rfl, hlocal.goto rfl rfl trivial rfl⟩
        · cases hstep
          exact ⟨Or.inl rfl, hlocal.goto rfl rfl trivial rfl⟩
  | syncResealed list mergedAway =>
    cases hstep
    exact ⟨Or.inl rfl, hlocal.goto rfl rfl hrunning rfl⟩
  | syncUpload list mergedAway =>
    have hnew : (node.stored ++ [list])[node.stored.length]? = some list := by
      simp
    simp only [Local.step] at hstep
    cases outcome with
    | ok =>
      cases hstep
      refine ⟨Or.inr ⟨list, rfl⟩, ?_⟩
      constructor
      · refine ⟨hnew, ?_⟩
        intro old hold
        obtain ⟨copy, hcopy, hwithin⟩ := hrunning old hold
        have hlength := (List.getElem?_eq_some_iff.mp hcopy).1
        exact ⟨copy, _, list, StoredCopies.getElem?_append _ hcopy, hlength, hnew, hwithin⟩
      · exact (hlocal.append [list]).queued
      · exact (hlocal.append [list]).online
      · intro sha hrecording previous hprevious
        cases hrecording
        exact hlocal.online previous hprevious
    | lost =>
      cases hstep
      exact ⟨Or.inr ⟨list, rfl⟩, (hlocal.append [list]).goto rfl rfl
        trivial rfl⟩
    | _ =>
      cases hstep
      exact ⟨Or.inl rfl, hlocal.goto rfl rfl trivial rfl⟩
  | syncQueuePrevious sha list mergedAway =>
    obtain ⟨hsha, haway⟩ := hrunning
    have hlength := (List.getElem?_eq_some_iff.mp hsha).1
    cases hstep
    refine ⟨Or.inl rfl, ?_⟩
    split
    next previous hprevious =>
      split
      · have hbefore := hlocal.previous sha rfl previous hprevious
        have hcopy : node.stored[previous]? = some (node.stored.get ⟨previous, by omega⟩) := by
          simp
        have hwithin := hguard sha list mergedAway previous _ rfl hprevious hcopy
        exact hlocal.queueDelete ⟨_, sha, list, hcopy, hbefore, hsha, hwithin⟩ ⟨hlength, haway⟩ rfl
      · exact hlocal.goto rfl rfl ⟨hlength, haway⟩ rfl
    · exact hlocal.goto rfl rfl ⟨hlength, haway⟩ rfl
  | syncRecord sha mergedAway =>
    cases hstep
    refine ⟨Or.inl rfl, ?_⟩
    constructor
    · exact hrunning.2
    · exact hlocal.queued
    · intro other hother
      cases hother
      exact hrunning.1
    · intro other hrecording
      cases hrecording
  | syncQueue sha mergedAway =>
    cases mergedAway with
    | nil =>
      cases hstep
      exact ⟨Or.inl rfl, hlocal.goto rfl rfl trivial rfl⟩
    | cons old mergedAway =>
      have hrest : ∀ other ∈ mergedAway, Superseded KeyList.Holds node.stored other :=
        fun other hother => hrunning other (List.mem_cons_of_mem _ hother)
      cases hstep
      refine ⟨Or.inl rfl, ?_⟩
      split
      · exact hlocal.queueDelete (hrunning old List.mem_cons_self) hrest rfl
      · exact hlocal.goto rfl rfl hrest rfl
  | pullList =>
    cases hstep
    refine ⟨Or.inl rfl, hlocal.goto rfl rfl ?_ ?_⟩
    · simp only [Local.goto]
      split <;> trivial
    · simp only [Local.goto]
      split <;> rfl
  | pullDownload todo opened =>
    cases todo with
    | nil =>
      cases hstep
      exact ⟨Or.inl rfl, hlocal.goto rfl rfl trivial rfl⟩
    | cons sha todo =>
      simp only [Local.step] at hstep
      split at hstep <;>
      · cases hstep
        exact ⟨Or.inl rfl, hlocal.goto rfl rfl trivial rfl⟩
  | pullMerge opened =>
    simp only [Local.step] at hstep
    split at hstep
    · cases hstep
      exact ⟨Or.inl rfl, hlocal.goto rfl rfl trivial rfl⟩
    · cases hstep
      refine ⟨Or.inl rfl, ?_⟩
      simp only [Local.pullMerge]
      repeat' split
      all_goals exact hlocal.goto rfl rfl trivial rfl

end Steps

/-! ## Runs -/

section Runs

variable [DecidableEq Computer] [LinearOrder Id] [DecidableEq Data]
  {valid : Id → Data → Bool} {state : State Computer Id Data}
  {name : Computer}

section

omit [LinearOrder Id] [DecidableEq Data]

theorem State.computers_put {next : Node Id Data × Local Id Data}
    {P : Local Id Data → Prop} (hnext : P next.2)
    (hothers : ∀ other, P (state.computers other)) (other : Computer) :
    P ((state.put name next).computers other) := by
  by_cases heq : other = name
  · simp only [State.put, heq, Function.update_self]
    exact hnext
  · simp only [State.put, Function.update_of_ne heq]
    exact hothers other

theorem Kept.put (hkept : Kept state) {next : Local Id Data}
    (hnext : next.Justified state.node.stored) : Kept (state.put name (state.node, next)) where
  gone := hkept.gone
  justified := State.computers_put hnext hkept.justified

theorem Kept.upload (hkept : Kept state) (list : KeyList Id Data) {next : Local Id Data}
    (hnext : next.Justified (state.node.upload list).stored) :
    Kept (state.put name (state.node.upload list, next)) := by
  constructor
  · intro sha copy hcopy hgone
    simp only [State.put, Node.upload, List.mem_append, List.mem_singleton, not_or] at hcopy hgone
    obtain ⟨hgone, hold⟩ := hgone
    have hlength : sha < (state.node.stored ++ [list]).length :=
      (List.getElem?_eq_some_iff.mp hcopy).1
    rw [List.length_append, List.length_singleton] at hlength
    rw [List.getElem?_append_left (by omega)] at hcopy
    exact (hkept.gone sha copy hcopy hgone).append [list]
  · exact State.computers_put hnext (fun other => (hkept.justified other).append [list])

theorem Kept.delete (hkept : Kept state) (hsha : sha ∈ (state.computers name).deletes)
    (outcome : Outcome) :
    Kept (state.put name ((state.computers name).delete state.node sha outcome)) := by
  have hlocal := hkept.justified name
  have hfinished : Local.Justified state.node.stored { state.computers name with
        deletes := (state.computers name).deletes.erase sha } := by
    refine ⟨hlocal.run, ?_, hlocal.online, hlocal.previous⟩
    intro other hother
    exact hlocal.queued other (List.mem_of_mem_erase hother)
  have hgone : ∀ other copy, state.node.stored[other]? = some copy →
      other ∉ (state.node.delete sha).copies →
        Superseded KeyList.Holds state.node.stored other := by
    intro other copy hcopy hother
    by_cases heq : other = sha
    · rw [heq]
      exact hlocal.queued sha hsha
    · apply hkept.gone other copy hcopy
      intro hmem
      exact hother (List.mem_filter.mpr ⟨hmem, decide_eq_true heq⟩)
  cases outcome with
  | ok => exact ⟨hgone, State.computers_put hfinished hkept.justified⟩
  | lost => exact ⟨hgone, State.computers_put hlocal hkept.justified⟩
  | ended => exact hkept.put hfinished
  | failed | refused => exact hkept.put hlocal

end

theorem Kept.step {after : State Computer Id Data}
    {action : Action Computer Id Data} (hkept : Kept state) (hguard : CoveringStep state action)
    (hstep : KeySync.step valid state action = some after) : Kept after := by
  cases action with
  | sync name =>
    have hlocal := hkept.justified name
    simp only [KeySync.step] at hstep
    split at hstep
    · cases hstep
      apply hkept.put
      unfold Local.startSync
      split <;> exact hlocal.goto rfl rfl trivial rfl
    · cases hstep
  | pull name =>
    have hlocal := hkept.justified name
    simp only [KeySync.step] at hstep
    split at hstep
    · cases hstep
      exact hkept.put (hlocal.goto rfl rfl trivial rfl)
    · cases hstep
  | advance name outcome =>
    obtain ⟨next, hnext, hafter⟩ := Option.map_eq_some_iff.mp hstep
    obtain ⟨hnode, hlocal⟩ := (hkept.justified name).step
      (fun sha list mergedAway previous copy =>
        hguard sha list mergedAway previous copy) hnext
    rw [← hafter]
    obtain ⟨node, computer⟩ := next
    simp only at hnode hlocal
    rcases hnode with hnode | ⟨list, hnode⟩
    · rw [hnode] at hlocal ⊢
      exact hkept.put hlocal
    · rw [hnode] at hlocal ⊢
      exact hkept.upload list hlocal
  | abort name | crash name =>
    cases hstep
    exact hkept.put ((hkept.justified name).goto rfl rfl trivial rfl)
  | lose name damaged | setIndex name index =>
    cases hstep
    obtain ⟨hrun, hqueued, honline, hprevious⟩ := hkept.justified name
    exact hkept.put ⟨hrun, hqueued, honline, hprevious⟩
  | addEntry name id data =>
    obtain ⟨hrun, hqueued, honline, hprevious⟩ := hkept.justified name
    simp only [KeySync.step] at hstep
    split at hstep
    · cases hstep
    · cases hstep
      apply hkept.put
      unfold Local.addEntry
      split <;> exact ⟨hrun, hqueued, honline, hprevious⟩
  | removeEntry name id removedAt =>
    obtain ⟨hrun, hqueued, honline, hprevious⟩ := hkept.justified name
    simp only [KeySync.step] at hstep
    split at hstep
    · cases hstep
    · cases hstep
      apply hkept.put
      unfold Local.removeEntry
      split <;> exact ⟨hrun, hqueued, honline, hprevious⟩
  | delete name sha outcome =>
    simp only [KeySync.step] at hstep
    split at hstep
    next hsha =>
      cases hstep
      exact hkept.delete hsha outcome
    · cases hstep

omit [DecidableEq Computer] [LinearOrder Id] [DecidableEq Data] in
theorem Kept.holds (hkept : Kept state) {copy : KeyList Id Data} {id : Id}
    (hcopy : state.node.stored[sha]? = some copy) (hholds : copy.Holds id) :
    ∃ other found, other ∈ state.node.copies ∧
      state.node.stored[other]? = some found ∧ found.Holds id :=
  StoredCopies.exists_present hkept.gone hcopy hholds

theorem Kept.of_reaches {start : State Computer Id Data} (hrest : start.AtRest)
    (hreach : Reaches (KeySync.step valid) CoveringStep start state) : Kept state :=
  hreach.invariant hrest.kept (fun _ _ _ hkept hguard hstep => hkept.step hguard hstep)

/-- In every run in which each sync uploads a list that holds every id of the
copy it uploaded before, every id that a copy on the node ever held is held by
a copy that is on the node. -/
theorem key_list_ids_stay_online (valid : Id → Data → Bool) (start state : State Computer Id Data)
    (hrest : start.AtRest) (hreach : Reaches (step valid) CoveringStep start state)
    (sha : ℕ) (copy : KeyList Id Data) (id : Id)
    (hcopy : state.node.stored[sha]? = some copy) (hholds : copy.Holds id) :
    ∃ other found, other ∈ state.node.copies ∧
      state.node.stored[other]? = some found ∧ found.Holds id :=
  (Kept.of_reaches hrest hreach).holds hcopy hholds

end Runs

end KeySync
end Wildbloom
