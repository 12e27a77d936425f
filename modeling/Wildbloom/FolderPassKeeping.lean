import Wildbloom.FolderPassModel
import Wildbloom.GuardedRuns

/-!
# The pass deletes no version of another program

Every version that the other program stored and did not take away itself is in
the folder or in the Trash.  Moves to the Trash and links lose nothing.  What
can lose a version is a call that takes a name away, or a rename that takes the
place of a file, because the pass decided to make it from what it saw some
calls before.
-/

namespace Wildbloom
namespace FolderPass

open NamedFiles
open Runs

variable {Path : Type}

/-- At a call that takes a name away, the name is one of the file the pass
linked, or of its own copy; at a rename, nothing is at the target. -/
def UndisturbedStep (state : State Path) : Action Path → Prop
  | .advance _ =>
    match state.pass with
    | .removeSource source target _ =>
      state.disk.names source = none ∨ state.disk.names source = state.disk.names target
    | .removeTarget source target _ =>
      state.disk.names target = none ∨ state.disk.names target = state.disk.names source
    | .rename _ target _ => state.disk.names target = none
    | .renamePlace placement => state.disk.names placement.target = none
    | .discard placement =>
      state.disk.names placement.staging = none ∨ state.disk.names placement.staging =
          state.disk.names placement.target ∨
        state.disk.read placement.staging = some none
    | _ => True
  | _ => True

def Pass.Distinct : Pass Path → Prop
  | .removeSource source target _ | .removeTarget source target _ =>
    source ≠ target
  | _ => True

/-- The versions that nobody but the pass could have lost are there. -/
structure Kept (state : State Path) : Prop where
  versions : ∀ version < state.stored, version ∉ state.removed →
    state.disk.Keeps (some version) ∨ version ∈ state.trashed
  distinct : state.pass.Distinct

variable {state after : State Path} {disk : Disk Path (Option ℕ)} {pass : Pass Path}

theorem mem_version {path : Path} {version : ℕ}
    (hread : state.disk.read path = some (some version)) : version ∈ state.version path := by
  rw [State.version, hread]
  exact List.mem_cons_self

/-- A version that the other program did not take from `path` is not there. -/
theorem read_ne_of_not_mem {path : Path} {version : ℕ} (hversion : version ∉ state.version path) :
    state.disk.read path ≠ some (some version) :=
  fun hread => hversion (mem_version hread)

/-! ## The other program -/

theorem Kept.other (hkept : Kept state) {gone : List ℕ}
    (hdisk : ∀ version, version ∉ gone → state.disk.Keeps (some version) →
      disk.Keeps (some version)) :
    Kept { state with disk := disk, removed := gone ++ state.removed } := by
  refine ⟨?_, hkept.distinct⟩
  intro version hversion hlive
  rw [List.mem_append, not_or] at hlive
  rcases hkept.versions version hversion hlive.2 with hkeeps | htrashed
  · exact Or.inl (hdisk version hlive.1 hkeeps)
  · exact Or.inr htrashed

theorem Kept.store (hkept : Kept state) (hnew : state.disk.Keeps (some state.stored)) :
    Kept { state with stored := state.stored + 1 } := by
  refine ⟨?_, hkept.distinct⟩
  intro version hversion hlive
  by_cases heq : version = state.stored
  · rw [heq]
    exact Or.inl hnew
  · have hold : version < state.stored := by
      have hbound : version < state.stored + 1 := hversion
      omega
    exact hkept.versions version hold hlive

/-! ## The pass -/

theorem Kept.call (hkept : Kept state)
    (hdisk : ∀ version, state.disk.Keeps (some version) → disk.Keeps (some version))
    (hdistinct : pass.Distinct) : Kept { state with disk := disk, pass := pass } := by
  refine ⟨?_, hdistinct⟩
  intro version hversion hlive
  exact (hkept.versions version hversion hlive).imp_left (hdisk version)

theorem Kept.goto (hkept : Kept state) (hdistinct : pass.Distinct) : Kept (state.goto pass) :=
  hkept.call (fun _ hkeeps => hkeeps) hdistinct

theorem After.distinct_succeeded (next : After Path) : next.succeeded.Distinct := by
  cases next with
  | moved => trivial
  | removed candidates place => cases place <;> trivial

theorem After.distinct_occupied (next : After Path) (source : Path) :
    (next.occupied source).Distinct := by
  cases next with
  | moved => trivial
  | removed candidates place => cases candidates <;> trivial

theorem Kept.start (hkept : Kept state) (hstep : state.start pass = some after)
    (hdistinct : pass.Distinct) : Kept after := by
  unfold State.start at hstep
  split at hstep
  · cases hstep
    exact hkept.goto hdistinct
  · cases hstep

variable [DecidableEq Path] {action : Action Path}

theorem Kept.trash (hkept : Kept state) (path : Path) (hdistinct : pass.Distinct) :
    Kept { state with
      disk := state.disk.unlink path
      trashed := state.trashed ++ state.version path
      pass := pass } := by
  refine ⟨?_, hdistinct⟩
  intro version hversion hlive
  rcases hkept.versions version hversion hlive with hkeeps | htrashed
  · by_cases hmem : version ∈ state.version path
    · exact Or.inr (List.mem_append_right _ hmem)
    · exact Or.inl (hkeeps.unlink (read_ne_of_not_mem hmem))
  · exact Or.inr (List.mem_append_left _ htrashed)

theorem Kept.advance (hkept : Kept state) {ok : Bool} (hguard : UndisturbedStep state (.advance ok))
    (hstep : state.advance ok = some after) : Kept after := by
  have hdistinct := hkept.distinct
  cases hpass : state.pass with simp only [State.advance, hpass] at hstep
  | idle =>
    cases hstep
  | hardLink source target next =>
    cases hstep
    split
    · exact hkept.goto trivial
    · split
      · exact hkept.goto (next.distinct_occupied source)
      next hfree =>
        rw [Bool.not_eq_true, Option.isSome_eq_false_iff, Option.isNone_iff_eq_none] at hfree
        split
        next hsource =>
          have hne : source ≠ target := by
            intro heq
            rw [heq, hfree] at hsource
            cases hsource
          refine hkept.call ?_ hne
          intro version hkeeps
          exact hkeeps.link (Disk.read_ne_of_none hfree)
        · exact hkept.goto trivial
  | removeSource source target next =>
    simp only [UndisturbedStep, hpass] at hguard
    rw [hpass] at hdistinct
    cases hstep
    split
    next hsource =>
      rw [Bool.and_eq_true] at hsource
      refine hkept.call ?_ next.distinct_succeeded
      intro version hkeeps
      rcases hguard with hnone | hsame
      · rw [hnone] at hsource
        cases hsource.1
      · exact hkeeps.unlink_of_same hdistinct.symm hsame
    · exact hkept.goto hdistinct
  | removeTarget source target next =>
    simp only [UndisturbedStep, hpass] at hguard
    rw [hpass] at hdistinct
    cases hstep
    refine hkept.call ?_ trivial
    intro version hkeeps
    split
    · rcases hguard with hnone | hsame
      · exact hkeeps.unlink (Disk.read_ne_of_none hnone)
      · exact hkeeps.unlink_of_same hdistinct hsame
    · exact hkeeps
  | checkTarget source target next =>
    cases hstep
    split
    · exact hkept.goto (next.distinct_occupied source)
    · exact hkept.goto trivial
  | rename source target next =>
    simp only [UndisturbedStep, hpass] at hguard
    cases hstep
    split
    · refine hkept.call ?_ next.distinct_succeeded
      intro version hkeeps
      exact hkeeps.rename (Disk.read_ne_of_none hguard)
    · exact hkept.goto trivial
  | trash path candidates place =>
    cases hstep
    split
    · exact hkept.trash path (After.distinct_succeeded _)
    · exact hkept.goto (After.distinct_occupied _ path)
  | copy placement =>
    cases hstep
    split
    next hfree =>
      rw [Bool.and_eq_true, Option.isNone_iff_eq_none] at hfree
      refine hkept.call ?_ ?_
      · intro version hkeeps
        exact hkeeps.create (Disk.read_ne_of_none hfree.1)
      · split <;> trivial
    · exact hkept.goto trivial
  | linkPlace placement =>
    cases hstep
    split
    · exact hkept.goto trivial
    · split
      · exact hkept.goto trivial
      next hfree =>
        rw [Bool.not_eq_true, Option.isSome_eq_false_iff, Option.isNone_iff_eq_none] at hfree
        split
        · refine hkept.call ?_ trivial
          intro version hkeeps
          exact hkeeps.link (Disk.read_ne_of_none hfree)
        · exact hkept.goto trivial
  | discard placement =>
    simp only [UndisturbedStep, hpass] at hguard
    cases hstep
    refine hkept.call ?_ trivial
    intro version hkeeps
    split
    · rcases hguard with hnone | hsame | hown
      · exact hkeeps.unlink (Disk.read_ne_of_none hnone)
      · exact hkeeps.unlink_of_same placement.distinct hsame
      · apply hkeeps.unlink
        rw [hown]
        intro heq
        cases heq
    · exact hkeeps
  | renamePlace placement =>
    simp only [UndisturbedStep, hpass] at hguard
    cases hstep
    split
    · refine hkept.call ?_ trivial
      intro version hkeeps
      exact hkeeps.rename (Disk.read_ne_of_none hguard)
    · exact hkept.goto trivial
  | _ =>
    cases hstep
    split <;> exact hkept.goto trivial

/-! ## Runs -/

theorem Kept.step (hkept : Kept state) (hguard : UndisturbedStep state action)
    (hstep : FolderPass.step state action = some after) : Kept after := by
  cases action with simp only [FolderPass.step] at hstep
  | create path =>
    split at hstep
    · cases hstep
    next hfree =>
      rw [Bool.not_eq_true, Option.isSome_eq_false_iff, Option.isNone_iff_eq_none] at hfree
      cases hstep
      have hcreated : Kept { state with disk := state.disk.create path (some state.stored) } :=
        hkept.call (fun version hkeeps =>
          hkeeps.create (Disk.read_ne_of_none hfree)) hkept.distinct
      exact hcreated.store (Disk.keeps_new path _)
  | write path =>
    split at hstep
    next hfile =>
      cases hstep
      have hwritten : Kept { state with
          disk := state.disk.write path (some state.stored)
          removed := state.version path ++ state.removed } :=
        hkept.other (fun version hversion hkeeps =>
          hkeeps.write (read_ne_of_not_mem hversion))
      exact hwritten.store (Disk.keeps_written hfile)
    · cases hstep
  | replace path =>
    cases hstep
    have hreplaced : Kept { state with
        disk := state.disk.create path (some state.stored)
        removed := state.version path ++ state.removed } :=
      hkept.other (fun version hversion hkeeps =>
        hkeeps.create (read_ne_of_not_mem hversion))
    exact hreplaced.store (Disk.keeps_new path _)
  | shift source target =>
    split at hstep
    · cases hstep
      split
      next hsame =>
        rw [Disk.rename, if_pos hsame]
        exact hkept
      · exact hkept.other (fun version hversion hkeeps =>
          hkeeps.rename (read_ne_of_not_mem hversion))
    · cases hstep
  | delete path =>
    cases hstep
    exact hkept.other (fun version hversion hkeeps =>
      hkeeps.unlink (read_ne_of_not_mem hversion))
  | advance ok => exact hkept.advance hguard hstep
  | _ => exact hkept.start hstep trivial

/-- In every run in which the other program leaves the names of a move alone
between its calls, every version it stored and did not take away itself is in
the folder or in the Trash. -/
theorem stored_versions_are_kept (state : State Path)
    (hreach : Reaches step UndisturbedStep ({} : State Path) state)
    (version : ℕ) (hstored : version < state.stored) (hlive : version ∉ state.removed) :
    (∃ path, state.disk.read path = some (some version)) ∨ version ∈ state.trashed := by
  have hkept : Kept state := by
    apply hreach.invariant
    · constructor
      · intro version hversion
        cases hversion
      · trivial
    · exact fun _ _ _ hkept hguard hstep => hkept.step hguard hstep
  exact hkept.versions version hstored hlive

/-! ## Two runs -/

def undisturbedCheck (state : State Path) : Action Path → Bool
  | .advance _ =>
    match state.pass with
    | .removeSource source target _ =>
      decide (state.disk.names source = state.disk.names target)
    | .discard placement =>
      decide (state.disk.names placement.staging = state.disk.names placement.target)
    | .removeTarget _ _ _ | .rename _ _ _ | .renamePlace _ => false
    | _ => true
  | _ => true

omit [DecidableEq Path] in
theorem undisturbedStep_of_check (hcheck : undisturbedCheck state action = true) :
    UndisturbedStep state action := by
  cases action with
  | advance ok =>
    simp only [undisturbedCheck] at hcheck
    simp only [UndisturbedStep]
    split
    next hpass =>
      rw [hpass] at hcheck
      exact Or.inr (of_decide_eq_true hcheck)
    next hpass =>
      rw [hpass] at hcheck
      cases hcheck
    next hpass =>
      rw [hpass] at hcheck
      cases hcheck
    next hpass =>
      rw [hpass] at hcheck
      cases hcheck
    next hpass =>
      rw [hpass] at hcheck
      exact Or.inr (Or.inl (of_decide_eq_true hcheck))
    · trivial
  | _ => trivial

/-- A file is moved; another takes its old place, goes to the Trash and gives
way to a copy of the pass. -/
theorem stored_versions_are_kept_after_pass :
    ∃ state : State ℕ, Reaches step UndisturbedStep {} state ∧
      (state.stored = 2 ∧ state.removed = [] ∧ state.disk.names 0 ≠ none) ∧
      ((∃ path, state.disk.read path = some (some 1)) ∨ 1 ∈ state.trashed) := by
  have hrun : (checkedRun step undisturbedCheck ({} : State ℕ)
      (.create 0 :: .move 0 1 :: List.replicate 4 (.advance true) ++
        .create 0 :: .remove 0 [] (some ⟨0, 5, true, by decide⟩) ::
          List.replicate 6 (.advance true))).any
        (fun state => decide (state.stored = 2 ∧ state.removed = [] ∧
          state.disk.names 0 ≠ none)) = true := by
    decide
  obtain ⟨state, hreach, htest⟩ := exists_reaches_of_check undisturbedStep_of_check hrun
  obtain ⟨hstored, hremoved, hplaced⟩ := of_decide_eq_true htest
  refine ⟨state, hreach, ⟨hstored, hremoved, hplaced⟩,
    stored_versions_are_kept state hreach 1 ?_ ?_⟩
  · rw [hstored]
    decide
  · rw [hremoved]
    exact List.not_mem_nil

/-- Between the link and the unlink of a move, the other program replaces the
file at the old name, and the unlink deletes the new version. -/
theorem move_deletes_replaced_file : ∃ (state : State Bool) (version : ℕ),
      Reaches step everyStep ({} : State Bool) state ∧
      version < state.stored ∧ version ∉ state.removed ∧
      ¬ ((∃ path, state.disk.read path = some (some version)) ∨ version ∈ state.trashed) := by
  have hrun : (runActions step ({} : State Bool)
      (.create false :: .move false true :: List.replicate 3 (.advance true) ++
        [.replace false, .advance true])).any
        (fun state => decide (1 < state.stored ∧ 1 ∉ state.removed ∧
          ¬ ((∃ path, state.disk.read path = some (some 1)) ∨ 1 ∈ state.trashed))) = true := by
    decide
  obtain ⟨state, hreach, htest⟩ := exists_reaches_of_runActions hrun
  exact ⟨state, 1, hreach, of_decide_eq_true htest⟩

end FolderPass
end Wildbloom
