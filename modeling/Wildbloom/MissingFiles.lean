import Wildbloom.RemovalBrake
import Wildbloom.RequestTables

/-!
# Two misses before a deletion

The table of first misses says more than it holds: whatever happened since, the
row was missing in the pass that made the entry, and in every pass after it that
checked the row.  `watch` runs the passes together with the list of them, so that
this can be said.
-/

namespace Wildbloom
namespace FolderWatch

open Runs

variable {Id Path Hash : Type} [DecidableEq Id]

/-! ## One pass -/

section Infer

variable (blocked : Bool) (now : ℕ) (acc : List Id × List (Id × ℕ))

/-- A file that is there ends the entry of its row.  A missing one makes an entry,
or counts as deleted when its entry is old enough. -/
theorem inferOne_cases (check : Id × Stat) : (check.2 ≠ .missing ∧ inferOne blocked now acc check =
      (acc.1, acc.2.filter fun entry => entry.1 ≠ check.1)) ∨
    check.2 = .missing ∧ (inferOne blocked now acc check = acc ∨ blocked = false ∧
      (inferOne blocked now acc check = (acc.1, acc.2 ++ [(check.1, now)]) ∨
        inferOne blocked now acc check = (acc.1 ++ [check.1], acc.2) ∧
          ∃ since, (check.1, since) ∈ acc.2 ∧ since + settle ≤ now)) := by
  obtain ⟨id, stat⟩ := check
  cases stat with
  | present found => exact Or.inl ⟨by simp, rfl⟩
  | unknown => exact Or.inl ⟨by simp, rfl⟩
  | missing =>
    refine Or.inr ⟨rfl, ?_⟩
    cases blocked with
    | true => exact Or.inl rfl
    | false =>
      cases hfound : acc.2.lookup id with
      | none => simp [inferOne, hfound]
      | some since =>
        by_cases hsettled : settle ≤ now - since
        · obtain ⟨before, after, hsplit, -⟩ := List.lookup_eq_some_iff.mp hfound
          have hmem : (id, since) ∈ acc.2 := by simp [hsplit]
          have hpositive : 0 < settle := by decide
          refine Or.inr ⟨rfl, Or.inr ⟨by simp [inferOne, hfound, hsettled], since, hmem, ?_⟩⟩
          omega
        · simp [inferOne, hfound, hsettled]

variable {blocked now acc} {checks : List (Id × Stat)}

theorem mem_inferred {id : Id} (hid : id ∈ (checks.foldl (inferOne blocked now) acc).1) :
    id ∈ acc.1 ∨ blocked = false ∧ (id, .missing) ∈ checks ∧
      ∃ since, (id, since) ∈ acc.2 ∧ since + settle ≤ now := by
  induction checks generalizing acc with
  | nil => exact Or.inl hid
  | cons check checks ih =>
    have hpositive : 0 < settle := by decide
    have hlater := ih hid
    simp only [List.mem_cons]
    rcases inferOne_cases blocked now acc check with
      ⟨-, hnext⟩ | ⟨hmissing, hnext | ⟨hfree, hnext | ⟨hnext, since, hsince, hold⟩⟩⟩
    all_goals
      rw [hnext] at hlater
      grind

theorem mem_missing {entry : Id × ℕ}
    (hentry : entry ∈ (checks.foldl (inferOne blocked now) acc).2) :
    (entry ∈ acc.2 ∧ ∀ stat, (entry.1, stat) ∈ checks → stat = .missing) ∨
      entry.2 = now ∧ blocked = false ∧ (entry.1, .missing) ∈ checks := by
  induction checks generalizing acc with
  | nil => exact Or.inl ⟨hentry, by simp⟩
  | cons check checks ih =>
    have hlater := ih hentry
    simp only [List.mem_cons]
    rcases inferOne_cases blocked now acc check with
      ⟨-, hnext⟩ | ⟨hmissing, hnext | ⟨hfree, hnext | ⟨hnext, -⟩⟩⟩
    all_goals
      rw [hnext] at hlater
      grind

end Infer

/-! ## Runs -/

/-- A pass, and the rows that were held when it read them. -/
structure Look (Id Path Hash : Type) where
  pass : Pass Id Path Hash
  held : List Id

def Look.checked (look : Look Id Path Hash) : List (Id × Stat) :=
  (look.pass.checks look.held).map fun found => (found.1.id, found.2)

/-- The watcher, and the passes it has made, the last one first. -/
structure Watched (Id Path Hash : Type) where
  state : State Id
  looks : List (Look Id Path Hash) := []

def Pass.look (pass : Pass Id Path Hash) (state : State Id) : Look Id Path Hash :=
  ⟨pass, pass.heldIds state⟩

/-- The row was missing in a pass at `since`, while no import was being encrypted,
and in every later pass that checked it. -/
def MissedSince (looks : List (Look Id Path Hash)) (id : Id) (since : ℕ) : Prop :=
  ∃ later first older, looks = later ++ first :: older ∧ first.pass.now = since ∧
    first.pass.importing = false ∧ (id, .missing) ∈ first.checked ∧
    ∀ look ∈ later, ∀ stat, (id, stat) ∈ look.checked → stat = .missing

variable [DecidableEq Path] [DecidableEq Hash] {watched : Watched Id Path Hash}

def watch (watched : Watched Id Path Hash) (action : Action Id Path Hash) :
    Option (Watched Id Path Hash) :=
  (step watched.state action).map fun next =>
    { state := next
      looks :=
        match action with
        | .pass pass => pass.look watched.state :: watched.looks
        | _ => watched.looks }

def Watched.Remembers (watched : Watched Id Path Hash) : Prop :=
  ∀ id since, (id, since) ∈ watched.state.missing → MissedSince watched.looks id since

theorem Watched.Remembers.pass {pass : Pass Id Path Hash} (hremembers : watched.Remembers) :
    Watched.Remembers
      ⟨watched.state.folderPass pass, pass.look watched.state :: watched.looks⟩ := by
  intro id since hentry
  have hinferred := (List.mem_filter.mp hentry).1
  obtain ⟨hentry, hchecked⟩ := List.mem_filter.mp hinferred
  rcases mem_missing hentry with ⟨hold, hmissing⟩ | ⟨hnow, hfree, hcheck⟩
  · obtain ⟨later, first, older, hlooks, hfirst⟩ := hremembers id since hold
    refine ⟨pass.look watched.state :: later, first, older, by rw [hlooks]; rfl, hfirst.1,
      hfirst.2.1, hfirst.2.2.1, fun look hlook => ?_⟩
    rcases List.mem_cons.mp hlook with rfl | hlater
    · exact hmissing
    · exact hfirst.2.2.2 look hlater
  · have himporting : pass.importing = false := by simpa using hfree
    exact ⟨[], pass.look watched.state, watched.looks, rfl, hnow.symm, himporting, hcheck, by simp⟩

theorem Watched.Remembers.step {after : Watched Id Path Hash} {action : Action Id Path Hash}
    (hremembers : watched.Remembers) (hstep : watch watched action = some after) :
    after.Remembers := by
  obtain ⟨next, hnext, rfl⟩ := Option.map_eq_some_iff.mp hstep
  cases action with
  | pass pass =>
    simp only [FolderWatch.step, Option.ite_none_right_eq_some, Option.some.injEq] at hnext
    rw [← hnext.2]
    exact hremembers.pass
  | noScan =>
    cases hnext
    exact fun id since hentry => by cases hentry
  | rowGone id =>
    cases hnext
    exact hremembers

/-- A pass infers that a row is deleted only if the row is missing in it and was
missing in an earlier pass, at least the settling time before and while no import was
being encrypted in either, and in every pass between them that checked the row. -/
theorem deletions_need_two_misses (start : State Id) (hstart : start.missing = [])
    (watched : Watched Id Path Hash) (hreach : Reaches watch everyStep { state := start } watched)
    (pass : Pass Id Path Hash) (id : Id)
    (hid : id ∈ (pass.infer (pass.heldIds watched.state) watched.state.missing).1) :
    pass.importing = false ∧ (id, .missing) ∈ (pass.look watched.state).checked ∧
      ∃ since, MissedSince watched.looks id since ∧ since + settle ≤ pass.now := by
  have hremembers : watched.Remembers := by
    refine hreach.invariant ?_ fun _ _ _ hremembers _ hstep => hremembers.step hstep
    intro id since hentry
    rw [hstart] at hentry
    cases hentry
  rcases mem_inferred hid with hnone | ⟨hfree, hmissing, since, hsince, hsettled⟩
  · cases hnone
  · exact ⟨by simpa using hfree, hmissing, since, hremembers id since hsince, hsettled⟩

theorem deletions_need_two_misses_of_one_row :
    ∃ watched : Watched ℕ ℕ ℕ, Reaches watch everyStep { state := {} } watched ∧
      ∃ since, MissedSince watched.looks 0 since ∧ since + settle ≤ seconds 3 := by
  have hrun : (runActions watch ({ state := {} } : Watched ℕ ℕ ℕ) [.pass (loneLoss 0)]).any
      (fun watched => decide (0 ∈ ((loneLoss (seconds 3)).infer
        ((loneLoss (seconds 3)).heldIds watched.state) watched.state.missing).1)) = true := by
    decide
  obtain ⟨watched, hreach, htest⟩ := exists_reaches_of_runActions hrun
  exact ⟨watched, hreach, (deletions_need_two_misses {} rfl watched hreach (loneLoss (seconds 3)) 0
    (of_decide_eq_true htest)).2.2⟩

end FolderWatch
end Wildbloom
