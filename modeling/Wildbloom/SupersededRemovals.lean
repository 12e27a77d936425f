import Wildbloom.FileCopiesSoundness

/-!
# A superseded version goes only when its successor is safe

An edit removes the version it replaces once it has recorded its own copy, and
a duplicate is removed in favour of the entry that wins.  Both decide on what
they have read, and the removal itself comes later.  The successor is safe all
through the removal if no other task takes a copy of it off the record or
deletes it meanwhile, no write is lost, and a winner whose local copy is missing
is online when the duplicates are settled.  `settle_duplicates` itself does not
ask for the latter.
-/

namespace Wildbloom
namespace FileCopies

open FileEntries (LocalState)
open Runs

variable {Id Origin : Type}

/-- The index records an envelope that can be read. -/
def Row.Available (row : Row Id) : Prop :=
  row.hasEnvelope = true ∧ (row.localState = .ok ∨ row.localState = .pending ∨ row.online = .ok)

instance (row : Row Id) : Decidable row.Available := by
  unfold Row.Available
  infer_instance

theorem Row.available_of_ready {row : Row Id} (hready : row.ready = true)
    (hmissing : row.localState ≠ .missing ∨ row.online = .ok) : row.Available := by
  simp only [Row.ready, Bool.and_eq_true] at hready
  refine ⟨hready.1, ?_⟩
  cases hstate : row.localState with
  | ok => exact Or.inl rfl
  | pending => exact Or.inr (Or.inl rfl)
  | missing => exact Or.inr (Or.inr (hmissing.resolve_left (· hstate)))
  | _ => simp [hstate] at hready

namespace Task

def successor : Task Id Origin → Option Id
  | .supersede id _ => some id
  | .remove _ successor _ => successor
  | _ => none

/-- The row of an upload that has recorded its copy and has not yet looked for
the version it replaces. -/
def promised : Task Id Origin → Option Id
  | .recorded id .uploadLocal => some id
  | .recorded id (.uploadOnline _) => some id
  | .completeEdit id => some id
  | _ => none

/-- The successor is available, and so is the promised row if it is still
there. -/
structure Backed (files : Files Id Origin) (task : Task Id Origin) : Prop where
  successor : ∀ id, task.successor = some id → ∃ row, files.rows id = some row ∧ row.Available
  promised : ∀ id row, task.promised = some id → files.rows id = some row → row.Available

theorem backed_of_none {files : Files Id Origin} {task : Task Id Origin}
    (hsuccessor : task.successor = none) (hpromised : task.promised = none) :
    task.Backed files := by
  constructor
  · intro id hid
    rw [hsuccessor] at hid
    cases hid
  · intro id row hid
    rw [hpromised] at hid
    cases hid

theorem Opening.backed {files : Files Id Origin} {task : Task Id Origin}
    (hopening : task.Opening) : task.Backed files := by
  cases hopening with
  | _ => exact backed_of_none rfl rfl

end Task

section Steps

variable [DecidableEq Id] [DecidableEq Origin]

/-! ## The condition -/

/-- The effect takes no copy of the row off the record. -/
def Effect.keeps (id : Id) : Effect Id Origin → Bool
  | .setLocal other state =>
    decide (other ≠ id) || decide (state = .ok) || decide (state = .pending)
  | .setOnline other state => decide (other ≠ id) || decide (state = .ok)
  | _ => true

def Effect.spares (id : Id) : Effect Id Origin → Bool
  | .deleteFile other => decide (other ≠ id)
  | _ => true

namespace State

def replaces (state : State Id Origin) (id : Id) : Bool :=
  state.tasks.any fun task => decide (task.successor = some id)

def favours (state : State Id Origin) (id : Id) : Bool :=
  state.replaces id || state.tasks.any fun task => decide (task.promised = some id)

/-- A winner whose local copy is missing is online. -/
def settles (state : State Id Origin) : Action Id Origin → Bool
  | .settle _ winner =>
    (state.files.rows winner).all fun row =>
      decide (row.localState ≠ .missing ∨ row.online = .ok)
  | _ => true

end State

/-- The condition on a step: it loses no write, no row is settled on that has no
copy on record, and while a row is being removed in favour of another no step
takes a copy of the other off the record, or deletes it. -/
structure KeepingStep (state : State Id Origin) (action : Action Id Origin) : Prop where
  kept : action.loses = false
  settles : state.settles action = true
  keeps : ∀ id, state.favours id = true →
    (state.turn action).all (fun turn => turn.effect.keeps id) = true
  spares : ∀ id, state.replaces id = true →
    (state.turn action).all (fun turn => turn.effect.spares id) = true

/-! ## Effects -/

variable {files : Files Id Origin} {id : Id} {effect : Effect Id Origin}
  {task : Task Id Origin} {reply : Reply}
  {state after : State Id Origin} {action : Action Id Origin}

variable {row : Row Id}

omit [DecidableEq Origin] in
theorem Row.Available.write (havailable : row.Available) (hkeeps : effect.keeps id = true) :
    (∀ state, effect = .setLocal id state → (row.setLocal state).Available) ∧
    (∀ state, effect = .setOnline id state → (row.setOnline state).Available) := by
  obtain ⟨henvelope, hcopies⟩ := havailable
  constructor
  · rintro state rfl
    refine ⟨henvelope, ?_⟩
    simp only [Effect.keeps, ne_eq, not_true_eq_false, decide_false, Bool.false_or,
      Bool.or_eq_true, decide_eq_true_eq] at hkeeps
    simp only [Row.setLocal]
    tauto
  · rintro state rfl
    refine ⟨henvelope, ?_⟩
    simp only [Effect.keeps, ne_eq, not_true_eq_false, decide_false, Bool.false_or,
      decide_eq_true_eq] at hkeeps
    simp only [Row.setOnline]
    tauto

theorem Files.available_apply (hrow : files.rows id = some row) (havailable : row.Available)
    (hlawful : effect.Lawful files) (hkeeps : effect.keeps id = true)
    (hspares : effect.spares id = true) :
    ∃ row, (files.apply effect).rows id = some row ∧ row.Available := by
  obtain ⟨hlocal, honline⟩ := havailable.write hkeeps
  have hupdate : ∀ (other : Id) (write : Row Id → Row Id), (other = id → (write row).Available) →
      ∃ row, (files.update other write).rows id = some row ∧ row.Available := by
    intro other write hwrite
    by_cases hid : id = other
    · subst hid
      exact ⟨write row, by simp [Files.update, hrow], hwrite rfl⟩
    · exact ⟨row, by simp [Files.update, Function.update_of_ne hid, hrow], havailable⟩
  cases effect with
  | insertFile other inserted =>
    have hid : id ≠ other := by
      rintro rfl
      rw [hlawful.1] at hrow
      cases hrow
    exact ⟨row, by simp [Files.apply, Function.update_of_ne hid, hrow], havailable⟩
  | setEnvelope other =>
    exact hupdate other _ fun _ => ⟨rfl, havailable.2⟩
  | setLocal other state =>
    refine hupdate other _ fun hid => ?_
    subst hid
    exact hlocal state rfl
  | setOnline other state =>
    refine hupdate other _ fun hid => ?_
    subst hid
    exact honline state rfl
  | deleteFile other =>
    have hid : id ≠ other := by
      rintro rfl
      simp [Effect.spares] at hspares
    exact ⟨row, by simp [Files.apply, Function.update_of_ne hid, hrow], havailable⟩
  | start _ => exact hlawful.elim
  | _ => exact ⟨row, hrow, havailable⟩

theorem Files.row_of_apply (hholds : files.Holds id Row.Known) (hlawful : effect.Lawful files)
    (hrow : (files.apply effect).rows id = some row) :
    (∃ old, files.rows id = some old) ∧ effect.spares id = true := by
  have hthere : (∃ old, files.rows id = some old) := by
    rcases hholds with ⟨old, hold, _⟩ | hgone
    · exact ⟨old, hold⟩
    · exfalso
      have hnone : ∀ (other : Id) (write : Row Id → Row Id),
          (files.update other write).rows id = none := by
        intro other write
        by_cases hid : id = other
        · subst hid
          simp [Files.update, hgone.1]
        · simp [Files.update, Function.update_of_ne hid, hgone.1]
      have hstill : (files.apply effect).rows id = none := by
        cases effect with
        | insertFile other inserted =>
          have hid : id ≠ other := by
            rintro rfl
            exact Bool.false_ne_true (hlawful.2.symm.trans hgone.2)
          simp [Files.apply, Function.update_of_ne hid, hgone.1]
        | setEnvelope other | setLocal other state | setOnline other state => exact hnone other _
        | deleteFile other =>
          by_cases hid : id = other
          · subst hid
            simp [Files.apply]
          · simp [Files.apply, Function.update_of_ne hid, hgone.1]
        | start _ => exact hlawful.elim
        | _ => exact hgone.1
      rw [hstill] at hrow
      cases hrow
  refine ⟨hthere, ?_⟩
  cases effect with
  | deleteFile other =>
    have hid : other ≠ id := by
      rintro rfl
      simp [Files.apply] at hrow
    simp [Effect.spares, hid]
  | _ => rfl

omit [DecidableEq Id] [DecidableEq Origin] in
theorem Task.Sound.known (hsound : task.Sound files)
    (hpromised : task.promised = some id) : files.Holds id Row.Known := by
  cases task with
  | recorded other purpose =>
    cases purpose with
    | uploadLocal | uploadOnline =>
      cases hpromised
      exact Files.Holds.mono hsound fun _ _ => trivial
    | _ => cases hpromised
  | completeEdit other =>
    cases hpromised
    exact Files.Holds.mono hsound fun _ _ => trivial
  | _ => cases hpromised

theorem Task.Backed.apply (hbacked : task.Backed files)
    (hsound : task.Sound files) (hlawful : effect.Lawful files)
    (hkeeps : ∀ id, task.successor = some id ∨ task.promised = some id →
      effect.keeps id = true)
    (hspares : ∀ id, task.successor = some id → effect.spares id = true) :
    task.Backed (files.apply effect) := by
  constructor
  · intro id hid
    obtain ⟨row, hrow, havailable⟩ := hbacked.successor id hid
    exact Files.available_apply hrow havailable hlawful (hkeeps id (Or.inl hid)) (hspares id hid)
  · intro id row hid hrow
    obtain ⟨⟨old, hold⟩, hspares⟩ :=
      Files.row_of_apply (hsound.known hid) hlawful hrow
    obtain ⟨found, hfound, havailable⟩ := Files.available_apply hold
      (hbacked.promised id old hid hold) hlawful (hkeeps id (Or.inr hid))
      hspares
    rw [hrow] at hfound
    cases hfound
    exact havailable

/-! ## Tasks -/

variable {next : Effect Id Origin × Task Id Origin}

omit [DecidableEq Id] [DecidableEq Origin] in
/-- A removal in favour of a row goes on, or an edit has found its own row and
the version that it replaces. -/
theorem Task.successor_of_run (hrun : task.run files reply = some next)
    (hsuccessor : next.2.successor = some id) :
    task.successor = some id ∨ task = .completeEdit id ∧ next.1 = .nothing ∧
        ∃ row, files.rows id = some row := by
  cases task with
  | encrypt other stage =>
    cases hrun
    cases stage with
    | _ => grind [encryptStep, Task.successor]
  | copy other purpose stage =>
    cases purpose with
    | _ => cases stage with
      | _ => grind [Task.run, copyStep, answerStep, Purpose.unread, Task.successor]
  | remove other successor stage =>
    cases hrun
    cases stage with
    | queueOnline rest =>
      cases rest with
      | _ => grind [removeStep, Task.successor]
    | _ => grind [removeStep, Task.successor]
  | delete node other stage =>
    obtain ⟨-, htask⟩ := deleteStep_next hrun
    grind [Task.successor]
  | recorded other purpose =>
    cases purpose with
    | _ => grind [Task.run, Task.successor]
  | completeEdit other =>
    simp only [Task.run] at hrun
    split at hrun
    · cases hrun
      cases hsuccessor
    next prev hprev =>
      cases hrun
      cases hsuccessor
      obtain ⟨row, hrow, -⟩ := Option.bind_eq_some_iff.mp hprev
      exact Or.inr ⟨rfl, rfl, row, hrow⟩
  | _ => grind [Task.run, Task.successor]

omit [DecidableEq Id] [DecidableEq Origin] in
/-- An upload goes on with its promise, or it has just recorded its copy. -/
theorem Task.promised_of_run (hsound : task.Sound files) (hrun : task.run files reply = some next)
    (hpromised : next.2.promised = some id) :
    task.promised = some id ∨ files.Holds id Row.Kept ∧
        (next.1 = .setLocal id .ok ∨ next.1 = .setOnline id .ok) := by
  cases task with
  | encrypt other stage =>
    cases hrun
    cases stage with
    | _ => grind [encryptStep, Task.promised]
  | copy other purpose stage =>
    cases stage with
    | answered answer =>
      cases purpose with
      | uploadLocal =>
        simp only [Task.run, copyStep, answerStep] at hrun
        split at hrun
        · cases hrun
          cases hpromised
          exact Or.inr ⟨hsound, Or.inl rfl⟩
        · cases hrun
          cases hpromised
      | uploadOnline origin =>
        simp only [Task.run, copyStep, answerStep] at hrun
        split at hrun
        · cases hrun
          cases hpromised
          exact Or.inr ⟨hsound, Or.inr rfl⟩
        · cases hrun
          cases hpromised
      | _ => grind [Task.run, copyStep, answerStep, Task.promised]
    | _ =>
      cases purpose with
      | _ => grind [Task.run, copyStep, Purpose.unread, Task.promised]
  | remove other successor stage =>
    cases hrun
    cases stage with
    | queueOnline rest =>
      cases rest with
      | _ => grind [removeStep, Task.promised]
    | _ => grind [removeStep, Task.promised]
  | delete node other stage =>
    obtain ⟨-, htask⟩ := deleteStep_next hrun
    grind [Task.promised]
  | recorded other purpose =>
    cases purpose with
    | _ => grind [Task.run, Task.promised]
  | _ => grind [Task.run, Task.promised]

theorem Task.Backed.run (hbacked : task.Backed files) (hsound : task.Sound files)
    (hrun : task.run files reply = some next) (hkept : task.Backed (files.apply next.1)) :
    next.2.Backed (files.apply next.1) := by
  constructor
  · intro id hid
    rcases Task.successor_of_run hrun hid with hold | ⟨rfl, hnothing, row, hrow⟩
    · exact hkept.successor id hold
    · rw [hnothing]
      exact ⟨row, hrow, hbacked.promised id row rfl hrow⟩
  · intro id row hid hrow
    rcases Task.promised_of_run hsound hrun hid with hold | ⟨hholds, hwrite⟩
    · exact hkept.promised id row hold hrow
    · rcases hwrite with hwrite | hwrite
      · rw [hwrite] at hrow
        have hlocal : (files.update id (·.setLocal .ok)).Holds id
            Row.Available := hholds.write fun found hfound =>
          ⟨hfound.1, Or.inl rfl⟩
        exact hlocal.row hrow
      · rw [hwrite] at hrow
        have honline : (files.update id (·.setOnline .ok)).Holds id
            Row.Available := hholds.write fun found hfound =>
          ⟨hfound.1, Or.inr (Or.inr rfl)⟩
        exact honline.row hrow

/-! ## Runs -/

structure Backing (state : State Id Origin) : Prop where
  sound : Sound state
  tasks : ∀ task ∈ state.tasks, task.Backed state.files

theorem Backing.task_apply {turn : State.Turn Id Origin}
    (hbacking : Backing state) (hguard : KeepingStep state action)
    (hturn : state.turn action = some turn) (hlawful : turn.effect.Lawful state.files)
    (htask : task ∈ state.tasks) : task.Backed (state.files.apply turn.effect) := by
  have hreplaces : ∀ id, task.successor = some id → state.replaces id = true := fun id hid =>
    List.any_eq_true.mpr ⟨task, htask, decide_eq_true hid⟩
  refine (hbacking.tasks task htask).apply (hbacking.sound.tasks task htask) hlawful ?_ ?_
  · intro id hid
    have hfavours : state.favours id = true := by
      rcases hid with hid | hid
      · simp [State.favours, hreplaces id hid]
      · have hany : state.tasks.any
            (fun task => decide (task.promised = some id)) = true :=
          List.any_eq_true.mpr ⟨task, htask, decide_eq_true hid⟩
        simp [State.favours, hany]
    simpa [hturn] using hguard.keeps id hfavours
  · intro id hid
    simpa [hturn] using hguard.spares id (hreplaces id hid)

theorem Backing.step (hbacking : Backing state) (hguard : KeepingStep state action)
    (hstep : state.step action = some after) : Backing after := by
  refine ⟨hbacking.sound.step hguard.kept hstep, ?_⟩
  obtain ⟨turn, hturn, rfl⟩ := Option.map_eq_some_iff.mp hstep
  have hlawful := hbacking.sound.lawful hguard.kept hturn
  cases State.turn_cases hguard.kept hturn with
  | restart linked =>
    intro task hnone
    cases hnone
  | advance htask hrun =>
    have heffect := (hlawful (fun _ hrestart => by cases hrestart)).effect
    have hmem := List.mem_of_getElem? htask
    intro task hfound
    rcases List.mem_or_eq_of_mem_set hfound with hold | rfl
    · exact hbacking.task_apply hguard hturn heffect hold
    · exact (hbacking.tasks _ hmem).run (hbacking.sound.tasks _ hmem) hrun
        (hbacking.task_apply hguard hturn heffect hmem)
  | @settle loser winner row hrow hready =>
    intro task hfound
    rcases List.mem_append.mp hfound with hold | hnew
    · exact hbacking.tasks task hold
    · cases List.mem_singleton.mp hnew
      refine ⟨?_, fun _ _ hnone => by cases hnone⟩
      intro id hid
      cases hid
      have hsettles := hguard.settles
      simp only [State.settles, hrow, Option.all_some, decide_eq_true_eq] at hsettles
      exact ⟨row, hrow, Row.available_of_ready hready hsettles⟩
  | opens effect task sync houtside hopening =>
    have heffect := (hlawful (State.ne_restart hturn houtside)).effect
    intro found hfound
    rcases List.mem_append.mp hfound with hold | hnew
    · exact hbacking.task_apply hguard hturn heffect hold
    · cases List.mem_singleton.mp hnew
      exact hopening.backed
  | writes effect sync houtside =>
    have heffect := (hlawful (State.ne_restart hturn houtside)).effect
    intro found hfound
    exact hbacking.task_apply hguard hturn heffect hfound

/-- In every run whose steps all meet the condition, the row in whose favour a
superseded row is removed is available all through the removal. -/
theorem superseded_rows_have_safe_successors (state : State Id Origin)
    (hreach : Reaches State.step KeepingStep { files := {} } state)
    (loser winner : Id) (stage : RemoveStage Origin)
    (htask : .remove loser (some winner) stage ∈ state.tasks) :
    ∃ row, state.files.rows winner = some row ∧ row.Available := by
  have hbacking : Backing state := by
    refine hreach.invariant ?_ fun _ _ _ hinv hguard hstep =>
      hinv.step hguard hstep
    exact ⟨Sound.new, fun _ hnone => by cases hnone⟩
  exact (hbacking.tasks _ htask).successor winner rfl

end Steps

/-! ## Two runs -/

def keepingCheck (state : State Bool Unit) (action : Action Bool Unit) : Bool :=
  !action.loses && state.settles action &&
    decide (∀ id, state.favours id = true → (state.turn action).all
        (fun turn => turn.effect.keeps id) = true) &&
    decide (∀ id, state.replaces id = true →
      (state.turn action).all (fun turn => turn.effect.spares id) = true)

theorem keepingStep_of_check {state : State Bool Unit}
    {action : Action Bool Unit} (hcheck : keepingCheck state action = true) :
    KeepingStep state action := by
  simp only [keepingCheck, Bool.and_eq_true, decide_eq_true_eq, Bool.not_eq_true'] at hcheck
  exact ⟨hcheck.1.1.1, hcheck.1.1.2, hcheck.1.2, hcheck.2⟩

/-- A file is kept on the local node; then its edit is, and the edit has queued
the deletions of the first version. -/
theorem superseded_rows_have_safe_successors_after_edit : ∃ state : State Bool Unit,
      Reaches State.step KeepingStep { files := {} } state ∧
      .remove false (some true) .listing ∈ state.tasks ∧
      ∃ row, state.files.rows true = some row ∧ row.Available := by
  have hrun : (checkedRun State.step keepingCheck { files := {} }
      (.queueNewFile false none :: proceed 0 13 ++
        .queueNewFile true (some false) :: proceed 1 17)).any
        (fun state => decide (.remove false (some true) .listing ∈ state.tasks)) = true := by
    decide
  obtain ⟨state, hreach, htest⟩ := exists_reaches_of_check keepingStep_of_check hrun
  have htask := of_decide_eq_true htest
  exact ⟨state, hreach, htask,
    superseded_rows_have_safe_successors state hreach false true .listing htask⟩

/-- An adopted entry is not copied here and a check then finds its online copy
gone, so it has no copy on record.  A duplicate that this computer keeps is
still removed in its favour: the deletion of its copy is queued and its key is
dropped. -/
theorem duplicate_removed_for_missing_winner :
    ∃ (state : State Bool Unit) (loser winner : Bool) (row : Row Bool),
      Reaches State.step everyStep { files := {} } state ∧
      .remove loser (some winner) .deleteRow ∈ state.tasks ∧
      state.files.deletes .localNode loser = true ∧
      state.files.keys loser = false ∧
      state.files.rows winner = some row ∧ ¬ row.Available := by
  have hrun : (runActions State.step ({ files := {} } : State Bool Unit)
      (.setOnlineNode (some ()) :: .queueNewFile false none :: proceed 0 12 ++
        .adopt true :: List.replicate 3 (.syncStep none .ok) ++
        List.replicate 3 (.advance 1 .failed) ++
        .checkOnline true :: .advance 2 .failed ::
        .settle false true :: proceed 3 7)).any
        (fun state => decide (.remove false (some true) .deleteRow ∈ state.tasks ∧
          state.files.deletes .localNode false = true ∧
          state.files.keys false = false ∧
          state.files.rows true = some
            { hasEnvelope := true, localState := .missing, online := .missing })) = true := by
    decide
  obtain ⟨state, hreach, htest⟩ := exists_reaches_of_runActions hrun
  obtain ⟨htask, hqueued, hkey, hrow⟩ := of_decide_eq_true htest
  exact ⟨state, false, true, _, hreach, htask, hqueued, hkey, hrow, by decide⟩

end FileCopies
end Wildbloom
