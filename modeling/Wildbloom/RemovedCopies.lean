import Wildbloom.FileCopiesSoundness

/-!
# A removal reaches every copy

`remove_row` queues a deletion for the local node and for every online node on
record, and then deletes the row.  An upload records its copy only after the
node has answered, so a copy that lands after the deletions were queued, or that
was never recorded, is left behind.  Only the copy of an adoption looks for its
row again.
-/

namespace Wildbloom
namespace FileCopies

open Runs

variable {Id Origin : Type}

def Files.Gone (files : Files Id Origin) (id : Id) : Prop :=
  files.rows id = none ∧ files.removed id = true

def Files.Covers (files : Files Id Origin) (node : Node Origin) (id : Id) : Prop :=
  files.blobs node id = true → files.deletes node id = true

namespace Task

def file : Task Id Origin → Option Id
  | .encrypt id _ => some id
  | .uploadOnline id => some id
  | .copyBack id => some id
  | .copy id _ _ => some id
  | .recorded id _ => some id
  | .adoptedRow id _ => some id
  | .adoptedGone id => some id
  | .remove id _ _ => some id
  | _ => none

def Sweeping (id : Id) : Task Id Origin → Prop
  | .remove other _ .listing => other = id
  | .remove other _ (.queueOnline _) => other = id
  | .remove other _ .tombstone => other = id
  | .remove other _ .dropKey => other = id
  | .remove other _ .deleteRow => other = id
  | _ => False

/-- An adopted copy that has landed and that the task will queue for deletion
if the row is gone. -/
def Landing (id : Id) : Task Id Origin → Prop
  | .copy other .adopted .landed => other = id
  | .copy other .adopted (.answered .ok) => other = id
  | .adoptedGone other => other = id
  | _ => False

def Swept (files : Files Id Origin) : Task Id Origin → Prop
  | .remove id _ .listing => files.Covers .localNode id
  | .remove id _ (.queueOnline rest) => ∀ node, files.Covers node id ∨
      ∃ origin ∈ rest, node = .onlineNode origin
  | .remove id _ .tombstone => ∀ node, files.Covers node id
  | .remove id _ .dropKey => ∀ node, files.Covers node id
  | .remove id _ .deleteRow => ∀ node, files.Covers node id
  | _ => True

end Task

/-! ## The condition -/

/-- The condition on a step of a task.  No upload lands on a file that is being
removed, or was removed, but for the copy of an adoption after the removal; none
lands where a deletion was answered and is still queued.  When a removal takes
the file to have no envelope, no copy is left unqueued, and when it reads the
record of online copies every online copy is on it.  The answer to an adopted
copy that landed after the removal is not lost. -/
def Task.Timely (state : State Id Origin) (reply : Reply) : Task Id Origin → Prop
  | .copy id purpose .sending => reply = .ok →
      .delete purpose.node id .answered ∉ state.tasks ∧
      (∀ task ∈ state.tasks, ¬ task.Sweeping id) ∧
      (state.files.Gone id → purpose = .adopted)
  | .copy id .adopted .landed => reply ≠ .ok →
      state.files.Gone id → state.files.Covers .localNode id
  | .remove id _ (.queueing false) => ∀ node, state.files.Covers node id
  | .remove id _ .listing =>
    ∀ origin, origin ∈ state.files.onlineCopies id ∨ state.files.Covers (.onlineNode origin) id
  | _ => True

/-- The condition on a step.  No write is lost, and a restart loses no adopted
copy that landed after its file was removed. -/
def TimelyStep (state : State Id Origin) : Action Id Origin → Prop
  | .advance number reply => ∀ task, state.tasks[number]? = some task → task.Timely state reply
  | .restart _ =>
    ∀ id, state.files.Gone id → state.files.Covers .localNode id
  | .lose _ _ => False
  | _ => True

section Steps

variable [DecidableEq Id] [DecidableEq Origin]

variable {files : Files Id Origin} {id : Id} {node : Node Origin} {effect : Effect Id Origin}
  {task : Task Id Origin} {reply : Reply} {next : Effect Id Origin × Task Id Origin}
  {state after : State Id Origin} {action : Action Id Origin} {later : Files Id Origin}

/-! ## Effects -/

/-- A copy stays covered unless another one lands, or its deletion is taken off
the queue while the copy is there. -/
theorem Files.Covers.apply (hcovers : files.Covers node id) (hupload : effect ≠ .upload node id)
    (hfinish : effect = .finishDelete node id → files.blobs node id = false) :
    (files.apply effect).Covers node id := by
  intro hblob
  have hold : files.blobs node id = true :=
    (Files.blobs_of_apply hblob).resolve_right hupload
  have hqueued := hcovers hold
  cases effect with
  | queueDelete other found =>
    simp only [Files.apply, Files.deletes_setDelete]
    split
    · rfl
    · exact hqueued
  | finishDelete other found =>
    simp only [Files.apply, Files.deletes_setDelete]
    split
    next hsame =>
      rw [hfinish (by rw [hsame.1, hsame.2])] at hold
      cases hold
    · exact hqueued
  | _ => exact hqueued

theorem Files.covers_queueDelete (files : Files Id Origin) (node : Node Origin) (id : Id) :
    (files.apply (.queueDelete node id)).Covers node id := by
  intro _
  simp [Files.apply, Files.deletes_setDelete]

theorem Files.gone_of_apply (hlawful : effect.Lawful files) (hgone : (files.apply effect).Gone id) :
    files.Gone id ∨ effect = .deleteFile id := by
  obtain ⟨hnone, hremoved⟩ := hgone
  have hupdate : ∀ (other : Id) (write : Row Id → Row Id),
      (files.update other write).rows id = none → files.rows id = none := by
    intro other write hrow
    by_cases hid : id = other
    · subst hid
      simpa [Files.update] using hrow
    · simpa [Files.update, Function.update_of_ne hid] using hrow
  cases effect with
  | insertFile other row =>
    have hid : id ≠ other := by
      rintro rfl
      simp [Files.apply] at hnone
    simp only [Files.apply, Function.update_of_ne hid] at hnone
    exact Or.inl ⟨hnone, hremoved⟩
  | setEnvelope other | setLocal other state | setOnline other state =>
    exact Or.inl ⟨hupdate other _ hnone, hremoved⟩
  | addTombstone other =>
    by_cases hid : id = other
    · subst hid
      rcases hlawful with ⟨row, hrow, _⟩ | hold
      · have hthere : files.rows id = none := hnone
        rw [hrow] at hthere
        cases hthere
      · exact Or.inl hold
    · simp only [Files.apply, Function.update_of_ne hid] at hremoved
      exact Or.inl ⟨hnone, hremoved⟩
  | deleteFile other =>
    by_cases hid : id = other
    · exact Or.inr (by rw [hid])
    · simp only [Files.apply, Function.update_of_ne hid] at hnone
      exact Or.inl ⟨hnone, hremoved⟩
  | start _ => exact hlawful.elim
  | _ => exact Or.inl ⟨hnone, hremoved⟩

/-! ## Tasks -/

omit [DecidableEq Id] [DecidableEq Origin] in
theorem Task.Opening.swept (hopening : task.Opening) : task.Swept files := by
  cases hopening with
  | _ => trivial

omit [DecidableEq Id] [DecidableEq Origin] in
/-- What a removal has queued stays queued while nothing lands on its file. -/
theorem Task.Swept.mono (hswept : task.Swept files)
    (hkeep : ∀ node id, task.Sweeping id → files.Covers node id → later.Covers node id) :
    task.Swept later := by
  cases task with
  | remove id successor stage =>
    cases stage with
    | listing => exact hkeep _ _ rfl hswept
    | queueOnline rest =>
      intro node
      exact (hswept node).imp_left (hkeep node id rfl)
    | tombstone | dropKey | deleteRow => exact fun node => hkeep node id rfl (hswept node)
    | _ => trivial
  | _ => trivial

omit [DecidableEq Id] [DecidableEq Origin] in
/-- Only a removal goes on to a step of a removal after the first. -/
theorem Task.swept_of_run (hrun : task.run files reply = some next)
    (hremove : ∀ id successor stage, task ≠ .remove id successor stage) : next.2.Swept later := by
  cases task with
  | encrypt id stage =>
    cases hrun
    cases stage with
    | _ => grind [encryptStep, Task.Swept]
  | copy id purpose stage =>
    cases purpose with
    | _ => cases stage with
      | _ => grind [Task.run, copyStep, answerStep, Purpose.unread, Task.Swept]
  | remove id successor stage => exact absurd rfl (hremove id successor stage)
  | delete node id stage =>
    obtain ⟨-, htask⟩ := deleteStep_next hrun
    grind [Task.Swept]
  | recorded id purpose =>
    cases purpose with
    | _ => grind [Task.run, Task.Swept]
  | _ => grind [Task.run, Task.Swept]

theorem removeStep_swept {successor : Option Id} {stage : RemoveStage Origin}
    (hswept : (Task.remove id successor stage).Swept state.files)
    (htimely : (Task.remove id successor stage).Timely state reply)
    (hkeep : ∀ node, state.files.Covers node id → (state.files.apply
        (removeStep state.files id successor reply stage).1).Covers node id) :
    (removeStep state.files id successor reply stage).2.Swept (state.files.apply
        (removeStep state.files id successor reply stage).1) := by
  cases stage with
  | reading | rereading =>
    simp only [removeStep]
    split
    · trivial
    · split <;> trivial
  | flagging hasEnvelope => trivial
  | queueing hasEnvelope =>
    cases hasEnvelope with
    | true =>
      simp only [removeStep, if_true]
      split
      · exact Files.covers_queueDelete _ _ _
      · trivial
    | false => exact htimely
  | listing =>
    simp only [removeStep]
    split
    · intro node
      cases node with
      | localNode => exact Or.inl hswept
      | onlineNode origin =>
        rcases htimely origin with hrecorded | hcovers
        · exact Or.inr ⟨origin, hrecorded, rfl⟩
        · exact Or.inl hcovers
    · trivial
  | queueOnline rest =>
    cases rest with
    | nil =>
      intro node
      rcases hswept node with hcovers | ⟨origin, hnone, _⟩
      · exact hcovers
      · cases hnone
    | cons origin rest =>
      simp only [removeStep] at hkeep ⊢
      split
      next hreply =>
        rw [if_pos hreply] at hkeep
        intro node
        by_cases hnode : node = .onlineNode origin
        · subst hnode
          exact Or.inl (Files.covers_queueDelete _ _ _)
        · rcases hswept node with hcovers | ⟨found, hfound, hsame⟩
          · exact Or.inl (hkeep node hcovers)
          · refine Or.inr ⟨found, ?_, hsame⟩
            rcases List.mem_cons.mp hfound with heq | hrest
            · rw [heq] at hsame
              exact absurd hsame hnode
            · exact hrest
      · trivial
  | tombstone | dropKey =>
    simp only [removeStep] at hkeep ⊢
    split
    next hreply =>
      rw [if_pos hreply] at hkeep
      exact fun node => hkeep node (hswept node)
    · trivial
  | deleteRow =>
    simp only [removeStep]
    split
    · trivial
    · trivial

theorem Task.landing_of_run (hlanding : task.Landing id)
    (hgone : files.Gone id) (hrun : task.run files reply = some next)
    (hcovers : task = .copy id .adopted .landed → reply ≠ .ok → files.Covers .localNode id) :
    next.2.Landing id ∨ (files.apply next.1).Covers .localNode id := by
  cases task with
  | copy other purpose stage =>
    cases purpose with
    | adopted =>
      cases stage with
      | landed =>
        cases hlanding
        cases hrun
        by_cases hreply : reply = .ok
        · subst hreply
          exact Or.inl rfl
        · exact Or.inr (hcovers rfl hreply)
      | answered answer =>
        cases answer with
        | ok =>
          cases hlanding
          simp only [Task.run, copyStep, answerStep, Files.readRow, hgone.1, ite_self,
            if_true] at hrun
          cases hrun
          exact Or.inl rfl
        | _ => exact hlanding.elim
      | _ => exact hlanding.elim
    | _ => exact hlanding.elim
  | adoptedGone other =>
    cases hlanding
    cases hrun
    exact Or.inr (Files.covers_queueDelete _ _ _)
  | _ => exact hlanding.elim

/-! ## Runs -/

/-- What the tasks and the queue keep of the files that are being removed or
were removed. -/
structure Reaching (state : State Id Origin) : Prop where
  sound : Sound state
  answered : ∀ node id, .delete node id .answered ∈ state.tasks → state.files.blobs node id = false
  swept : ∀ task ∈ state.tasks, task.Swept state.files
  gone : ∀ id, state.files.Gone id → ∀ node, state.files.Covers node id ∨ node = .localNode ∧
      ∃ (number : ℕ) (task : Task Id Origin), state.tasks[number]? = some task ∧ task.Landing id

/-- An effect that lands nothing and takes nothing off the queue keeps what was
covered. -/
theorem Files.Covers.outside (hcovers : files.Covers node id)
    (houtside : effect.Outside) : (files.apply effect).Covers node id := by
  apply hcovers.apply
  · rintro rfl
    exact houtside
  · rintro rfl
    exact houtside.elim

theorem Reaching.outside {turn : State.Turn Id Origin} (hreaching : Reaching state) (hsound : Sound
      { files := state.files.apply turn.effect, tasks := turn.tasks, sync := turn.sync })
    (hlawful : turn.effect.Lawful state.files) (houtside : turn.effect.Outside)
    (htasks : turn.tasks = state.tasks ∨ ∃ task, turn.tasks = state.tasks ++ [task] ∧
        (∀ node id, task ≠ .delete node id .answered) ∧
        task.Swept (state.files.apply turn.effect)) :
    Reaching
      { files := state.files.apply turn.effect, tasks := turn.tasks, sync := turn.sync } := by
  have hmem : ∀ task ∈ turn.tasks, task ∈ state.tasks ∨
      (∀ node id, task ≠ .delete node id .answered) ∧
        task.Swept (state.files.apply turn.effect) := by
    intro task htask
    rcases htasks with hsame | ⟨opened, hopened, hnew⟩
    · exact Or.inl (hsame ▸ htask)
    · rw [hopened] at htask
      rcases List.mem_append.mp htask with hold | hlast
      · exact Or.inl hold
      · cases List.mem_singleton.mp hlast
        exact Or.inr hnew
  refine ⟨hsound, ?_, ?_, ?_⟩
  · intro node id htask
    rcases hmem _ htask with hold | hnew
    · have hnone := hreaching.answered node id hold
      cases hblob : (state.files.apply turn.effect).blobs node id with
      | false => rfl
      | true =>
        rcases Files.blobs_of_apply hblob with hthere | hupload
        · rw [hnone] at hthere
          cases hthere
        · rw [hupload] at houtside
          exact houtside.elim
    · exact absurd rfl (hnew.1 node id)
  · intro task htask
    rcases hmem task htask with hold | hnew
    · exact (hreaching.swept task hold).mono fun node id _ hcovers =>
        hcovers.outside houtside
    · exact hnew.2
  · intro id hgone node
    rcases Files.gone_of_apply hlawful hgone with hold | hdelete
    · rcases hreaching.gone id hold node with hcovers | ⟨hnode, number, task, htask, hlanding⟩
      · exact Or.inl (hcovers.outside houtside)
      · refine Or.inr ⟨hnode, number, task, ?_, hlanding⟩
        rcases htasks with hsame | ⟨opened, hopened, _⟩
        · rw [hsame]
          exact htask
        · rw [hopened]
          rw [List.getElem?_append_left (List.getElem?_eq_some_iff.mp htask).1]
          exact htask
    · rw [hdelete] at houtside
      exact houtside.elim

/-- A step of a task keeps what was covered, where nothing lands. -/
theorem Reaching.covers_apply (hreaching : Reaching state) (htask : task ∈ state.tasks)
    (hrun : task.run state.files reply = some next) (hcovers : state.files.Covers node id)
    (hupload : next.1 ≠ .upload node id) : (state.files.apply next.1).Covers node id := by
  refine hcovers.apply hupload fun hfinish => ?_
  rcases Task.run_cases hrun with hplain | hmarked
  · rw [hfinish] at hplain
    exact hplain.elim
  · cases hmarked with
    | finishDelete other found =>
      cases hfinish
      exact hreaching.answered node id htask
    | _ => cases hfinish

omit [DecidableEq Id] [DecidableEq Origin] in
theorem Task.of_upload (hrun : task.run files reply = some next)
    (hupload : next.1 = .upload node id) :
    ∃ purpose, task = .copy id purpose .sending ∧ reply = .ok ∧
      node = purpose.node ∧ next.2 = .copy id purpose .landed := by
  rcases Task.run_cases hrun with hplain | hmarked
  · rw [hupload] at hplain
    exact hplain.elim
  · cases hmarked with
    | upload other purpose hreply =>
      cases hupload
      exact ⟨purpose, rfl, hreply, rfl, rfl⟩
    | _ => cases hupload

theorem Task.blobs_of_answered (hsound : files.Sound) (hrun : task.run files reply = some next)
    (hanswered : next.2 = .delete node id .answered) :
    (files.apply next.1).blobs node id = false := by
  cases task with
  | delete other found stage =>
    cases stage with
    | sending =>
      simp only [Task.run, deleteStep] at hrun
      split at hrun
      · cases hrun
        cases hanswered
        simp [Files.apply, Files.blobs_setBlob]
      · cases hrun
        cases hanswered
      · cases hrun
        cases hanswered
    | refused =>
      simp only [Task.run, deleteStep] at hrun
      split at hrun
      · cases hrun
        cases hanswered
      · split at hrun
        · split at hrun
          next hended =>
            cases hrun
            cases hanswered
            exact hsound.ended _ _ hended
          · cases hrun
        · cases hrun
          cases hanswered
    | answered =>
      cases hrun
      cases hanswered
  | encrypt other stage =>
    cases hrun
    cases stage with
    | _ => grind [encryptStep]
  | copy other purpose stage =>
    cases purpose with
    | _ => cases stage with
      | _ => grind [Task.run, copyStep, answerStep, Purpose.unread]
  | remove other successor stage =>
    cases hrun
    cases stage with
    | queueOnline rest =>
      cases rest with
      | _ => grind [removeStep]
    | _ => grind [removeStep]
  | recorded other purpose =>
    cases purpose with
    | _ => grind [Task.run]
  | _ => grind [Task.run]

theorem Reaching.advance {number : ℕ} (hreaching : Reaching state)
    (htask : state.tasks[number]? = some task) (htimely : task.Timely state reply)
    (hrun : task.run state.files reply = some next) (hsound : Sound { state with
      files := state.files.apply next.1
      tasks := state.tasks.set number next.2 }) :
    Reaching { state with
      files := state.files.apply next.1
      tasks := state.tasks.set number next.2 } := by
  have hmem := List.mem_of_getElem? htask
  have hlawful := ((hreaching.sound.tasks task hmem).run hrun).1
  have hself : (state.tasks.set number next.2)[number]? = some next.2 :=
    List.getElem?_set_self (List.getElem?_eq_some_iff.mp htask).1
  refine ⟨hsound, ?_, ?_, ?_⟩
  · intro node id hanswered
    rcases List.mem_or_eq_of_mem_set hanswered with hold | hnew
    · have hnone := hreaching.answered node id hold
      cases hblob : (state.files.apply next.1).blobs node id with
      | false => rfl
      | true =>
        rcases Files.blobs_of_apply hblob with hthere | hupload
        · rw [hnone] at hthere
          cases hthere
        · obtain ⟨purpose, rfl, hreply, rfl, _⟩ := Task.of_upload hrun hupload
          exact absurd hold (htimely hreply).1
    · exact Task.blobs_of_answered hreaching.sound.files hrun hnew.symm
  · intro found hfound
    rcases List.mem_or_eq_of_mem_set hfound with hold | rfl
    · refine (hreaching.swept found hold).mono fun node id hsweeping hcovers =>
        hreaching.covers_apply hmem hrun hcovers fun hupload => ?_
      obtain ⟨purpose, rfl, hreply, _⟩ := Task.of_upload hrun hupload
      exact (htimely hreply).2.1 found hold hsweeping
    · cases task with
      | remove id successor stage =>
        have hkeep : ∀ node, state.files.Covers node id →
            (state.files.apply next.1).Covers node id := by
          intro node hcovers
          refine hreaching.covers_apply hmem hrun hcovers fun hupload => ?_
          obtain ⟨purpose, hcopy, _⟩ := Task.of_upload hrun hupload
          cases hcopy
        cases hrun
        exact removeStep_swept (hreaching.swept _ hmem) htimely hkeep
      | _ =>
        exact Task.swept_of_run hrun fun _ _ _ hremove => by cases hremove
  · intro id hgone node
    rcases Files.gone_of_apply hlawful hgone with hold | hdelete
    · by_cases hupload : next.1 = .upload node id
      · obtain ⟨purpose, rfl, hreply, hnode, hnext⟩ :=
          Task.of_upload hrun hupload
        obtain rfl := (htimely hreply).2.2 hold
        refine Or.inr ⟨hnode, number, next.2, hself, ?_⟩
        rw [hnext]
        rfl
      · rcases hreaching.gone id hold node with hcovers | ⟨rfl, other, found, hfound, hlanding⟩
        · exact Or.inl (hreaching.covers_apply hmem hrun hcovers hupload)
        · by_cases hsame : number = other
          · subst hsame
            rw [htask] at hfound
            cases hfound
            have hlost : task = .copy id .adopted .landed → reply ≠ .ok →
                state.files.Covers .localNode id := by
              rintro rfl hreply
              exact htimely hreply hold
            rcases Task.landing_of_run hlanding hold hrun hlost with
              hnext | hcovers
            · exact Or.inr ⟨rfl, number, next.2, hself, hnext⟩
            · exact Or.inl hcovers
          · refine Or.inr ⟨rfl, other, found, ?_, hlanding⟩
            rw [List.getElem?_set_ne hsame]
            exact hfound
    · rcases Task.run_cases hrun with hplain | hmarked
      · rw [hdelete] at hplain
        exact hplain.elim
      · cases hmarked with
        | deleteFile other successor =>
          cases hdelete
          have hswept := hreaching.swept _ hmem
          refine Or.inl (hreaching.covers_apply hmem hrun (hswept node) ?_)
          intro hupload
          cases hupload
        | _ => cases hdelete

theorem Reaching.restart (hreaching : Reaching state) (linked : Id → Bool)
    (hcovered : ∀ id, state.files.Gone id → state.files.Covers .localNode id) (hsound : Sound
      { files := state.files.apply (.start linked), tasks := [], sync := none }) :
    Reaching
      { files := state.files.apply (.start linked), tasks := [], sync := none } := by
  refine ⟨hsound, ?_, ?_, ?_⟩
  · intro node id hnone
    cases hnone
  · intro task hnone
    cases hnone
  · intro id hgone node
    refine Or.inl fun hblob => ?_
    -- A file with a copy is kept, so its row is not one that is forgotten.
    rcases hreaching.sound.files.blobs node id hblob with
      ⟨row, hrow, hkept⟩ | hold
    · have hstill := Files.rows_start hrow hkept linked
      rw [hgone.1] at hstill
      cases hstill
    · rcases hreaching.gone id hold node with hcovers | ⟨rfl, _⟩
      · exact hcovers hblob
      · exact hcovered id hold hblob

theorem Reaching.step (hreaching : Reaching state) (hguard : TimelyStep state action)
    (hstep : state.step action = some after) : Reaching after := by
  have hkept : action.loses = false := by
    cases action with
    | lose => exact hguard.elim
    | _ => rfl
  have hsound := hreaching.sound.step hkept hstep
  obtain ⟨turn, hturn, rfl⟩ := Option.map_eq_some_iff.mp hstep
  have hlawful := hreaching.sound.lawful hkept hturn
  cases State.turn_cases hkept hturn with
  | restart linked => exact hreaching.restart linked hguard hsound
  | advance htask hrun =>
    exact hreaching.advance htask (hguard _ htask) hrun hsound
  | settle hrow hready =>
    refine hreaching.outside hsound trivial trivial (Or.inr ⟨_, rfl, ?_, ?_⟩)
    · intro node id hdelete
      cases hdelete
    · trivial
  | opens effect task sync houtside hopening =>
    refine hreaching.outside hsound (hlawful (State.ne_restart hturn houtside)).effect houtside
      (Or.inr ⟨task, rfl, ?_, hopening.swept⟩)
    rintro node id rfl
    cases hopening
  | writes effect sync houtside =>
    exact hreaching.outside hsound (hlawful (State.ne_restart hturn houtside)).effect houtside
      (Or.inl rfl)

end Steps

/-! ## Two runs -/

end FileCopies
end Wildbloom
