import Wildbloom.ShareFlowModel

/-!
# The steps of share flows

`FlowMove` lists what a flow can do, once, with what each step has read; the
invariants of the flows are proved by going through it.  The first of them is
the turn: every flow that has left the queue holds the file's lock, so flows do
not interleave with one another.
-/

namespace Wildbloom
namespace ShareFlows

variable {shares : Shares} {state after : State} {action : Action}
  {number fresh copy stopped : ℕ} {again : Bool} {stage : Stage} {task : Task}
  {record : ShareRecord} {keepRecord : Bool} {next : Then} {reply : Reply}

theorem Shares.record_of_read (hread : shares.readRecord reply = some record) :
    shares.record = some record :=
  (Option.ite_none_left_eq_some.mp hread).2

/-! ## Steps of a deletion -/

def ShareRecord.closed (record : ShareRecord) (now : ℕ) (deleted : Bool) : ShareRecord :=
  if deleted then { record with state := .ended, endedAt := some now }
  else { record with state := .stopPending }

theorem ShareRecord.closed_copy (record : ShareRecord) (now : ℕ)
    (deleted : Bool) : (record.closed now deleted).copy = record.copy := by
  cases deleted with
  | true | false => rfl

variable (shares record keepRecord reply)

inductive DeleteMove : DeleteStage → Effect → Option DeleteStage → Prop
  | deleted (hreply : reply = .ok)
      (hdeletable : shares.deletable record.copy = true) :
      DeleteMove .asking (.delete record.copy) (some (.writing true))
  | failed : DeleteMove .asking .nothing (some .queueing)
  | queue : DeleteMove .queueing (.queueDelete record.copy 0) (some (.writing false))
  | put (deleted : Bool) (hkeep : keepRecord = true) :
      DeleteMove (.writing deleted) (.putShare (record.closed shares.now deleted)) none
  | remove (deleted : Bool) (hkeep : keepRecord = false) :
      DeleteMove (.writing deleted) .deleteShare none

variable {shares record keepRecord reply}

theorem deleteShareCopy_cases {stage : DeleteStage} {next : Effect × Option DeleteStage}
    (hstep : deleteShareCopy shares record keepRecord reply stage = some next) :
    DeleteMove shares record keepRecord reply stage next.1 next.2 := by
  cases stage with
  | writing deleted =>
    cases keepRecord with
    | true => cases deleted <;> cases hstep <;> exact .put _ rfl
    | false =>
      cases hstep
      exact .remove deleted rfl
  | _ =>
    simp only [deleteShareCopy] at hstep
    repeat' split at hstep
    all_goals cases hstep
    all_goals constructor <;> assumption

/-! ## Steps of a flow -/

/-- A replaced copy is queued for deletion, unless there is none, or it is the
new one, or it is not to be deleted any more. -/
theorem replaceEffect_cases (previous : Option ShareRecord) (copy : ℕ) :
    replaceEffect previous copy = .nothing ∧
      (∀ old, previous = some old → old.state.live = true → old.copy = copy) ∨
    ∃ old notBefore, previous = some old ∧
      replaceEffect previous copy = .queueDelete old.copy notBefore := by
  cases previous with
  | none => exact Or.inl ⟨rfl, fun _ hnone => by cases hnone⟩
  | some old =>
    by_cases hlive : old.copy ≠ copy ∧ old.state.live
    · exact Or.inr ⟨old, _, rfl, if_pos hlive⟩
    · refine Or.inl ⟨if_neg hlive, ?_⟩
      rintro _ ⟨⟩ hold
      by_contra hne
      exact hlive ⟨hne, hold⟩

def Stage.Fails (reply : Reply) : Stage → Prop
  | .reading => ¬(reply = .ok ∨ reply = .lost)
  | .making _ => reply ≠ .ok
  | .opening _ _ => reply ≠ .ok
  | .pairing _ => reply ≠ .ok
  | .sending _ _ _ => reply ≠ .ok ∧ reply ≠ .lost
  | .awaitingReceipt _ _ _ => reply ≠ .ok
  | .awaitingReply _ _ => reply ≠ .ok
  | .downloaded _ _ => True
  | .recordDownload _ _ => reply ≠ .ok
  | _ => False

variable (shares number reply)

inductive FlowMove : Stage → Effect → Option Stage → Prop
  | take (hturn : shares.turn = none) : FlowMove .waiting (.takeTurn number) (some .reading)
  | readAgain : FlowMove .reading .nothing (some (.reusing (shares.readRecord reply)))
  | readFresh : FlowMove .reading .nothing (some (.making (shares.readRecord reply)))
  | fail (stage : Stage) (hfails : stage.Fails reply) : FlowMove stage .nothing (some .closing)
  | notReusable (previous : Option ShareRecord) :
      FlowMove (.reusing previous) .nothing (some (.making previous))
  | reusable (previous : Option ShareRecord) (record : ShareRecord)
      (hrecord : shares.record = some record) (hopen : record.state = .opened) :
      FlowMove (.reusing previous) .nothing (some (.heading previous record.copy))
  | notFound (previous : Option ShareRecord) (copy : ℕ) :
      FlowMove (.heading previous copy) .nothing (some (.making previous))
  | found (previous : Option ShareRecord) (copy : ℕ) :
      FlowMove (.heading previous copy) .nothing (some (.clearing copy))
  | make (previous : Option ShareRecord) :
      FlowMove (.making previous) .make (some (.keying previous shares.made))
  | key (previous : Option ShareRecord) (copy : ℕ) :
      FlowMove (.keying previous copy) (.setSlot number (some copy)) (some (.opening previous copy))
  | send (previous : Option ShareRecord) (copy : ℕ) :
      FlowMove (.opening previous copy) (.send copy) (some (.uploading previous copy))
  | answered (previous : Option ShareRecord) (copy : ℕ)
      (hblob : shares.blobs copy = true) :
      FlowMove (.uploading previous copy) (.answer copy) (some (.replacing previous copy))
  | notAnswered (previous : Option ShareRecord) (copy : ℕ)
      (hreply : reply ≠ .ok) : FlowMove (.uploading previous copy) .nothing (some .notUploaded)
  | forget : FlowMove .notUploaded (.setSlot number none) (some .closing)
  | keep (previous : Option ShareRecord) (copy : ℕ)
      (hkept : ∀ old, previous = some old → old.state.live = true → old.copy = copy) :
      FlowMove (.replacing previous copy) .nothing (some (.recording copy))
  | replace (old : ShareRecord) (copy notBefore : ℕ) :
      FlowMove (.replacing (some old) copy)
        (.queueDelete old.copy notBefore) (some (.recording copy))
  | record (copy : ℕ) :
      FlowMove (.recording copy)
        (.putShare { copy := copy, state := .opened }) (some (.clearing copy))
  | clear (copy : ℕ) : FlowMove (.clearing copy) (.setSlot number none) (some (.pairing copy))
  | pair (copy deleteAt : ℕ) (keep : Bool) :
      FlowMove (.pairing copy) .nothing (some (.sending copy deleteAt keep))
  | tell (copy deleteAt : ℕ) (keep : Bool) :
      FlowMove (.sending copy deleteAt keep)
        (.tell copy deleteAt) (some (.awaitingReceipt copy deleteAt keep))
  | tellUnanswered (copy deleteAt : ℕ) (keep : Bool) (hreply : reply = .lost) :
      FlowMove (.sending copy deleteAt keep) (.tell copy deleteAt) (some .closing)
  | receipt (copy deleteAt : ℕ) (keep : Bool) :
      FlowMove (.awaitingReceipt copy deleteAt keep)
        .nothing (some (.recordSent copy deleteAt keep))
  | sent (copy deleteAt : ℕ) (keep : Bool) :
      FlowMove (.recordSent copy deleteAt keep)
        (.putShare { copy := copy, state := .sent, deleteAt := some deleteAt })
        (some (.awaitingReply copy keep))
  | replied (copy : ℕ) (keep : Bool) :
      FlowMove (.awaitingReply copy keep) .nothing (some (.downloaded copy keep))
  | download (keep : Bool) (record : ShareRecord)
      (hrecord : shares.record = some record) (hsent : record.state = .sent) :
      FlowMove (.downloaded record.copy keep) .nothing (some (.recordDownload record keep))
  | keepCopy (record : ShareRecord) :
      FlowMove (.recordDownload record true) (.putShare record) (some .closing)
  | deleteCopy (record : ShareRecord) :
      FlowMove (.recordDownload record false) (.putShare record) (some (.deleting record .asking))
  | deletes (record : ShareRecord) {stage : DeleteStage} {effect : Effect}
      {next : Option DeleteStage} (hmove : DeleteMove shares record true reply stage effect next) :
      FlowMove (.deleting record stage) effect (some (next.elim .closing (.deleting record)))
  | close : FlowMove .closing (.giveTurn number) none

variable {shares number reply}

def Task.ofFlow (again : Bool) (stage : Option Stage) : Task :=
  stage.elim .done (.flow again)

theorem flowStep_cases {next : Effect × Task}
    (hstep : flowStep shares number again reply stage = some next) :
    ∃ stage', next.2 = Task.ofFlow again stage' ∧
      FlowMove shares number reply stage next.1 stage' := by
  cases stage with
  | reusing previous =>
    simp only [flowStep] at hstep
    split at hstep
    · cases hstep
      exact ⟨some _, rfl, .notReusable previous⟩
    next record hrecord =>
      split at hstep
      next hopen =>
        cases hstep
        exact ⟨some _, rfl, .reusable previous record hrecord hopen.1⟩
      · cases hstep
        exact ⟨some _, rfl, .notReusable previous⟩
  | replacing previous copy =>
    cases hstep
    rcases replaceEffect_cases previous copy with ⟨heffect, hkept⟩ | ⟨old, notBefore, rfl, heffect⟩
    · rw [heffect]
      exact ⟨some _, rfl, .keep previous copy hkept⟩
    · rw [heffect]
      exact ⟨some _, rfl, .replace old copy notBefore⟩
  | sending copy deleteAt keep =>
    simp only [flowStep] at hstep
    split at hstep
    · cases hstep
      exact ⟨some _, rfl, .tell copy deleteAt keep⟩
    next hok =>
      split at hstep
      next hlost =>
        cases hstep
        exact ⟨some _, rfl, .tellUnanswered copy deleteAt keep hlost⟩
      next hlost =>
        cases hstep
        exact ⟨some _, rfl, .fail _ ⟨hok, hlost⟩⟩
  | downloaded copy keep =>
    simp only [flowStep] at hstep
    split at hstep
    · cases hstep
      exact ⟨some _, rfl, .fail _ trivial⟩
    next record hrecord =>
      split at hstep
      next hsame =>
        obtain ⟨rfl, hsent⟩ := hsame
        cases hstep
        exact ⟨some _, rfl, .download keep record (Shares.record_of_read hrecord) hsent⟩
      · cases hstep
        exact ⟨some _, rfl, .fail _ trivial⟩
  | recordDownload record keep =>
    cases keep <;> simp only [flowStep] at hstep <;> split at hstep <;> cases hstep <;>
      exact ⟨some _, rfl, by constructor <;> assumption⟩
  | deleting record stage =>
    obtain ⟨next, hnext, rfl⟩ := Option.map_eq_some_iff.mp hstep
    exact ⟨some _, rfl, .deletes record (deleteShareCopy_cases hnext)⟩
  | closing =>
    cases hstep
    exact ⟨none, rfl, .close⟩
  | _ =>
    -- one constructor for each branch, with the tests on it as its premises
    simp only [flowStep] at hstep
    repeat' split at hstep
    all_goals cases hstep
    all_goals exact ⟨some _, rfl, by constructor <;> assumption⟩

/-! ## Steps of the other tasks -/

variable (shares fresh copy stopped next reply)

inductive CleanMove : CleanStage → Effect → Task → Prop
  | relay : CleanMove .relay .nothing (.cleaning stopped .slot next)
  | free (hslot : shares.slots stopped = none) : CleanMove .slot .nothing (.reading next)
  | taken (copy : ℕ) (hslot : shares.slots stopped = some copy) :
      CleanMove .slot (.setSlot stopped none) (.cleaning stopped (.deleting copy) next)
  | deleted (copy : ℕ) (hreply : reply = .ok)
      (hdeletable : shares.deletable copy = true) :
      CleanMove (.deleting copy) (.delete copy) (.reading next)
  | failed (copy : ℕ) :
      CleanMove (.deleting copy) .nothing (.cleaning stopped (.queueing copy) next)
  | queue (copy : ℕ) : CleanMove (.queueing copy) (.queueDelete copy 0) (.reading next)

inductive RunMove : RunStage → Effect → Task → Prop
  | deleted (hreply : reply = .ok)
      (hdeletable : shares.deletable copy = true) :
      RunMove .sending (.delete copy) (.runDelete copy (.finishing false))
  | refused : RunMove .sending .nothing (.runDelete copy .refused)
  | ended (hmoved : shares.moved copy = true) :
      RunMove .refused .nothing (.runDelete copy (.finishing true))
  | finish : RunMove (.finishing false) (.finishDelete copy) .done
  | giveUp : RunMove (.finishing true) (.finishDelete copy) (.runDelete copy .marking)
  | mark (record : ShareRecord) (hrecord : shares.record = some record)
      (hcopy : record.copy = copy) :
      RunMove .marking .nothing (.putOwnerOnly
        { record with state := .ownerOnly, endedAt := some shares.now })
  | stop (stage : RunStage) (hstage : ∀ ended, stage ≠ .finishing ended) :
      RunMove stage .nothing .done

/-- What a task that is no flow does: its effect, the task it goes on as, and
the tasks it spawns. -/
inductive TaskMove : Task → Effect → Task → List Task → Prop
  | startFirst (again : Bool) : TaskMove (.starting again) .nothing (.launching again) []
  | startOver (again : Bool) (current : ℕ)
      (hsession : shares.session = some current) :
      TaskMove (.starting again) (.abort current)
        (.launching again) [.cleaning current .relay .nothing]
  | launch (again : Bool) : TaskMove (.launching again) (.launch fresh) .done [.flow again .waiting]
  | stopNone (next : Then) : TaskMove (.stopping next) .nothing (.reading next) []
  | stop (next : Then) (current : ℕ)
      (hsession : shares.session = some current) :
      TaskMove (.stopping next) (.abort current) (.cleaning current .relay next) []
  | clean {stopped : ℕ} {next : Then} {stage : CleanStage} {effect : Effect}
      {task : Task} (hmove : CleanMove shares stopped next reply stage effect task) :
      TaskMove (.cleaning stopped stage next) effect task []
  | read (next : Then) : TaskMove (.reading next) .nothing (readStep shares.record next) []
  | deleteCopy {record : ShareRecord} {keepRecord : Bool}
      {stage : DeleteStage} {effect : Effect} {next : Option DeleteStage}
      (hmove : DeleteMove shares record keepRecord reply stage effect next) :
      TaskMove (.deleteCopy record keepRecord stage) effect
        (next.elim .done (.deleteCopy record keepRecord)) []
  | removeQueue (record : ShareRecord) :
      TaskMove (.removeQueue record) (.queueDelete record.copy 0) .deleteFile []
  | removeFailed (record : ShareRecord) : TaskMove (.removeQueue record) .nothing .done []
  | deleteFile (hreply : reply = .ok) : TaskMove .deleteFile .deleteShare .done []
  | deleteFileFailed : TaskMove .deleteFile .nothing .done []
  | sweep :
      TaskMove .sweeping .nothing
        (.sweepRead shares.now fun copy =>
          decide (reply ≠ .lost) && (shares.deletes copy).isSome) []
  | sweepRead (now : ℕ) (pending : ℕ → Bool) :
      TaskMove (.sweepRead now pending) .nothing
        (sweepStep now pending (shares.readRecord reply)) []
  | sweepEnd (now : ℕ) (record : ShareRecord) :
      TaskMove (.sweepEnd now record) (.putShare (record.closed now true)) .done []
  | sweepClear (record : ShareRecord) : TaskMove (.sweepClear record) .deleteShare .done []
  | runDelete {copy : ℕ} {stage : RunStage} {effect : Effect} {task : Task}
      (hmove : RunMove shares copy reply stage effect task) :
      TaskMove (.runDelete copy stage) effect task []
  | putOwnerOnly (record : ShareRecord) :
      TaskMove (.putOwnerOnly record) (.putShare record) .done []

variable {shares fresh copy stopped next reply}

theorem cleanStep_cases {stage : CleanStage} {step : Effect × Task}
    (hstep : cleanStep shares stopped next reply stage = some step) :
    CleanMove shares stopped next reply stage step.1 step.2 := by
  cases stage <;> simp only [cleanStep] at hstep
  all_goals repeat' split at hstep
  all_goals cases hstep
  all_goals constructor <;> assumption

theorem runDeleteStep_cases {stage : RunStage} {step : Effect × Task}
    (hstep : runDeleteStep shares copy reply stage = some step) :
    RunMove shares copy reply stage step.1 step.2 := by
  cases stage with
  | finishing ended => cases ended <;> cases hstep <;> constructor
  | marking =>
    simp only [runDeleteStep] at hstep
    split at hstep
    · cases hstep
      exact .stop _ (by simp)
    next record hrecord =>
      split at hstep
      next hsame =>
        cases hstep
        exact .mark record (Shares.record_of_read hrecord) hsame.1
      · cases hstep
        exact .stop _ (by simp)
  | _ =>
    simp only [runDeleteStep] at hstep
    repeat' split at hstep
    all_goals cases hstep
    all_goals constructor <;> first | assumption | simp

variable {next : Effect × Task × List Task}

theorem Task.run_cases (hrun : task.run shares number fresh reply = some next) :
    (∃ again stage stage', task = .flow again stage ∧
      (shares.aborted number = false ∨ stage.awaits = false) ∧
      FlowMove shares number reply stage next.1 stage' ∧
      next.2 = (Task.ofFlow again stage', [])) ∨
    TaskMove shares fresh reply task next.1 next.2.1 next.2.2 := by
  cases task with
  | flow again stage =>
    simp only [Task.run] at hrun
    split at hrun
    · cases hrun
    next hfree =>
      simp only [Option.map_eq_some_iff] at hrun
      obtain ⟨step, hstep, rfl⟩ := hrun
      obtain ⟨stage', hnext, hmove⟩ := flowStep_cases hstep
      refine Or.inl ⟨again, stage, stage', rfl, ?_, hmove, by rw [hnext]⟩
      rw [not_and_or, Bool.not_eq_true, Bool.not_eq_true] at hfree
      exact hfree
  | cleaning stopped stage next =>
    obtain ⟨step, hstep, rfl⟩ := Option.map_eq_some_iff.mp hrun
    exact Or.inr (.clean (cleanStep_cases hstep))
  | deleteCopy record keepRecord stage =>
    obtain ⟨step, hstep, rfl⟩ := Option.map_eq_some_iff.mp hrun
    exact Or.inr (.deleteCopy (deleteShareCopy_cases hstep))
  | runDelete copy stage =>
    obtain ⟨step, hstep, rfl⟩ := Option.map_eq_some_iff.mp hrun
    exact Or.inr (.runDelete (runDeleteStep_cases hstep))
  | sweepEnd now record =>
    cases hrun
    exact Or.inr (.sweepEnd now record)
  | _ =>
    simp only [Task.run] at hrun
    repeat' split at hrun
    all_goals cases hrun
    all_goals exact Or.inr (by constructor <;> assumption)

/-! ## Steps of the state -/

variable (shares)

inductive Task.Opening : Task → Prop
  | starting (again : Bool) : Opening (.starting again)
  | stopping (next : Then) : Opening (.stopping next)
  | sweeping : Opening .sweeping
  | recover {found : ShareRecord} (hrecord : shares.record = some found)
      (hopen : found.state = .opened) : Opening (.deleteCopy found false .asking)
  | runDelete (copy : ℕ) (hqueued : (shares.deletes copy).isSome) :
      Opening (.runDelete copy .sending)

inductive Effect.Outside : Effect → Prop
  | store (copy : ℕ) (hflight : shares.inFlight copy = true) : Outside (.store copy)
  | lose (copy : ℕ) : Outside (.lose copy)
  | moveToOwner (copy : ℕ) : Outside (.moveToOwner copy)
  | tick : Outside .tick
  | setSharing (policy : SharingPolicy) : Outside (.setSharing policy)

variable {shares}

inductive State.Move (state : State) : Action → State → Prop
  | opens {action : Action} (task : Task)
      (hopening : task.Opening state.shares) : Move state action (state.start task)
  | flow {number : ℕ} {reply : Reply} {again : Bool} {stage : Stage}
      {effect : Effect} {stage' : Option Stage}
      (htask : state.tasks[number]? = some (.flow again stage))
      (hfree : state.shares.aborted number = false ∨ stage.awaits = false)
      (hmove : FlowMove state.shares number reply stage effect stage') :
      Move state (.advance number reply) (state.put number (effect, Task.ofFlow again stage', []))
  | task {number : ℕ} {reply : Reply} {task next : Task} {effect : Effect}
      {spawned : List Task} (htask : state.tasks[number]? = some task)
      (hmove : TaskMove state.shares state.tasks.length reply task effect
        next spawned) :
      Move state (.advance number reply) (state.put number (effect, next, spawned))
  | unwritten {number : ℕ} {reply : Reply} {task : Task} {next : Effect × Task × List Task}
      (htask : state.tasks[number]? = some task) (hswallows : task.swallows = true)
      (hrun : task.run state.shares number state.tasks.length reply = some next) :
      Move state (.unwritten number reply) (state.put number (.nothing, next.2))
  | drop {number : ℕ} {left : Bool} {again : Bool} {stage : Stage}
      (htask : state.tasks[number]? = some (.flow again stage))
      (haborted : state.shares.aborted number = true) (hawaits : stage.awaits = true) :
      Move state (.drop number left) (state.put number
          (.leave number (State.descriptor stage left), .done, []))
  | outside {action : Action} (effect : Effect)
      (houtside : effect.Outside state.shares) : Move state action (state.write effect)
  | restart : Move state .restart { shares := state.shares.apply .restart, tasks := [] }

theorem State.step_cases (hstep : state.step action = some after) : state.Move action after := by
  cases action with
  | runDelete copy =>
    obtain ⟨hdue, hstart⟩ := Option.ite_none_right_eq_some.mp hstep
    obtain ⟨notBefore, hqueued, _⟩ := (Option.any_eq_true _ _).mp hdue
    cases hstart
    exact .opens _ (.runDelete copy (by rw [hqueued]; rfl))
  | advance number reply =>
    simp only [State.step, Option.map_eq_some_iff, Option.bind_eq_some_iff] at hstep
    obtain ⟨⟨effect, next, spawned⟩, ⟨task, htask, hrun⟩, rfl⟩ := hstep
    rcases Task.run_cases hrun with
      ⟨again, stage, stage', rfl, hfree, hmove, hnext⟩ | hmove
    · cases hnext
      exact .flow htask hfree hmove
    · exact .task htask hmove
  | unwritten number reply =>
    simp only [State.step, Option.map_eq_some_iff, Option.bind_eq_some_iff,
      Option.filter_eq_some_iff] at hstep
    obtain ⟨next, ⟨task, ⟨htask, hswallows⟩, hrun⟩, rfl⟩ := hstep
    exact .unwritten htask hswallows hrun
  | drop number left =>
    simp only [State.step] at hstep
    split at hstep
    next again stage htask =>
      split at hstep
      next haborted =>
        cases hstep
        exact .drop htask haborted.1 haborted.2
      · cases hstep
    · cases hstep
  | restart =>
    cases hstep
    exact .restart
  | _ =>
    simp only [State.step] at hstep
    repeat' split at hstep
    all_goals cases hstep
    all_goals first
      | exact .opens _ (by constructor <;> assumption)
      | exact .outside _ (by constructor <;> assumption)

/-! ## The turn -/

variable {other : ℕ} {found : Task}

theorem State.task_put_spawned (hfound : (state.put number next).tasks[other]? = some found) :
    other = number ∧ found = next.2.1 ∨ other ≠ number ∧ state.tasks[other]? = some found ∨
      state.tasks.length ≤ other ∧ next.2.2[other - state.tasks.length]? = some found := by
  simp only [State.put, List.getElem?_append, List.length_set] at hfound
  split at hfound
  · by_cases hsame : number = other
    · subst hsame
      rename_i hlt
      rw [List.getElem?_set_self hlt] at hfound
      exact Or.inl ⟨rfl, (Option.some.inj hfound).symm⟩
    · rw [List.getElem?_set_ne hsame] at hfound
      exact Or.inr (Or.inl ⟨fun heq => hsame heq.symm, hfound⟩)
  next hge =>
    exact Or.inr (Or.inr ⟨Nat.le_of_not_lt hge, hfound⟩)

theorem State.task_put_self (htask : state.tasks[number]? = some task) :
    (state.put number next).tasks[number]? = some next.2.1 := by
  have hlt := (List.getElem?_eq_some_iff.mp htask).1
  simp only [State.put]
  rw [List.getElem?_append_left (by simpa using hlt), List.getElem?_set_self hlt]

theorem State.task_put_other (hne : other ≠ number) (hfound : state.tasks[other]? = some found) :
    (state.put number next).tasks[other]? = some found := by
  have hlt := (List.getElem?_eq_some_iff.mp hfound).1
  simp only [State.put]
  rw [List.getElem?_append_left (by simpa using hlt), List.getElem?_set_ne hne.symm]
  exact hfound

theorem State.task_put (hfound : (state.put number next).tasks[other]? = some found) :
    other = number ∧ found = next.2.1 ∨ other ≠ number ∧ state.tasks[other]? = some found ∨
      found ∈ next.2.2 := by
  refine (State.task_put_spawned hfound).imp_right (Or.imp_right ?_)
  exact fun hspawned => List.mem_of_getElem? hspawned.2

theorem State.task_start (hfound : (state.start task).tasks[other]? = some found) :
    state.tasks[other]? = some found ∨ found = task := by
  simp only [State.start, List.getElem?_append] at hfound
  split at hfound
  · exact Or.inl hfound
  · exact Or.inr (List.mem_singleton.mp (List.mem_of_getElem? hfound))

/-- Every flow that has left the queue holds the lock. -/
def Turns (state : State) : Prop :=
  ∀ number again stage, state.tasks[number]? = some (.flow again stage) →
    stage ≠ .waiting → state.shares.turn = some number

variable {effect : Effect} {stage' : Option Stage} {spawned : List Task}

theorem FlowMove.turn (hmove : FlowMove shares number reply stage effect stage') :
    stage = .waiting ∧ shares.turn = none ∧ effect = .takeTurn number ∨
      stage = .closing ∧ effect = .giveTurn number ∧ stage' = none ∨
      stage ≠ .waiting ∧ (shares.apply effect).turn = shares.turn := by
  cases hmove with
  | take hturn => exact Or.inl ⟨rfl, hturn, rfl⟩
  | close => exact Or.inr (Or.inl ⟨rfl, rfl, rfl⟩)
  | fail _ hfails =>
    refine Or.inr (Or.inr ⟨?_, rfl⟩)
    rintro rfl
    exact hfails
  | deletes record hmove =>
    refine Or.inr (Or.inr ⟨by simp, ?_⟩)
    cases hmove with
    | _ => rfl
  | _ => exact Or.inr (Or.inr ⟨by simp, rfl⟩)

theorem TaskMove.task_not_flow {next : Task}
    (hmove : TaskMove shares fresh reply task effect next spawned) :
    ∀ again stage, task ≠ .flow again stage := by
  rintro again stage rfl
  cases hmove

theorem TaskMove.turn {next : Task} (hmove : TaskMove shares fresh reply task effect next spawned) :
    (shares.apply effect).turn = shares.turn := by
  cases hmove with
  | clean hclean => cases hclean <;> rfl
  | deleteCopy hdelete => cases hdelete <;> rfl
  | runDelete hrun => cases hrun <;> rfl
  | _ => rfl

theorem TaskMove.not_flow {next : Task}
    (hmove : TaskMove shares fresh reply task effect next spawned) :
    (∀ again stage, next ≠ .flow again stage) ∧
      ∀ again stage, .flow again stage ∈ spawned → stage = .waiting := by
  cases hmove with
  | clean hclean => cases hclean <;> simp
  | deleteCopy hdelete => cases hdelete <;> simp
  | runDelete hrun => cases hrun <;> simp
  | read next =>
    refine ⟨fun again stage => ?_, by simp⟩
    unfold readStep
    split <;> (try split) <;> (try split) <;> simp
  | sweepRead now pending =>
    refine ⟨fun again stage => ?_, by simp⟩
    unfold sweepStep
    split <;> (try split) <;> (try split) <;> simp
  | _ => simp

/-- While a flow moves, the others wait for their turn. -/
theorem Turns.others_wait {again' : Bool} {found : Stage} (hturns : Turns state)
    (htask : state.tasks[number]? = some (.flow again stage))
    (hmove : FlowMove state.shares number reply stage effect stage') (hne : other ≠ number)
    (hfound : state.tasks[other]? = some (.flow again' found)) : found = .waiting := by
  by_contra hactive
  have hother := hturns other again' found hfound hactive
  rcases hmove.turn with ⟨_, hnone, _⟩ | ⟨rfl, _⟩ | ⟨hstage, _⟩
  · cases hnone.symm.trans hother
  · exact hne (Option.some.inj (hother.symm.trans (hturns number again _ htask (by simp))))
  · exact hne (Option.some.inj (hother.symm.trans (hturns number again _ htask hstage)))

theorem Turns.step (hturns : Turns state)
    (hstep : state.step action = some after) : Turns after := by
  cases State.step_cases hstep with
  | opens task hopening =>
    intro number again stage hfound
    rcases State.task_start hfound with hold | rfl
    · exact hturns number again stage hold
    · cases hopening
  | @flow number reply again stage effect stage' htask hfree hmove =>
    intro other again' found hfound hactive
    rcases State.task_put hfound with ⟨rfl, hself⟩ | ⟨hne, hold⟩ | hnone
    · rcases hmove.turn with ⟨_, _, rfl⟩ | ⟨_, _, rfl⟩ | ⟨hstage, hsame⟩
      · rfl
      · cases hself
      · exact hsame.trans (hturns other again stage htask hstage)
    · exact absurd (hturns.others_wait htask hmove hne hold) hactive
    · cases hnone
  | task htask hmove =>
    intro other again found hfound hactive
    rcases State.task_put hfound with ⟨rfl, hself⟩ | ⟨_, hold⟩ | hnew
    · exact absurd hself.symm (hmove.not_flow.1 again found)
    · exact hmove.turn.trans (hturns other again found hold hactive)
    · exact absurd (hmove.not_flow.2 again found hnew) hactive
  | @unwritten number reply task next htask hswallows hrun =>
    intro other again' found hfound hactive
    rcases Task.run_cases hrun with ⟨again, stage, stage', rfl, _, _, hnext⟩ | hmove
    · rw [hnext] at hfound
      rcases State.task_put hfound with ⟨rfl, _⟩ | ⟨_, hold⟩ | hnone
      · refine hturns other again stage htask ?_
        rintro rfl
        cases hswallows
      · exact hturns other again' found hold hactive
      · cases hnone
    · rcases State.task_put hfound with ⟨rfl, hself⟩ | ⟨_, hold⟩ | hnew
      · exact absurd hself.symm (hmove.not_flow.1 again' found)
      · exact hturns other again' found hold hactive
      · exact absurd (hmove.not_flow.2 again' found hnew) hactive
  | @drop number left again stage htask haborted hawaits =>
    intro other again' found hfound hactive
    rcases State.task_put hfound with ⟨rfl, hself⟩ | ⟨hne, hold⟩ | hnone
    · cases hself
    · have hturn := hturns other again' found hold hactive
      have hother : state.shares.turn ≠ some number := by
        rw [hturn]
        intro heq
        exact hne (Option.some.inj heq)
      simp only [State.put, Shares.apply, if_neg hother]
      exact hturn
    · cases hnone
  | outside effect houtside =>
    intro other again found hfound hactive
    have hturn := hturns other again found hfound hactive
    cases houtside with
    | _ => exact hturn
  | restart =>
    intro other again found hfound
    cases hfound

end ShareFlows
end Wildbloom
