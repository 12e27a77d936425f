import Wildbloom.ShareFlowSteps

/-!
# A shared copy is told to one recipient

The record of a copy says `sent` only after the recipient's receipt was read,
while the descriptor left before it.  A flow that shares again reuses a copy
whose record says `opened`.  So a copy is told once if every flow that sends a
descriptor reads the receipt and writes the record before it ends; a receipt
that is lost, an abort or a crash before it is read, or a write of the record
that fails, lets the next flow send the same key to another recipient with
another deletion time.
-/

namespace Wildbloom
namespace ShareFlows

open Runs

namespace Stage

def unsent : Stage → Option ℕ
  | .heading _ copy => some copy
  | .keying _ copy => some copy
  | .opening _ copy => some copy
  | .uploading _ copy => some copy
  | .replacing _ copy => some copy
  | .recording copy => some copy
  | .clearing copy => some copy
  | .pairing copy => some copy
  | .sending copy _ _ => some copy
  | _ => none

/-- The copy whose descriptor has left and whose record does not say so. -/
def telling : Stage → Option ℕ
  | .awaitingReceipt copy _ _ => some copy
  | .recordSent copy _ _ => some copy
  | _ => none

end Stage

namespace Task

def unsent : Task → Option ℕ
  | .flow _ stage => stage.unsent
  | _ => none

def telling : Task → Option ℕ
  | .flow _ stage => stage.telling
  | _ => none

/-- The records a task may write name copies that were made, and those it
writes as they are do not say `opened`. -/
def Carries (made : ℕ) : Task → Prop
  | .deleteCopy record _ _ => record.copy < made
  | .sweepEnd _ record => record.copy < made
  | .putOwnerOnly record => record.copy < made ∧ record.state ≠ .opened
  | .flow _ (.recordDownload record _) =>
    record.copy < made ∧ record.state ≠ .opened
  | .flow _ (.deleting record _) => record.copy < made
  | _ => True

end Task

/-- The condition on a step: a flow whose descriptor has left reads a valid
receipt, is neither dropped nor cut off by a restart before it has written the
record, and its write of the record does not fail. -/
def ReceiptStep (state : State) : Action → Prop
  | .advance number reply => ∀ again stage,
      state.tasks[number]? = some (.flow again stage) →
      match stage with
      | .sending _ _ _ => reply ≠ .lost
      | .awaitingReceipt _ _ _ => reply = .ok
      | _ => True
  | .unwritten number _ => ∀ again stage,
      state.tasks[number]? = some (.flow again stage) → stage.telling = none
  | .drop number left => ∀ again stage,
      state.tasks[number]? = some (.flow again stage) →
      stage.telling = none ∧ State.descriptor stage left = none
  | .restart => ∀ task ∈ state.tasks, task.telling = none
  | _ => True

variable {shares : Shares} {state after : State} {action : Action} {number fresh copy : ℕ}
  {again : Bool} {stage : Stage} {task next : Task} {reply : Reply} {record : ShareRecord}
  {effect : Effect} {stage' : Option Stage} {spawned : List Task} {made : ℕ}
  {found : Option ShareRecord}

def Shares.Told (shares : Shares) (copy : ℕ) : Prop :=
  copy ∈ shares.told.map Prod.fst

/-- Some flow has told the copy and has not written the record. -/
def State.Tells (state : State) (copy : ℕ) : Prop :=
  ∃ (number : ℕ) (task : Task), state.tasks[number]? = some task ∧ task.telling = some copy

/-- What a task knows of the copies: the one it is to send was not told, the one
it tells was, and its records are of copies that were made. -/
structure Task.Aware (shares : Shares) (task : Task) : Prop where
  unsent : ∀ copy, task.unsent = some copy → copy < shares.made ∧ ¬ shares.Told copy
  telling : ∀ copy, task.telling = some copy → shares.Told copy
  carries : task.Carries shares.made

/-- What the tasks and the record know of the copies that were told. -/
structure Telling (state : State) : Prop where
  turns : Turns state
  told : (state.shares.told.map Prod.fst).Nodup
  below : ∀ copy, state.shares.Told copy → copy < state.shares.made
  record : ∀ record, state.shares.record = some record → record.copy < state.shares.made ∧
      (record.state = .opened → state.shares.Told record.copy → state.Tells record.copy)
  tasks : ∀ (number : ℕ) task, state.tasks[number]? = some task → task.Aware state.shares

theorem Task.Carries.mono {later : ℕ} (hcarries : task.Carries made) (hle : made ≤ later) :
    task.Carries later := by
  cases task with
  | deleteCopy | sweepEnd => exact hcarries.trans_le hle
  | putOwnerOnly record => exact ⟨hcarries.1.trans_le hle, hcarries.2⟩
  | flow again stage =>
    cases stage with
    | recordDownload record keep => exact ⟨hcarries.1.trans_le hle, hcarries.2⟩
    | deleting record stage => exact hcarries.trans_le hle
    | _ => trivial
  | _ => trivial

section Aware

variable {later : Shares}

theorem Shares.told_iff (htold : later.told = shares.told) :
    later.Told copy ↔ shares.Told copy := by
  rw [Shares.Told, Shares.Told, htold]

theorem Task.Aware.mono (haware : task.Aware shares) (htold : later.told = shares.told)
    (hmade : shares.made ≤ later.made) : task.Aware later := by
  refine ⟨fun copy hcopy => ?_, fun copy hcopy => ?_, haware.carries.mono hmade⟩
  · obtain ⟨hbelow, hnot⟩ := haware.unsent copy hcopy
    exact ⟨hbelow.trans_le hmade, fun htells => hnot ((Shares.told_iff htold).mp htells)⟩
  · exact (Shares.told_iff htold).mpr (haware.telling copy hcopy)

theorem Task.aware_of_none (hunsent : task.unsent = none) (htells : task.telling = none)
    (hcarries : task.Carries shares.made) : task.Aware shares :=
  ⟨by simp [hunsent], by simp [htells], hcarries⟩

theorem Task.aware_of_not_flow (hnot : ∀ again stage, task ≠ .flow again stage)
    (hcarries : task.Carries shares.made) : task.telling = none ∧ task.Aware shares := by
  cases task with
  | flow again stage => exact absurd rfl (hnot again stage)
  | _ => exact ⟨rfl, aware_of_none rfl rfl hcarries⟩

end Aware

theorem Telling.put (htelling : Telling state)
    (hturns : Turns (state.put number (effect, next, spawned)))
    (htold : (state.shares.apply effect).told = state.shares.told)
    (hmade : state.shares.made ≤ (state.shares.apply effect).made)
    (hrecord : ∀ record, (state.shares.apply effect).record = some record →
      record.copy < (state.shares.apply effect).made ∧
        (record.state = .opened → state.shares.Told record.copy →
          (state.put number (effect, next, spawned)).Tells record.copy))
    (hnext : next.Aware (state.shares.apply effect))
    (hspawned : ∀ task ∈ spawned, ∀ shares, task.Aware shares) :
    Telling (state.put number (effect, next, spawned)) := by
  refine ⟨hturns, ?_, ?_, ?_, ?_⟩
  · simp only [State.put, htold]
    exact htelling.told
  · intro copy hcopy
    exact (htelling.below copy ((Shares.told_iff htold).mp hcopy)).trans_le hmade
  · intro record hput
    obtain ⟨hbelow, htells⟩ := hrecord record hput
    exact ⟨hbelow, fun hopen hwas => htells hopen ((Shares.told_iff htold).mp hwas)⟩
  · intro other found hfound
    rcases State.task_put hfound with ⟨_, rfl⟩ | ⟨_, hold⟩ | hspawn
    · exact hnext
    · exact (htelling.tasks other found hold).mono htold hmade
    · exact hspawned found hspawn _

/-- A flow that tells stays in the list of tasks, or another one stays. -/
theorem State.Tells.put (htells : state.Tells copy) (htask : state.tasks[number]? = some task)
    (hstill : task.telling = some copy → next.telling = some copy) :
    (state.put number (effect, next, spawned)).Tells copy := by
  obtain ⟨other, found, hfound, hcopy⟩ := htells
  by_cases hsame : other = number
  · subst hsame
    rw [htask] at hfound
    cases hfound
    exact ⟨other, next, State.task_put_self htask, hstill hcopy⟩
  · exact ⟨other, found, State.task_put_other hsame hfound, hcopy⟩

/-- The effect changes neither the record, nor what was told, nor what was
made. -/
def Effect.Quiet (shares : Shares) (effect : Effect) : Prop :=
  (shares.apply effect).record = shares.record ∧ (shares.apply effect).told = shares.told ∧
    (shares.apply effect).made = shares.made

section

variable (htelling : Telling state)
include htelling

theorem Telling.quiet (htask : state.tasks[number]? = some task)
    (hturns : Turns (state.put number (effect, next, spawned))) (hquiet : effect.Quiet state.shares)
    (hstill : ∀ copy, task.telling = some copy → next.telling = some copy)
    (hnext : next.Aware state.shares) (hspawned : ∀ task ∈ spawned, ∀ shares, task.Aware shares) :
    Telling (state.put number (effect, next, spawned)) := by
  obtain ⟨hrecord, htold, hmade⟩ := hquiet
  refine htelling.put hturns htold hmade.ge ?_ (hnext.mono htold hmade.ge) hspawned
  intro record hput
  rw [hrecord] at hput
  obtain ⟨hbelow, htells⟩ := htelling.record record hput
  rw [hmade]
  exact ⟨hbelow, fun hopen hwas => (htells hopen hwas).put htask (hstill record.copy)⟩

/-- A step that writes the record of a copy that was made: one that does not
say `opened`, or one of a copy that was not told. -/
theorem Telling.write (hturns : Turns (state.put number (.putShare record, next, [])))
    (hbelow : record.copy < state.shares.made)
    (hopen : record.state = .opened → ¬ state.shares.Told record.copy)
    (hnext : next.Aware state.shares) :
    Telling (state.put number (.putShare record, next, [])) := by
  refine htelling.put hturns rfl le_rfl ?_ (hnext.mono rfl le_rfl) (by simp)
  intro found hfound
  cases hfound
  exact ⟨hbelow, fun hstate htold => absurd htold (hopen hstate)⟩

theorem Telling.alone (htask : state.tasks[number]? = some (.flow again stage))
    (hactive : stage ≠ .waiting) (htells : state.Tells copy) : stage.telling = some copy := by
  obtain ⟨other, found, hfound, hcopy⟩ := htells
  cases found with
  | flow again' stage' =>
    have hmine := htelling.turns number again stage htask hactive
    have hother := htelling.turns other again' stage' hfound (by
      rintro rfl
      cases hcopy)
    rw [hmine] at hother
    cases Option.some.inj hother
    rw [htask] at hfound
    cases hfound
    exact hcopy
  | _ => cases hcopy

/-- The step that sends a descriptor.  Every other flow waits for its turn, so
none of them shares the copy. -/
theorem Telling.tell {deleteAt : ℕ} {keep : Bool}
    (htask : state.tasks[number]? = some (.flow again (.sending copy deleteAt keep)))
    (hturns : Turns (state.put number (.tell copy deleteAt,
      .flow again (.awaitingReceipt copy deleteAt keep), []))) :
    Telling (state.put number (.tell copy deleteAt,
      .flow again (.awaitingReceipt copy deleteAt keep), [])) := by
  have hmine := (htelling.tasks number _ htask).unsent copy rfl
  refine ⟨hturns, ?_, ?_, ?_, ?_⟩
  · exact List.nodup_cons.mpr ⟨hmine.2, htelling.told⟩
  · intro other hother
    rcases List.mem_cons.mp hother with rfl | hold
    · exact hmine.1
    · exact htelling.below other hold
  · intro record hrecord
    obtain ⟨hbelow, htells⟩ := htelling.record record hrecord
    refine ⟨hbelow, fun hopen htold => ?_⟩
    rcases List.mem_cons.mp htold with hcopy | hold
    · exact ⟨number, .flow again (.awaitingReceipt copy deleteAt keep),
        State.task_put_self htask, congrArg some hcopy.symm⟩
    · refine (htells hopen hold).put htask ?_
      intro hnone
      cases hnone
  · intro other found hfound
    rcases State.task_put hfound with ⟨_, rfl⟩ | ⟨hne, hold⟩ | hnone
    · refine ⟨fun _ hnone => (by cases hnone), ?_, trivial⟩
      rintro shared ⟨⟩
      exact List.mem_cons_self
    · obtain ⟨_, htells, hcarries⟩ := htelling.tasks other found hold
      refine ⟨fun shared hshared => ?_, fun shared hshared => ?_, hcarries⟩
      · cases found with
        | flow again' stage' =>
          have hmove := @FlowMove.tell state.shares number .ok copy deleteAt keep
          cases htelling.turns.others_wait htask hmove hne hold
          cases hshared
        | _ => cases hshared
      · exact List.mem_cons_of_mem _ (htells shared hshared)
    · cases hnone

end

theorem ShareRecord.closed_state_ne (record : ShareRecord) (now : ℕ)
    (deleted : Bool) : (record.closed now deleted).state ≠ .opened := by
  cases deleted with
  | true | false => simp [ShareRecord.closed]

/-- The stages in which a flow fails tell nothing, unless the receipt was not
read. -/
theorem Stage.telling_of_fails (hfails : stage.Fails reply) (hguard : ∀ copy deleteAt keep,
      stage = .awaitingReceipt copy deleteAt keep → reply = .ok) : stage.telling = none := by
  cases stage with
  | awaitingReceipt copy deleteAt keep =>
    exact absurd (hguard copy deleteAt keep rfl) hfails
  | recordSent copy deleteAt keep => exact hfails.elim
  | _ => rfl

/-- A quiet step of a flow that goes on with the copy it has, or with none. -/
theorem Telling.pass {later : Stage} (htelling : Telling state)
    (htask : state.tasks[number]? = some (.flow again stage))
    (hturns : Turns (state.put number (effect, .flow again later, [])))
    (hquiet : effect.Quiet state.shares) (htells : stage.telling = later.telling)
    (hunsent : later.unsent = none ∨ later.unsent = stage.unsent)
    (hcarries : (Task.flow again later).Carries state.shares.made) :
    Telling (state.put number (effect, .flow again later, [])) := by
  have haware := htelling.tasks number _ htask
  refine htelling.quiet htask hturns hquiet (fun copy hcopy => htells.symm.trans hcopy)
    ⟨fun copy hcopy => ?_, fun copy hcopy => ?_, hcarries⟩ (by simp)
  · rcases hunsent with hnone | hsame
    · cases hnone.symm.trans hcopy
    · exact haware.unsent copy (hsame.symm.trans hcopy)
  · exact haware.telling copy (htells.trans hcopy)

/-- Every step of a flow keeps what is known of the copies that were told. -/
theorem Telling.flow (htelling : Telling state) (hguard : ReceiptStep state (.advance number reply))
    (htask : state.tasks[number]? = some (.flow again stage))
    (hmove : FlowMove state.shares number reply stage effect stage')
    (hturns : Turns (state.put number (effect, Task.ofFlow again stage', []))) :
    Telling (state.put number (effect, Task.ofFlow again stage', [])) := by
  obtain ⟨hunsent, htells, hcarries⟩ := htelling.tasks number _ htask
  have hreceipt := hguard again stage htask
  have hclosing : (Task.flow again .closing).Aware state.shares :=
    Task.aware_of_none rfl rfl trivial
  cases hmove with
  | fail stage hfails =>
    have hnot : stage.telling = none := by
      refine Stage.telling_of_fails hfails ?_
      rintro copy deleteAt keep rfl
      exact hreceipt
    exact htelling.pass htask hturns ⟨rfl, rfl, rfl⟩ hnot (Or.inl rfl) trivial
  | reusable previous record hrecord hopen =>
    refine htelling.quiet htask hturns ⟨rfl, rfl, rfl⟩ (fun _ hcopy => hcopy)
      ⟨?_, fun _ hnone => (by cases hnone), trivial⟩ (by simp)
    rintro copy ⟨⟩
    obtain ⟨hbelow, hkeeps⟩ := htelling.record record hrecord
    refine ⟨hbelow, fun htold => ?_⟩
    -- a told copy with an open record belongs to the flow that holds the
    -- turn, and that is this one
    cases htelling.alone htask (by simp) (hkeeps hopen htold)
  | make previous =>
    refine htelling.put hturns rfl (Nat.le_succ _) ?_
      ⟨?_, fun _ hnone => (by cases hnone), trivial⟩ (by simp)
    · intro record hrecord
      obtain ⟨hbelow, hkeeps⟩ := htelling.record record hrecord
      refine ⟨Nat.lt_succ_of_lt hbelow, fun hopen htold => ?_⟩
      exact (hkeeps hopen htold).put htask (fun hself => hself)
    · rintro copy ⟨⟩
      exact ⟨Nat.lt_succ_self _, fun htold => Nat.lt_irrefl _ (htelling.below _ htold)⟩
  | record copy =>
    obtain ⟨hbelow, hnot⟩ := hunsent copy rfl
    exact htelling.write hturns hbelow (fun _ => hnot) ⟨hunsent, htells, trivial⟩
  | tell copy deleteAt keep => exact htelling.tell htask hturns
  | tellUnanswered copy deleteAt keep hreply => exact absurd hreply hreceipt
  | sent copy deleteAt keep =>
    exact htelling.write hturns (htelling.below copy (htells copy rfl)) (by simp)
      (Task.aware_of_none rfl rfl trivial)
  | download keep record hrecord hsent =>
    exact htelling.pass htask hturns ⟨rfl, rfl, rfl⟩ rfl (Or.inl rfl)
      ⟨(htelling.record record hrecord).1, by simp [hsent]⟩
  | keepCopy record =>
    exact htelling.write hturns hcarries.1 (fun hopen => absurd hopen hcarries.2) hclosing
  | deleteCopy record =>
    exact htelling.write hturns hcarries.1 (fun hopen => absurd hopen hcarries.2)
      (Task.aware_of_none rfl rfl hcarries.1)
  | deletes record hdelete =>
    cases hdelete with
    | put deleted _ =>
      refine htelling.write hturns ?_ ?_ hclosing
      · rw [ShareRecord.closed_copy]
        exact hcarries
      · intro hopen
        exact absurd hopen (record.closed_state_ne _ _)
    | remove deleted hkeep => cases hkeep
    | _ => exact htelling.pass htask hturns ⟨rfl, rfl, rfl⟩ rfl (Or.inl rfl) hcarries
  | close =>
    exact htelling.quiet htask hturns ⟨rfl, rfl, rfl⟩ (fun _ hcopy => hcopy)
      (Task.aware_of_none rfl rfl trivial) (by simp)
  | found | key | send | answered | keep | replace | clear | pair =>
    exact htelling.pass htask hturns ⟨rfl, rfl, rfl⟩ rfl (Or.inr rfl) trivial
  | _ =>
    exact htelling.pass htask hturns ⟨rfl, rfl, rfl⟩ rfl (Or.inl rfl) trivial

/-- A flow whose write failed goes on with the copy it has; only the record that
a copy was sent must not be lost. -/
theorem Telling.flowUnwritten (htelling : Telling state) (htells : stage.telling = none)
    (hswallows : stage.swallows = true)
    (htask : state.tasks[number]? = some (.flow again stage))
    (hmove : FlowMove state.shares number reply stage effect stage')
    (hturns : Turns (state.put number (.nothing, Task.ofFlow again stage', []))) :
    Telling (state.put number (.nothing, Task.ofFlow again stage', [])) := by
  have hcarries := (htelling.tasks number _ htask).carries
  cases hmove with
  | keep | replace | record =>
    exact htelling.pass htask hturns ⟨rfl, rfl, rfl⟩ rfl (Or.inr rfl) trivial
  | sent => cases htells
  | deletes record hdelete =>
    cases hdelete with
    | put | remove => exact htelling.pass htask hturns ⟨rfl, rfl, rfl⟩ rfl (Or.inl rfl) trivial
    | _ => exact htelling.pass htask hturns ⟨rfl, rfl, rfl⟩ rfl (Or.inl rfl) hcarries
  | fail stage hfails =>
    exact htelling.pass htask hturns ⟨rfl, rfl, rfl⟩ htells (Or.inl rfl) trivial
  | _ => cases hswallows

/-! ## The other tasks -/

/-- The other tasks leave the record, delete it, or write one that does not say
`opened`. -/
theorem TaskMove.effect_cases (hmove : TaskMove shares fresh reply task effect next spawned)
    (hcarries : task.Carries shares.made) :
    effect.Quiet shares ∨ effect = .deleteShare ∨
      ∃ record, effect = .putShare record ∧ record.copy < shares.made ∧ record.state ≠ .opened := by
  cases hmove with
  | clean hclean => cases hclean <;> exact Or.inl ⟨rfl, rfl, rfl⟩
  | deleteCopy hdelete =>
    cases hdelete with
    | put deleted _ =>
      refine Or.inr (Or.inr ⟨_, rfl, ?_, ShareRecord.closed_state_ne _ _ _⟩)
      rw [ShareRecord.closed_copy]
      exact hcarries
    | remove deleted _ => exact Or.inr (Or.inl rfl)
    | _ => exact Or.inl ⟨rfl, rfl, rfl⟩
  | runDelete hrun => cases hrun <;> exact Or.inl ⟨rfl, rfl, rfl⟩
  | deleteFile | sweepClear => exact Or.inr (Or.inl rfl)
  | sweepEnd now record =>
    exact Or.inr (Or.inr ⟨_, rfl, hcarries, ShareRecord.closed_state_ne _ _ _⟩)
  | putOwnerOnly record =>
    exact Or.inr (Or.inr ⟨record, rfl, hcarries.1, hcarries.2⟩)
  | _ => exact Or.inl ⟨rfl, rfl, rfl⟩

theorem carries_readStep (hfound : ∀ record, found = some record → record.copy < made)
    (next : Then) :
    (readStep found next).Carries made := by
  cases found with
  | none => cases next <;> trivial
  | some record =>
    have hbelow := hfound record rfl
    cases next with
    | nothing => trivial
    | _ =>
      simp only [readStep]
      split
      · first | exact hbelow | trivial
      · trivial

theorem carries_sweepStep {now : ℕ} {pending : ℕ → Bool}
    (hfound : ∀ record, found = some record → record.copy < made) :
    (sweepStep now pending found).Carries made := by
  cases found with
  | none => trivial
  | some record =>
    have hbelow := hfound record rfl
    cases hstate : record.state <;> simp only [sweepStep, hstate]
    case opened => trivial
    all_goals split <;> first | exact hbelow | trivial

theorem TaskMove.carries (hmove : TaskMove shares fresh reply task effect next spawned)
    (hrecord : ∀ record, shares.record = some record → record.copy < shares.made)
    (hcarries : task.Carries shares.made) : next.Carries shares.made := by
  cases hmove with
  | clean hclean => cases hclean <;> trivial
  | deleteCopy hdelete =>
    cases hdelete with
    | put | remove => trivial
    | _ => exact hcarries
  | runDelete hrun =>
    cases hrun with
    | mark record hfound hcopy => exact ⟨hrecord record hfound, by simp⟩
    | _ => trivial
  | read next => exact carries_readStep hrecord next
  | sweepRead now pending =>
    exact carries_sweepStep fun record hread => hrecord record (Shares.record_of_read hread)
  | _ => trivial

theorem TaskMove.spawned_aware (hmove : TaskMove shares fresh reply task effect next spawned) :
    ∀ task ∈ spawned, ∀ shares, task.Aware shares := by
  cases hmove with
  | startOver again current _ | launch again =>
    intro task hmem shares
    cases List.mem_singleton.mp hmem
    exact Task.aware_of_none rfl rfl trivial
  | _ => simp

/-- A task that is no flow goes on, with a quiet effect of its own or none. -/
theorem Telling.quietTask (htelling : Telling state) (htask : state.tasks[number]? = some task)
    (hmove : TaskMove state.shares fresh reply task effect next spawned) {done : Effect}
    (hquiet : done.Quiet state.shares) (hturns : Turns (state.put number (done, next, spawned))) :
    Telling (state.put number (done, next, spawned)) := by
  have hcarries := (htelling.tasks number task htask).carries
  have hnext := hmove.carries (fun record hrecord => (htelling.record record hrecord).1) hcarries
  have htells := (Task.aware_of_not_flow hmove.task_not_flow hcarries).1
  exact htelling.quiet htask hturns hquiet (by simp [htells])
    (Task.aware_of_not_flow hmove.not_flow.1 hnext).2 hmove.spawned_aware

theorem Telling.otherTask (htelling : Telling state) (htask : state.tasks[number]? = some task)
    (hmove : TaskMove state.shares fresh reply task effect next spawned)
    (hturns : Turns (state.put number (effect, next, spawned))) :
    Telling (state.put number (effect, next, spawned)) := by
  have hcarries := (htelling.tasks number task htask).carries
  have hnext := hmove.carries (fun record hrecord => (htelling.record record hrecord).1) hcarries
  have haware := (Task.aware_of_not_flow hmove.not_flow.1 hnext).2
  rcases hmove.effect_cases hcarries with hquiet | rfl | ⟨record, rfl, hcopy, hstate⟩
  · exact htelling.quietTask htask hmove hquiet hturns
  · exact htelling.put hturns rfl le_rfl (by simp [Shares.apply]) (haware.mono rfl le_rfl)
      hmove.spawned_aware
  · refine htelling.put hturns rfl le_rfl ?_ (haware.mono rfl le_rfl) hmove.spawned_aware
    rintro found ⟨⟩
    exact ⟨hcopy, fun hopen => absurd hopen hstate⟩

/-! ## Runs -/

theorem Task.Opening.aware (hopening : task.Opening shares)
    (hfound : ∀ record, shares.record = some record → record.copy < shares.made) :
    task.Aware shares := by
  cases hopening with
  | recover hrecord hopen => exact Task.aware_of_none rfl rfl (hfound _ hrecord)
  | _ => exact Task.aware_of_none rfl rfl trivial

theorem Effect.Outside.quiet (houtside : effect.Outside shares) : effect.Quiet shares := by
  cases houtside with
  | _ => exact ⟨rfl, rfl, rfl⟩

/-- Starting a task or an event outside keeps the flows as they are. -/
theorem Telling.start (htelling : Telling state) (hopening : task.Opening state.shares)
    (hturns : Turns (state.start task)) : Telling (state.start task) := by
  refine ⟨hturns, htelling.told, htelling.below, ?_, ?_⟩
  · intro record hrecord
    obtain ⟨hbelow, hkeeps⟩ := htelling.record record hrecord
    refine ⟨hbelow, fun hopen htold => ?_⟩
    obtain ⟨other, found, hfound, hcopy⟩ := hkeeps hopen htold
    refine ⟨other, found, ?_, hcopy⟩
    rw [State.start, List.getElem?_append_left (List.getElem?_eq_some_iff.mp hfound).1]
    exact hfound
  · intro other found hfound
    rcases State.task_start hfound with hold | rfl
    · exact htelling.tasks other found hold
    · exact hopening.aware fun record hrecord => (htelling.record record hrecord).1

theorem Telling.outside (htelling : Telling state) (houtside : effect.Outside state.shares)
    (hturns : Turns (state.write effect)) : Telling (state.write effect) := by
  obtain ⟨hrecord, htold, hmade⟩ := houtside.quiet
  refine ⟨hturns, ?_, ?_, ?_, ?_⟩
  · rw [State.write, htold]
    exact htelling.told
  · simp only [State.write, Shares.Told, htold, hmade]
    exact htelling.below
  · simp only [State.write, Shares.Told, hrecord, htold, hmade]
    exact htelling.record
  · exact fun other found hfound => (htelling.tasks other found hfound).mono htold hmade.ge

theorem Telling.step (htelling : Telling state) (hguard : ReceiptStep state action)
    (hstep : state.step action = some after) : Telling after := by
  have hturns := htelling.turns.step hstep
  cases State.step_cases hstep with
  | opens task hopening => exact htelling.start hopening hturns
  | flow htask hfree hmove => exact htelling.flow hguard htask hmove hturns
  | task htask hmove => exact htelling.otherTask htask hmove hturns
  | @unwritten number reply task next htask hswallows hrun =>
    obtain ⟨effect, next, spawned⟩ := next
    rcases Task.run_cases hrun with ⟨again, stage, stage', rfl, _, hmove, hnext⟩ | hmove
    · cases hnext
      exact htelling.flowUnwritten (hguard again stage htask) hswallows htask hmove hturns
    · exact htelling.quietTask htask hmove ⟨rfl, rfl, rfl⟩ hturns
  | @drop number left again stage htask haborted hawaits =>
    obtain ⟨htells, hleft⟩ := hguard again stage htask
    refine htelling.quiet htask hturns ⟨rfl, by rw [hleft]; rfl, rfl⟩ ?_
      (Task.aware_of_none rfl rfl trivial) (by simp)
    intro copy hcopy
    cases htells.symm.trans hcopy
  | outside effect houtside => exact htelling.outside houtside hturns
  | restart =>
    refine ⟨hturns, htelling.told, htelling.below, ?_, by simp⟩
    intro record hrecord
    obtain ⟨hbelow, hkeeps⟩ := htelling.record record hrecord
    refine ⟨hbelow, fun hopen htold => ?_⟩
    obtain ⟨other, found, hfound, hcopy⟩ := hkeeps hopen htold
    have hnone := hguard found (List.mem_of_getElem? hfound)
    cases hnone.symm.trans hcopy

theorem Telling.new : Telling {} := by
  refine ⟨?_, List.nodup_nil, ?_, ?_, ?_⟩ <;> simp [Turns, Shares.Told]

/-- In every run whose flows read the receipts of the descriptors they send, no
copy is told twice. -/
theorem shared_copy_told_once {state : State} (hreach : Reaches State.step ReceiptStep {} state) :
    (state.shares.told.map Prod.fst).Nodup := by
  have htelling : Telling state := hreach.invariant Telling.new
    (fun _ _ _ hinv hguard hstep => hinv.step hguard hstep)
  exact htelling.told

def receiptCheck (state : State) : Action → Bool
  | .advance number reply =>
    match state.tasks[number]? with
    | some (.flow _ (.sending _ _ _)) => decide (reply ≠ .lost)
    | some (.flow _ (.awaitingReceipt _ _ _)) => decide (reply = .ok)
    | _ => true
  | .drop _ _ | .unwritten _ _ => false
  | .restart => false
  | _ => true

theorem receiptStep_of_check (hcheck : receiptCheck state action = true) :
    ReceiptStep state action := by
  cases action with
  | advance number reply =>
    intro again stage htask
    simp only [receiptCheck, htask] at hcheck
    cases stage with
    | sending | awaitingReceipt => exact of_decide_eq_true hcheck
    | _ => trivial
  | drop | restart | unwritten => cases hcheck
  | _ => trivial

/-- A copy is sent and recorded; the file is shared again, and the second
recipient gets a copy of its own. -/
theorem shared_copy_told_once_again : ∃ state : State, Reaches State.step ReceiptStep {} state ∧
      state.shares.told.length = 2 ∧
      (state.shares.told.map Prod.fst).Nodup := by
  have hrun : (checkedRun State.step receiptCheck {}
      (.shareStart false :: proceed 0 2 ++ proceed 1 5 ++ .store 0 ::
        proceed 1 8 ++ .advance 1 .failed :: proceed 1 1 ++
        .shareStart true :: proceed 2 2 ++ proceed 4 6 ++ .store 1 ::
        proceed 4 6)).any
        (fun state => decide (state.shares.told.length = 2)) = true := by
    decide
  obtain ⟨state, hreach, htest⟩ := exists_reaches_of_check receiptStep_of_check hrun
  exact ⟨state, hreach, of_decide_eq_true htest, shared_copy_told_once hreach⟩

/-- The descriptor of a copy leaves and the receipt is not read; the next flow
finds the record open and sends the same copy again, with another deletion
time. -/
theorem copy_told_again_without_receipt : ∃ (state : State) (copy first second : ℕ),
      Reaches State.step everyStep {} state ∧ first ≠ second ∧
      state.shares.told = [(copy, second), (copy, first)] := by
  have hrun : (runActions State.step {}
      (.shareStart false :: proceed 0 2 ++ proceed 1 5 ++ .store 0 ::
        proceed 1 6 ++ .advance 1 .failed :: proceed 1 1 ++ .tick ::
        .shareStart true :: proceed 2 2 ++ proceed 4 7)).any
        (fun state => decide (state.shares.told = [(0, 86401), (0, 86400)])) = true := by
    decide
  obtain ⟨state, hreach, htest⟩ := exists_reaches_of_runActions hrun
  exact ⟨state, 0, 86400, 86401, hreach, by decide, of_decide_eq_true htest⟩

end ShareFlows
end Wildbloom
