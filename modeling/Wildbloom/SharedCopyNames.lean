import Wildbloom.SharedCopyCustody

/-!
# No shared copy without a name

A careful run stays out of the windows in which a copy loses its name: an upload
whose answer was an error is not stored afterwards, a node does not delete a copy
while an upload of it is under way, the program does not stop while a flow or a
clean-up alone holds a copy, a task writes the record only while it names the
copy that the task has read, and neither a flow's read of an open or sent record
nor a write that names a copy fails.  In such a run every wanted copy is named or
held.
-/

namespace Wildbloom
namespace ShareFlows

open Runs

/-- The writes whose failure leaves a copy without a name. -/
def Task.names : Task → Bool
  | .flow _ (.replacing _ _) => true
  | .flow _ (.recording _) => true
  | .flow _ (.deleting _ .queueing) => true
  | .cleaning _ (.queueing _) _ => true
  | .deleteCopy _ _ .queueing => true
  | _ => false

/-- A task's step stays out of the windows in which a copy loses its name. -/
def Task.Careful (shares : Shares) (reply : Reply) : Task → Prop
  | .flow _ .reading => reply = .lost → ∀ record, shares.record = some record →
      record.state.standing = false
  | .flow _ (.uploading _ copy) => reply ≠ .ok → ¬ shares.Wanted copy
  | .flow _ (.deleting record .asking) => reply = .ok → shares.inFlight record.copy = false
  | .cleaning _ (.deleting copy) _ => reply = .ok → shares.inFlight copy = false
  | .deleteCopy record _ .asking => reply = .ok → shares.inFlight record.copy = false
  | .runDelete copy .sending => reply = .ok → shares.inFlight copy = false
  | .deleteCopy record _ (.writing _) => shares.OwnRecord record.copy
  | .sweepEnd _ record => shares.OwnRecord record.copy
  | .sweepClear record => shares.OwnRecord record.copy
  | .putOwnerOnly record => shares.OwnRecord record.copy
  | .deleteFile => reply = .ok → ∀ record, shares.record = some record →
      record.state.standing = true → shares.Backed record.copy
  | _ => True

def CarefulStep (state : State) : Action → Prop
  | .advance number reply => ∀ task, state.tasks[number]? = some task →
      task.Careful state.shares reply
  | .unwritten number _ => ∀ task, state.tasks[number]? = some task → task.names = false
  | .restart => ∀ (number : ℕ) task copy, state.tasks[number]? = some task →
      ¬ task.Holds state.shares copy number
  | _ => True

def State.Covered (state : State) (copy : ℕ) : Prop :=
  state.shares.Named copy ∨ ∃ (number : ℕ) (task : Task), state.tasks[number]? = some task ∧
    task.Holds state.shares copy number

structure Custody (state : State) : Prop where
  turns : Turns state
  sound : state.shares.Sound
  session : ∀ flow, state.shares.session = some flow → flow < state.tasks.length
  fits : ∀ (number : ℕ) task, state.tasks[number]? = some task →
    task.Fits state.shares number state.tasks.length
  cover : ∀ copy, state.shares.Wanted copy → state.Covered copy

variable {shares : Shares} {state after : State} {action : Action} {effect : Effect}
  {task next : Task} {spawned : List Task} {reply : Reply} {stage : Stage}
  {stage' : Option Stage} {again : Bool} {copy number bound flow : ℕ}

/-! ## The other tasks -/

theorem ShareRecord.closed_standing (record : ShareRecord) (now : ℕ) (deleted : Bool) :
    (record.closed now deleted).state.standing = false := by
  cases deleted with
  | true | false => rfl

theorem Shares.not_wanted_delete (hflight : shares.inFlight copy = false) :
    ¬ (shares.apply (.delete copy)).Wanted copy := by
  simp [Shares.Wanted, Shares.apply, hflight]

theorem Shares.gone_delete (hspent : shares.spent copy = true)
    (hflight : shares.inFlight copy = false) : (shares.apply (.delete copy)).Gone copy :=
  ⟨hspent, Shares.not_wanted_delete hflight⟩

theorem Shares.Gone.settled (hgone : shares.Gone copy) : shares.Settled copy :=
  ⟨hgone.1, fun hwanted => absurd hwanted hgone.2⟩

theorem Shares.settled_queueDelete (hspent : shares.spent copy = true) (notBefore : ℕ) :
    (shares.apply (.queueDelete copy notBefore)).Settled copy :=
  ⟨hspent, fun _ => by simp [Shares.apply]⟩

theorem fits_readStep (hsound : shares.Sound) (next : Then) :
    (readStep shares.record next).Fits shares number bound := by
  cases hfound : shares.record with
  | none => cases next <;> trivial
  | some record =>
    have hspent := (hsound.record record hfound).1
    cases next with
    | nothing => trivial
    | _ =>
      simp only [readStep]
      split
      · exact hspent
      · trivial

theorem fits_sweepStep (hsound : shares.Sound) (now : ℕ) (pending : ℕ → Bool) :
    (sweepStep now pending (shares.readRecord reply)).Fits shares number bound := by
  cases hfound : shares.readRecord reply with
  | none => trivial
  | some record =>
    obtain ⟨hspent, hsettled⟩ := hsound.record record (Shares.record_of_read hfound)
    cases hstate : record.state with simp only [sweepStep, hstate]
    | opened => trivial
    | sent =>
      split
      · exact hspent
      · trivial
    | _ =>
      have hclosed : shares.Settled record.copy := hsettled (by rw [hstate]; rfl)
      split <;> first | exact hclosed | trivial

section Others

variable (hmove : TaskMove shares bound reply task effect next spawned)
  (hfits : task.Fits shares number bound)

include hmove

theorem TaskMove.spawned_fits (hsession : ∀ flow, shares.session = some flow → flow < bound)
    {index : ℕ} {made : Task} (hspawned : spawned[index]? = some made) :
    made.Fits (shares.apply effect) (bound + index) (bound + spawned.length) := by
  cases hmove with
  | startOver again current hcurrent =>
    cases List.mem_singleton.mp (List.mem_of_getElem? hspawned)
    exact ⟨(hsession current hcurrent).trans_le (Nat.le_add_right _ _), Function.update_self ..,
      trivial⟩
  | launch again =>
    obtain ⟨hindex, rfl⟩ := List.getElem?_eq_some_iff.mp hspawned
    cases Nat.lt_one_iff.mp hindex
    exact Function.update_self ..
  | _ => cases hspawned

include hfits

theorem TaskMove.yields (hlt : flow < bound) :
    effect.Yields shares flow := by
  cases hmove with
  | launch => exact hlt.ne'
  | clean hclean =>
    cases hclean with
    | taken => exact ⟨rfl, hfits.2.1⟩
    | _ => trivial
  | deleteCopy hdelete => cases hdelete <;> trivial
  | runDelete hrun => cases hrun <;> trivial
  | _ => trivial

theorem TaskMove.allowed : effect.Allowed shares bound := by
  cases hmove with
  | launch => rfl
  | clean hclean =>
    cases hclean with
    | taken => exact fun _ hnone => by cases hnone
    | queue => exact hfits.2.2
    | _ => trivial
  | deleteCopy hdelete =>
    cases hdelete with
    | queue => exact hfits
    | put deleted =>
      rw [Effect.Allowed, ShareRecord.closed_copy]
      exact ⟨hfits.1, fun _ => hfits⟩
    | _ => trivial
  | removeQueue => exact hfits
  | sweepEnd => exact ⟨hfits.1, fun _ => hfits⟩
  | runDelete hrun =>
    cases hrun with
    | finish | giveUp => exact hfits.2
    | _ => trivial
  | putOwnerOnly => exact ⟨hfits.2.1, fun _ => hfits.2.settled⟩
  | _ => trivial

variable (hsound : shares.Sound) (hcareful : task.Careful shares reply)
include hsound hcareful

theorem TaskMove.record_cases : (shares.apply effect).record = shares.record ∨
    (∀ record, (shares.apply effect).record = some record → record.state.standing = false) ∧
      ∀ copy, shares.Live copy → (shares.apply effect).Settled copy := by
  have hcalm := (hmove.allowed hfits).calm
  have hnone : ∀ record : ShareRecord, none = some record → record.state.standing = false := by
    simp
  have hclose : ∀ {held}, shares.OwnRecord held → shares.Settled held →
      ∀ copy, shares.Live copy → (shares.apply effect).Settled copy := by
    rintro held hown hsettled copy ⟨record, hrecord, rfl, hstanding⟩
    rw [hown record hrecord hstanding]
    exact hcalm.settled hsettled
  cases hmove with
  | clean hclean => cases hclean <;> exact Or.inl rfl
  | deleteCopy hdelete =>
    cases hdelete with
    | put deleted =>
      refine Or.inr ⟨?_, hclose hcareful hfits⟩
      rintro record ⟨⟩
      exact ShareRecord.closed_standing _ _ _
    | remove => exact Or.inr ⟨hnone, hclose hcareful hfits⟩
    | _ => exact Or.inl rfl
  | runDelete hrun => cases hrun <;> exact Or.inl rfl
  | deleteFile hreply =>
    refine Or.inr ⟨hnone, ?_⟩
    rintro copy ⟨record, hrecord, rfl, hstanding⟩
    exact hcalm.settled ⟨(hsound.record record hrecord).1, hcareful hreply record hrecord hstanding⟩
  | sweepEnd now record =>
    refine Or.inr ⟨?_, hclose hcareful hfits⟩
    rintro record ⟨⟩
    rfl
  | sweepClear record => exact Or.inr ⟨hnone, hclose hcareful hfits⟩
  | putOwnerOnly record =>
    refine Or.inr ⟨?_, hclose hcareful hfits.2.settled⟩
    rintro record ⟨⟩
    rw [hfits.1]
    rfl
  | _ => exact Or.inl rfl

theorem TaskMove.rely (hlt : flow < bound) : Rely shares (shares.apply effect) bound flow :=
  (hmove.yields hfits hlt).rely (hmove.allowed hfits) (hmove.record_cases hfits hsound hcareful)

theorem TaskMove.fits (hsession : ∀ flow, shares.session = some flow → flow < bound) :
    next.Fits (shares.apply effect) number (bound + spawned.length) := by
  cases hmove with
  | stop next current hcurrent =>
    exact ⟨hsession current hcurrent, Function.update_self .., trivial⟩
  | clean hclean =>
    cases hclean with
    | relay => exact ⟨hfits.1, hfits.2.1, trivial⟩
    | taken copy hslot => exact ⟨hfits.1, hfits.2.1, (Shares.spent_setSlot none).mpr (Or.inr hslot)⟩
    | failed => exact hfits
    | _ => trivial
  | read next => exact fits_readStep hsound next
  | deleteCopy hdelete =>
    cases hdelete with
    | deleted hreply => exact (Shares.gone_delete hfits (hcareful hreply)).settled
    | failed => exact hfits
    | queue => exact Shares.settled_queueDelete hfits 0
    | _ => trivial
  | sweepRead now pending => exact fits_sweepStep hsound now pending
  | runDelete hrun =>
    cases hrun with
    | deleted hreply => exact Shares.gone_delete hfits (hcareful hreply)
    | refused => exact hfits
    | ended hmoved => exact ⟨hfits, fun hwanted => by cases hmoved.symm.trans hwanted.2⟩
    | giveUp => exact hfits
    | mark record hrecord hcopy =>
      subst hcopy
      exact ⟨rfl, hfits⟩
    | _ => trivial
  | _ => trivial

end Others

/-! ## The flows -/

section Flows

variable (hmove : FlowMove shares number reply stage effect stage')
  (hfits : stage.Fits shares number)
include hmove hfits

theorem FlowMove.allowed (hfree : shares.aborted number = false ∨ stage.awaits = false) :
    effect.Allowed shares bound := by
  cases hmove with
  | key previous copy =>
    rintro _ ⟨⟩
    exact hfits.2.2.1
  | send previous copy =>
    rcases hfree with hfree | hawaits
    · exact ⟨(hfits.2.2.2 hfree).2, hfits.2.1⟩
    · cases hawaits
  | forget | clear => exact fun _ hnone => by cases hnone
  | replace old => exact hfits.1.1 old rfl
  | record | sent => exact ⟨hfits.1, fun hclosed => by cases hclosed⟩
  | keepCopy record | deleteCopy record =>
    refine ⟨hfits.2.1, fun hclosed => ?_⟩
    rw [hfits.1] at hclosed
    cases hclosed
  | deletes record hdelete =>
    cases hdelete with
    | queue => exact hfits.1
    | put deleted =>
      rw [Effect.Allowed, ShareRecord.closed_copy]
      exact ⟨hfits.1.1, fun _ => hfits.2⟩
    | _ => trivial
  | _ => trivial

/-- A flow writes its own slot only, and only when the copy in it is named or
settled. -/
theorem FlowMove.frees (hfrees : effect.frees = some flow) : flow = number ∧
    ∀ copy, shares.slots number = some copy → shares.Named copy := by
  cases hmove with
  | key previous held =>
    cases hfrees
    refine ⟨rfl, fun copy hslot => ?_⟩
    cases hfits.1.symm.trans hslot
  | forget =>
    cases hfrees
    exact ⟨rfl, fun copy hslot => Or.inr (hfits copy hslot).settled⟩
  | clear held =>
    cases hfrees
    exact ⟨rfl, hfits.2⟩
  | deletes record hdelete => cases hdelete <;> cases hfrees
  | _ => cases hfrees

theorem FlowMove.named (hcalm : Calm shares (shares.apply effect) bound)
    (hnamed : shares.Named copy) : (shares.apply effect).Named copy := by
  rcases hnamed with ⟨found, hfound, rfl, hstanding⟩ | hsettled
  · have hown : ∀ {held}, shares.Own held → held = found.copy := fun hown =>
      (hown.2 found hfound hstanding).symm
    have hstill : shares.Live found.copy := ⟨found, hfound, rfl, hstanding⟩
    cases hmove with
    | record held =>
      rcases hfits.2.2 found hfound hstanding with hsettled | hcopy
      · exact Or.inr (hcalm.settled hsettled)
      · exact Or.inl ⟨_, rfl, hcopy.symm, rfl⟩
    | sent => exact Or.inl ⟨_, rfl, hown hfits, rfl⟩
    | keepCopy record | deleteCopy record =>
      exact Or.inl ⟨record, rfl, hown hfits.2, by rw [hfits.1]; rfl⟩
    | deletes record hdelete =>
      cases hdelete with
      | put => exact Or.inr (hown hfits.1 ▸ hcalm.settled hfits.2)
      | remove deleted hkeep => cases hkeep
      | _ => exact Or.inl hstill
    | _ => exact Or.inl hstill
  · exact Or.inr (hcalm.settled hsettled)

omit hfits in
theorem FlowMove.send_cases (hsend : effect = .send copy) :
    ∃ previous, stage = .opening previous copy ∧ stage' = some (.uploading previous copy) := by
  cases hmove with
  | send previous =>
    cases hsend
    exact ⟨previous, rfl, rfl⟩
  | deletes record hdelete => cases hdelete <;> cases hsend
  | _ => cases hsend

end Flows

theorem ShareState.live_of_standing {state : ShareState} (hstanding : state.standing = true) :
    state.live = true := by
  cases state with
  | opened | sent => rfl
  | _ => cases hstanding

theorem FlowMove.fits {later : Stage}
    (hmove : FlowMove shares number reply stage effect (some later))
    (hfits : stage.Fits shares number) (hsound : shares.Sound)
    (hfree : shares.aborted number = false ∨ stage.awaits = false)
    (hcareful : (Task.flow again stage).Careful shares reply) :
    later.Fits (shares.apply effect) number := by
  have hnow : ∀ {written : ShareRecord}, effect = .putShare written →
      (shares.apply effect).OwnRecord written.copy := by
    rintro written rfl record ⟨⟩ _
    rfl
  have hready : stage.awaits = true → shares.aborted number = false := fun hawaits =>
    hfree.resolve_right (by simp [hawaits])
  cases hmove with
  | take => exact hfits
  | readAgain | readFresh =>
    refine ⟨hfits, fun old hold => (hsound.record old (Shares.record_of_read hold)).1, ?_⟩
    intro record hrecord hstanding
    refine (if_neg fun hlost => ?_).trans hrecord
    cases (hcareful hlost record hrecord).symm.trans hstanding
  | reusable previous record hrecord hopen =>
    refine ⟨hfits.1, hfits.2, (hsound.record record hrecord).1, ?_⟩
    intro found hfound _
    rw [Shares.apply, hrecord] at hfound
    cases hfound
    rfl
  | notFound => exact ⟨hfits.1, hfits.2.1⟩
  | found =>
    refine ⟨hfits.2.2, fun held hslot => ?_⟩
    cases hfits.1.symm.trans hslot
  | make previous =>
    refine ⟨hfits.1, hfits.2, Nat.lt_succ_self _, ?_, ?_⟩
    · by_contra hspent
      exact lt_irrefl _ (hsound.spent shares.made (Bool.not_eq_false _ ▸ hspent))
    · intro flow hslot
      exact lt_irrefl _ (hsound.slots flow shares.made hslot)
  | key previous copy =>
    -- the copy is new, so no other flow has it in its slot
    obtain ⟨hslot, hknows, hmade, hspent, hnew⟩ := hfits
    refine ⟨⟨fun old hold => Shares.spent_apply (hknows.1 old hold), hknows.2⟩, hmade, ?_,
      fun _ => ⟨Function.update_self .., ?_⟩⟩
    · intro flow hheld
      by_contra hne
      exact hnew flow ((Function.update_of_ne hne ..).symm.trans hheld)
    · rw [Bool.eq_false_iff, Ne, Shares.spent_setSlot, hspent, hslot]
      simp
  | send previous copy =>
    obtain ⟨hslot, _⟩ := hfits.2.2.2 (hready rfl)
    exact ⟨⟨fun old hold => Shares.spent_apply (hfits.1.1 old hold), hfits.1.2⟩,
      Function.update_self .., fun held hheld => Option.some.inj (hheld.symm.trans hslot),
      fun _ => hslot⟩
  | answered => exact ⟨hfits.1, hfits.2.1, hfits.2.2.1⟩
  | notAnswered previous copy hreply =>
    intro held hslot
    rw [hfits.2.2.1 held hslot]
    exact ⟨hfits.2.1, hcareful hreply⟩
  | keep previous copy hkept =>
    refine ⟨hfits.2.1, hfits.2.2, fun record hrecord hstanding => Or.inr ?_⟩
    exact hkept record (hfits.1.2 record hrecord hstanding) (ShareState.live_of_standing hstanding)
  | replace old copy notBefore =>
    refine ⟨hfits.2.1, hfits.2.2, fun record hrecord hstanding => Or.inl ?_⟩
    cases hfits.1.2 record hrecord hstanding
    exact Shares.settled_queueDelete (hfits.1.1 _ rfl) notBefore
  | record copy =>
    refine ⟨⟨hfits.1, hnow rfl⟩, fun held hslot => ?_⟩
    exact Or.inl ⟨_, rfl, (hfits.2.1 held hslot).symm, rfl⟩
  | clear copy => exact ⟨Shares.spent_apply hfits.1.1, hfits.1.2⟩
  | sent => exact ⟨hfits.1, hnow rfl⟩
  | deleteCopy => exact ⟨hfits.2.1, hnow rfl⟩
  | download keep record hrecord hsent => exact ⟨hsent, hfits⟩
  | deletes record hdelete =>
    cases hdelete with
    | deleted hreply => exact ⟨hfits, (Shares.gone_delete hfits.1 (hcareful hreply)).settled⟩
    | failed => exact hfits
    | queue => exact ⟨hfits, Shares.settled_queueDelete hfits.1 0⟩
    | put | remove => trivial
  | fail | forget | tellUnanswered | keepCopy => trivial
  | _ => exact hfits

/-! ## Runs -/

theorem State.covered_of_next (htask : state.tasks[number]? = some task)
    (hholds : next.Holds (state.shares.apply effect) copy number) :
    (state.put number (effect, next, spawned)).Covered copy :=
  Or.inr ⟨number, next, State.task_put_self htask, hholds⟩

theorem Task.Holds.names (hholds : task.Holds shares copy number)
    (hswallows : task.swallows = true) : task.names = true := by
  cases task with
  | flow again stage =>
    cases stage with
    | replacing | recording => rfl
    | uploading => cases hswallows
    | _ => exact hholds.elim
  | cleaning stopped stage next =>
    cases stage with
    | queueing => rfl
    | _ => cases hswallows
  | _ => exact hholds.elim

/-- A task whose write failed goes on knowing what it knew. -/
theorem Task.fits_unwritten {result : Effect × Task × List Task} (hswallows : task.swallows = true)
    (hnames : task.names = false) (hfits : task.Fits shares number bound)
    (hrun : task.run shares number bound reply = some result) :
    result.2.1.Fits shares number bound ∧ result.2.2 = [] := by
  obtain ⟨effect, next, spawned⟩ := result
  rcases Task.run_cases hrun with ⟨again, stage, stage', rfl, _, hmove, hnext⟩ | hmove
  · cases hnext
    refine ⟨?_, rfl⟩
    cases hmove with
    | sent => exact hfits
    | fail => trivial
    | keep | replace | record => cases hnames
    | deletes record hdelete =>
      cases hdelete with
      | put | remove => trivial
      | queue => cases hnames
      | _ => cases hswallows
    | _ => cases hswallows
  · cases hmove with
    | clean hclean =>
      cases hclean with
      | queue => cases hnames
      | _ => cases hswallows
    | deleteCopy hdelete =>
      cases hdelete with
      | put | remove => exact ⟨trivial, rfl⟩
      | queue => cases hnames
      | _ => cases hswallows
    | runDelete hrun =>
      cases hrun with
      | finish | stop => exact ⟨trivial, rfl⟩
      | giveUp => exact ⟨hfits, rfl⟩
      | _ => cases hswallows
    | sweepEnd | sweepClear | putOwnerOnly => exact ⟨trivial, rfl⟩
    | _ => cases hswallows

section Runs

variable (hcustody : Custody state)
include hcustody

/-- A step of one task.  A copy is held after it, unless it was in the hands of
the task, or of a flow that the step aborts, or is the one that it sends. -/
theorem Custody.put (htask : state.tasks[number]? = some task)
    (hallowed : effect.Allowed state.shares state.tasks.length)
    (hturns : Turns (state.put number (effect, next, spawned)))
    (hlaunch : ∀ flow, effect = .launch flow → spawned ≠ [])
    (hflows : ∀ (other : ℕ) again stage, other ≠ number →
      state.tasks[other]? = some (.flow again stage) →
      stage.Fits (state.shares.apply effect) other)
    (hnext : next.Fits (state.shares.apply effect) number (state.tasks.length + spawned.length))
    (hspawned : ∀ (index : ℕ) made, spawned[index]? = some made →
      made.Fits (state.shares.apply effect) (state.tasks.length + index)
        (state.tasks.length + spawned.length))
    (hnamed : ∀ copy, state.shares.Named copy → (state.shares.apply effect).Named copy)
    (hcover : ∀ copy, (state.shares.apply effect).Wanted copy →
      (effect = .send copy ∨ task.Holds state.shares copy number ∨
        ∃ flow, state.shares.slots flow = some copy ∧ effect.frees = some flow) →
      (state.put number (effect, next, spawned)).Covered copy) :
    Custody (state.put number (effect, next, spawned)) := by
  have hlength : (state.put number (effect, next, spawned)).tasks.length =
      state.tasks.length + spawned.length := by
    simp [State.put]
  refine ⟨hturns, hallowed.sound hcustody.sound, ?_, ?_, ?_⟩
  · intro flow hsession
    rw [hlength]
    rcases hallowed.session hsession with hold | rfl
    · exact (hcustody.session flow hold).trans_le (Nat.le_add_right _ _)
    · cases hallowed
      exact Nat.lt_add_of_pos_right (List.length_pos_iff.mpr (hlaunch _ rfl))
  · intro other found hfound
    rw [hlength]
    rcases State.task_put_spawned hfound with ⟨rfl, rfl⟩ | ⟨hne, hold⟩ | ⟨hle, hnew⟩
    · exact hnext
    · cases found with
      | flow again stage => exact hflows other again stage hne hold
      | _ =>
        exact (hcustody.fits other _ hold).calm hallowed.calm (Nat.le_add_right _ _) (by simp)
    · rw [← Nat.add_sub_of_le hle]
      exact hspawned _ found hnew
  · intro copy hwanted
    by_cases hsend : effect = .send copy
    · exact hcover copy hwanted (Or.inl hsend)
    rcases hcustody.cover copy (hallowed.wanted hsend hwanted) with
      hbefore | ⟨other, found, hfound, hholds⟩
    · exact Or.inl (hnamed copy hbefore)
    -- another task still holds the copy, unless the step takes it from its slot
    by_cases hsame : other = number
    · subst hsame
      cases htask.symm.trans hfound
      exact hcover copy hwanted (Or.inr (Or.inl hholds))
    · rcases hholds.apply hallowed (List.getElem?_eq_some_iff.mp hfound).1
        (hcustody.fits other found hfound) with hstill | hfreed
      · exact Or.inr ⟨other, found, State.task_put_other hsame hfound, hstill⟩
      · exact hcover copy hwanted (Or.inr (Or.inr hfreed))

theorem Custody.task_put (htask : state.tasks[number]? = some task)
    (hmove : TaskMove state.shares state.tasks.length reply task effect next spawned)
    (hcareful : task.Careful state.shares reply)
    (hturns : Turns (state.put number (effect, next, spawned))) :
    Custody (state.put number (effect, next, spawned)) := by
  have hfits := hcustody.fits number task htask
  have hlt := (List.getElem?_eq_some_iff.mp htask).1
  have hrely : ∀ {flow}, flow < state.tasks.length → _ := fun hlt =>
    hmove.rely hfits hcustody.sound hcareful hlt
  refine hcustody.put htask (hmove.allowed hfits) hturns ?_ ?_
    (hmove.fits hfits hcustody.sound hcareful hcustody.session)
    (fun index made => hmove.spawned_fits hcustody.session) (fun copy => (hrely hlt).named) ?_
  · rintro flow rfl
    cases hmove with
    | launch => simp
    | clean hclean => cases hclean
    | deleteCopy hdelete => cases hdelete
    | runDelete hrun => cases hrun
  · intro other again stage _ hfound
    exact (hcustody.fits other _ hfound).rely (hrely (List.getElem?_eq_some_iff.mp hfound).1)
  rintro copy hwanted (rfl | hholds | ⟨flow, hslot, hfrees⟩)
  · exact (hmove.yields hfits hlt).elim
  · cases hmove with
    | clean hclean =>
      cases hclean with
      | relay | failed => exact State.covered_of_next htask hholds
      | free hslot => cases hslot.symm.trans hholds
      | taken old hslot =>
        exact State.covered_of_next htask (Option.some.inj (hslot.symm.trans hholds))
      | deleted old hreply =>
        cases hholds
        exact absurd hwanted (Shares.not_wanted_delete (hcareful hreply))
      | queue old =>
        cases hholds
        exact Or.inl (Or.inr (Shares.settled_queueDelete hfits.2.2 0))
    | _ => exact hholds.elim
  -- the step stops a flow, whose slot its clean-up takes over, or empties the slot
  · cases hmove with
    | startOver again =>
      cases hfrees
      exact Or.inr ⟨state.tasks.length, .cleaning flow .relay .nothing, by simp [State.put], hslot⟩
    | stop next =>
      cases hfrees
      exact State.covered_of_next htask hslot
    | clean hclean =>
      cases hclean with
      | taken old hheld =>
        cases hfrees
        exact State.covered_of_next htask (Option.some.inj (hheld.symm.trans hslot))
      | _ => cases hfrees
    | deleteCopy hdelete => cases hdelete <;> cases hfrees
    | runDelete hrun => cases hrun <;> cases hfrees
    | _ => cases hfrees

theorem Custody.flow_put (htask : state.tasks[number]? = some (.flow again stage))
    (hfree : state.shares.aborted number = false ∨ stage.awaits = false)
    (hmove : FlowMove state.shares number reply stage effect stage')
    (hcareful : (Task.flow again stage).Careful state.shares reply)
    (hturns : Turns (state.put number (effect, Task.ofFlow again stage', []))) :
    Custody (state.put number (effect, Task.ofFlow again stage', [])) := by
  have hfits : stage.Fits state.shares number := hcustody.fits number _ htask
  have hany : ∀ bound, effect.Allowed state.shares bound := fun _ => hmove.allowed hfits hfree
  have hallowed := hany state.tasks.length
  have hnamed : ∀ copy, state.shares.Named copy → (state.shares.apply effect).Named copy :=
    fun copy => hmove.named hfits hallowed.calm
  refine hcustody.put htask hallowed hturns ?_ ?_ ?_ (by simp) hnamed ?_
  · rintro flow rfl
    exact absurd (hany (flow + 1)) (Nat.ne_of_lt (Nat.lt_succ_self flow))
  · intro other again' found hne hfound
    cases hcustody.turns.others_wait htask hmove hne hfound
    refine Eq.trans (hallowed.slots (List.getElem?_eq_some_iff.mp hfound).1 ?_)
      (hcustody.fits other _ hfound)
    exact fun hfrees => hne (hmove.frees hfits hfrees).1
  · cases stage' with
    | none => trivial
    | some later => exact hmove.fits hfits hcustody.sound hfree hcareful
  rintro copy hwanted (hsend | hholds | ⟨flow, hslot, hfrees⟩)
  · obtain ⟨previous, rfl, rfl⟩ := hmove.send_cases hsend
    subst hsend
    exact State.covered_of_next htask ⟨rfl, hfree.resolve_right (by simp [Stage.awaits])⟩
  · cases hmove with
    | answered => exact State.covered_of_next htask hholds.1
    | notAnswered previous held hreply =>
      cases hholds.1
      exact absurd hwanted (hcareful hreply)
    | keep | replace => exact State.covered_of_next htask hholds
    | record held =>
      cases hholds
      exact Or.inl (Or.inl ⟨_, rfl, rfl, rfl⟩)
    | fail stage hfails =>
      cases stage with
      | uploading | replacing | recording => exact hfails.elim
      | _ => exact hholds.elim
    | _ => exact hholds.elim
  · obtain ⟨rfl, hslots⟩ := hmove.frees hfits hfrees
    exact Or.inl (hnamed copy (hslots copy hslot))

theorem Custody.start (hopening : task.Opening state.shares) (hturns : Turns (state.start task)) :
    Custody (state.start task) := by
  have hlength : (state.start task).tasks.length = state.tasks.length + 1 := by
    simp [State.start]
  refine ⟨hturns, hcustody.sound, ?_, ?_, ?_⟩
  · intro flow hsession
    rw [hlength]
    exact (hcustody.session flow hsession).trans (Nat.lt_succ_self _)
  · intro other found hfound
    rcases State.task_start hfound with hold | rfl
    · have hfits := hcustody.fits other found hold
      cases found with
      | flow => exact hfits
      | _ =>
        exact hfits.calm ⟨id, fun _ => id, fun _ => id, fun _ => id⟩ (hlength ▸ Nat.le_succ _)
          (by simp)
    · cases hopening with
      | recover hrecord => exact (hcustody.sound.record _ hrecord).1
      | runDelete copy hqueued => exact hcustody.sound.deletes copy hqueued
      | _ => trivial
  · intro copy hwanted
    refine (hcustody.cover copy hwanted).imp_right ?_
    rintro ⟨other, found, hfound, hholds⟩
    refine ⟨other, found, ?_, hholds⟩
    rw [State.start, List.getElem?_append_left (List.getElem?_eq_some_iff.mp hfound).1]
    exact hfound

theorem Custody.outside (houtside : effect.Outside state.shares)
    (hturns : Turns (state.write effect)) : Custody (state.write effect) := by
  have hallowed : effect.Allowed state.shares state.tasks.length := by
    cases houtside with
    | store copy hflight => exact hflight
    | _ => trivial
  have hrely : ∀ flow, Rely state.shares (state.shares.apply effect) state.tasks.length flow := by
    intro flow
    cases houtside <;> exact Effect.Yields.rely trivial hallowed (Or.inl rfl)
  refine ⟨hturns, hallowed.sound hcustody.sound, ?_, ?_, ?_⟩
  · cases houtside <;> exact hcustody.session
  · intro other found hfound
    have hfits := hcustody.fits other found hfound
    cases found with
    | flow => exact hfits.rely (hrely other)
    | _ => exact hfits.calm hallowed.calm le_rfl (by simp)
  · intro copy hwanted
    have hnone : effect.frees = none ∧ effect ≠ .send copy := by
      cases houtside <;> simp [Effect.frees]
    rcases hcustody.cover copy (hallowed.wanted hnone.2 hwanted) with
      hnamed | ⟨other, found, hfound, hholds⟩
    · exact Or.inl ((hrely 0).named hnamed)
    · rcases hholds.apply hallowed (List.getElem?_eq_some_iff.mp hfound).1
        (hcustody.fits other found hfound) with hstill | ⟨flow, _, hfrees⟩
      · exact Or.inr ⟨other, found, hfound, hstill⟩
      · cases hnone.1.symm.trans hfrees

theorem Custody.step (hguard : CarefulStep state action)
    (hstep : state.step action = some after) : Custody after := by
  have hturns := hcustody.turns.step hstep
  cases State.step_cases hstep with
  | opens task hopening => exact hcustody.start hopening hturns
  | flow htask hfree hmove => exact hcustody.flow_put htask hfree hmove (hguard _ htask) hturns
  | task htask hmove => exact hcustody.task_put htask hmove (hguard _ htask) hturns
  | @unwritten number _ task next htask hswallows hrun =>
    obtain ⟨effect, next, spawned⟩ := next
    have hnames : task.names = false := hguard _ htask
    obtain ⟨hnext, rfl⟩ := Task.fits_unwritten hswallows hnames (hcustody.fits _ _ htask) hrun
    refine hcustody.put htask trivial hturns (by simp) ?_ hnext (by simp) (fun _ => id) ?_
    · exact fun other again stage _ hfound => hcustody.fits other _ hfound
    · rintro copy _ (hnone | hholds | ⟨_, _, hnone⟩)
      · cases hnone
      · cases hnames.symm.trans (hholds.names hswallows)
      · cases hnone
  | @drop number left again stage htask haborted hawaits =>
    have hallowed : (Effect.leave number (State.descriptor stage left)).Allowed state.shares
        state.tasks.length := trivial
    have hrely : ∀ flow, Rely state.shares (state.shares.apply (.leave number _))
        state.tasks.length flow := fun flow => Effect.Yields.rely trivial hallowed (Or.inl rfl)
    refine hcustody.put htask hallowed hturns (by simp) ?_ trivial (by simp)
      (fun _ => (hrely 0).named) ?_
    · exact fun other again stage _ hfound => (hcustody.fits other _ hfound).rely (hrely other)
    · rintro copy _ (hnone | hholds | ⟨_, _, hnone⟩)
      · cases hnone
      · -- an aborted flow that waits holds nothing any more
        cases stage with
        | uploading => cases haborted.symm.trans hholds.2
        | replacing | recording => cases hawaits
        | _ => exact hholds.elim
      · cases hnone
  | outside effect houtside => exact hcustody.outside houtside hturns
  | restart =>
    obtain ⟨hspent, _, hrecord, hdeletes⟩ := hcustody.sound
    refine ⟨hturns, ⟨hspent, by simp [Shares.apply], hrecord, hdeletes⟩, by simp [Shares.apply],
      by simp, fun copy hwanted => Or.inl ?_⟩
    rcases hcustody.cover copy hwanted with hnamed | ⟨other, found, hfound, hholds⟩
    · exact hnamed
    · exact absurd hholds (hguard other found copy hfound)

end Runs

theorem Custody.new : Custody {} := by
  refine ⟨?_, ⟨?_, ?_, ?_, ?_⟩, ?_, ?_, ?_⟩ <;> simp [Turns, Shares.Wanted]

end ShareFlows
end Wildbloom
