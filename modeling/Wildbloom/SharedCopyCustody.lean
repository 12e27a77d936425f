import Wildbloom.ShareFlowSteps

/-!
# What tasks know of the shared copies

A copy that a node has stored, or may store by an upload under way, and has not
moved to its owner is wanted.  It is named by the file's record or by a queued
deletion, or a task holds it: a flow from the moment it sends the upload until
the record names the copy, a clean-up until the copy is deleted or queued.  Each
task knows something of the record, of the slots and of the copies it works on,
and the effects of the other tasks leave that as it is: a copy is sent once, so
a spent copy that is not wanted stays so.
-/

namespace Wildbloom
namespace ShareFlows

variable (shares : Shares) (copy number : ℕ)

def ShareState.standing : ShareState → Bool
  | .opened => true
  | .sent => true
  | _ => false

namespace Shares

/-- The copy is stored, or may be by an upload under way, and was not moved to
the node's owner. -/
def Wanted : Prop :=
  (shares.blobs copy = true ∨ shares.inFlight copy = true) ∧ shares.moved copy = false

def Backed : Prop :=
  shares.Wanted copy → (shares.deletes copy).isSome = true

/-- The copy is not wanted, and since it is spent it never will be. -/
def Gone : Prop :=
  shares.spent copy = true ∧ ¬ shares.Wanted copy

def Settled : Prop :=
  shares.spent copy = true ∧ shares.Backed copy

def Live : Prop :=
  ∃ record, shares.record = some record ∧ record.copy = copy ∧ record.state.standing = true

/-- A standing record names the copy, or it needs none. -/
def Named : Prop :=
  shares.Live copy ∨ shares.Settled copy

def OwnRecord : Prop :=
  ∀ record, shares.record = some record → record.state.standing = true → record.copy = copy

def Own : Prop :=
  shares.spent copy = true ∧ shares.OwnRecord copy

/-- A standing record is the one that the flow has read. -/
def Knows (previous : Option ShareRecord) : Prop :=
  (∀ old, previous = some old → shares.spent old.copy = true) ∧
    ∀ record, shares.record = some record → record.state.standing = true → previous = some record

def SlotOnly : Prop :=
  ∀ held, shares.slots number = some held → held = copy

end Shares

/-- The task holds the copy: it will record it, delete it or queue its
deletion. -/
def Task.Holds : Task → Prop
  | .flow _ (.uploading _ held) =>
    held = copy ∧ shares.aborted number = false
  | .flow _ (.replacing _ held) => held = copy
  | .flow _ (.recording held) => held = copy
  | .cleaning stopped .relay _ => shares.slots stopped = some copy
  | .cleaning stopped .slot _ => shares.slots stopped = some copy
  | .cleaning _ (.deleting held) _ => held = copy
  | .cleaning _ (.queueing held) _ => held = copy
  | _ => False

/-! ## What tasks know -/

def Stage.Fits : Stage → Prop
  | .waiting => shares.slots number = none
  | .reading => shares.slots number = none
  | .reusing previous => shares.slots number = none ∧ shares.Knows previous
  | .heading previous copy =>
    shares.slots number = none ∧ shares.Knows previous ∧ shares.Own copy
  | .making previous => shares.slots number = none ∧ shares.Knows previous
  | .keying previous copy =>
    shares.slots number = none ∧ shares.Knows previous ∧ copy < shares.made ∧
      shares.spent copy = false ∧ ∀ flow, shares.slots flow ≠ some copy
  | .opening previous copy =>
    shares.Knows previous ∧ copy < shares.made ∧
      (∀ flow, shares.slots flow = some copy → flow = number) ∧
      (shares.aborted number = false →
        shares.slots number = some copy ∧ shares.spent copy = false)
  | .uploading previous copy =>
    shares.Knows previous ∧ shares.spent copy = true ∧ shares.SlotOnly copy number ∧
      (shares.aborted number = false → shares.slots number = some copy)
  | .notUploaded => ∀ copy, shares.slots number = some copy → shares.Gone copy
  | .replacing previous copy =>
    shares.Knows previous ∧ shares.spent copy = true ∧ shares.SlotOnly copy number
  | .recording copy =>
    shares.spent copy = true ∧ shares.SlotOnly copy number ∧
      ∀ record, shares.record = some record → record.state.standing = true →
        shares.Settled record.copy ∨ record.copy = copy
  | .clearing copy =>
    shares.Own copy ∧ ∀ held, shares.slots number = some held → shares.Named held
  | .pairing copy => shares.Own copy
  | .sending copy _ _ => shares.Own copy
  | .awaitingReceipt copy _ _ => shares.Own copy
  | .recordSent copy _ _ => shares.Own copy
  | .awaitingReply copy _ => shares.Own copy
  | .downloaded copy _ => shares.Own copy
  | .recordDownload record _ => record.state = .sent ∧ shares.Own record.copy
  | .deleting record (.writing _) => shares.Own record.copy ∧ shares.Settled record.copy
  | .deleting record _ => shares.Own record.copy
  | .closing => True

def CleanStage.Fits : CleanStage → Prop
  | .deleting copy => shares.spent copy = true
  | .queueing copy => shares.spent copy = true
  | _ => True

def RunStage.Fits : RunStage → Prop
  | .finishing _ => shares.Gone copy
  | .marking => shares.Gone copy
  | _ => shares.spent copy = true

/-- What a task knows; `bound` is the number of tasks. -/
def Task.Fits (bound : ℕ) : Task → Prop
  | .flow _ stage => stage.Fits shares number
  | .cleaning stopped stage _ =>
    stopped < bound ∧ shares.aborted stopped = true ∧ stage.Fits shares
  | .deleteCopy record _ (.writing _) => shares.Settled record.copy
  | .deleteCopy record _ _ => shares.spent record.copy = true
  | .removeQueue record => shares.spent record.copy = true
  | .sweepEnd _ record => shares.Settled record.copy
  | .sweepClear record => shares.Settled record.copy
  | .runDelete copy stage => stage.Fits shares copy
  | .putOwnerOnly record => record.state = .ownerOnly ∧ shares.Gone record.copy
  | _ => True

/-- Spent copies and those in slots were made, a copy that the record or a
queued deletion names is spent, and a closed record's copy is settled. -/
structure Shares.Sound : Prop where
  spent : ∀ copy, shares.spent copy = true → copy < shares.made
  slots : ∀ flow copy, shares.slots flow = some copy → copy < shares.made
  record : ∀ record, shares.record = some record → shares.spent record.copy = true ∧
    (record.state.standing = false → shares.Settled record.copy)
  deletes : ∀ copy, (shares.deletes copy).isSome = true → shares.spent copy = true

variable {shares copy number} {before later : Shares} {state after : State} {action : Action}
  {effect : Effect} {task next : Task} {spawned : List Task} {reply : Reply}
  {stage : Stage} {stage' : Option Stage} {again : Bool} {previous : Option ShareRecord}
  {bound bound' flow : ℕ}

/-! ## What other steps leave -/

/-- A spent copy is not wanted again, and a queued one stays queued while it is
wanted. -/
structure Calm (before later : Shares) (bound : ℕ) : Prop where
  spent : ∀ {copy}, before.spent copy = true → later.spent copy = true
  wanted : ∀ {copy}, before.spent copy = true → later.Wanted copy → before.Wanted copy
  queued : ∀ {copy}, later.Wanted copy → (before.deletes copy).isSome = true →
    (later.deletes copy).isSome = true
  aborted : ∀ {flow}, flow < bound → before.aborted flow = true → later.aborted flow = true

section

variable (hcalm : Calm before later bound)
include hcalm

theorem Calm.settled (hsettled : before.Settled copy) : later.Settled copy :=
  ⟨hcalm.spent hsettled.1, fun hwanted =>
    hcalm.queued hwanted (hsettled.2 (hcalm.wanted hsettled.1 hwanted))⟩

theorem Calm.gone (hgone : before.Gone copy) : later.Gone copy :=
  ⟨hcalm.spent hgone.1, fun hwanted => hgone.2 (hcalm.wanted hgone.1 hwanted)⟩

theorem Task.Fits.calm (hfits : task.Fits before number bound) (hle : bound ≤ bound')
    (hflow : ∀ again stage, task ≠ .flow again stage) : task.Fits later number bound' := by
  cases task with
  | flow again stage => exact absurd rfl (hflow again stage)
  | cleaning stopped stage next =>
    refine ⟨hfits.1.trans_le hle, hcalm.aborted hfits.1 hfits.2.1, ?_⟩
    cases stage with
    | deleting | queueing => exact hcalm.spent hfits.2.2
    | _ => trivial
  | deleteCopy record keepRecord stage =>
    cases stage with
    | writing => exact hcalm.settled hfits
    | _ => exact hcalm.spent hfits
  | runDelete copy stage =>
    cases stage with
    | finishing | marking => exact hcalm.gone hfits
    | _ => exact hcalm.spent hfits
  | removeQueue => exact hcalm.spent hfits
  | sweepEnd | sweepClear => exact hcalm.settled hfits
  | putOwnerOnly => exact ⟨hfits.1, hcalm.gone hfits.2⟩
  | _ => trivial

end

/-- What the steps of the other tasks leave to a flow: no new record stands, a
copy stays named, and slots are only emptied, the flow's own only after it was
aborted. -/
structure Rely (before later : Shares) (bound number : ℕ) : Prop
    extends Calm before later bound where
  record : ∀ {record}, later.record = some record → record.state.standing = true →
    before.record = some record
  named : ∀ {copy}, before.Named copy → later.Named copy
  slots : ∀ {flow copy}, later.slots flow = some copy → before.slots flow = some copy
  kept : later.aborted number = false →
    before.aborted number = false ∧ later.slots number = before.slots number
  unspent : ∀ {copy}, before.spent copy = false → later.spent copy = true →
    ∃ flow, before.slots flow = some copy ∧ later.slots flow = none
  made : before.made ≤ later.made

section Relying

variable (hrely : Rely before later bound number)
include hrely

theorem Rely.knows (hknows : before.Knows previous) : later.Knows previous :=
  ⟨fun old hold => hrely.spent (hknows.1 old hold),
    fun record hrecord hstanding => hknows.2 record (hrely.record hrecord hstanding) hstanding⟩

theorem Rely.own (hown : before.Own copy) : later.Own copy :=
  ⟨hrely.spent hown.1,
    fun record hrecord hstanding => hown.2 record (hrely.record hrecord hstanding) hstanding⟩

theorem Rely.free (hfree : before.slots number = none) : later.slots number = none := by
  cases hslot : later.slots number with
  | none => rfl
  | some copy => cases hfree.symm.trans (hrely.slots hslot)

theorem Rely.slotOnly (honly : before.SlotOnly copy number) : later.SlotOnly copy number :=
  fun held hslot => honly held (hrely.slots hslot)

theorem Stage.Fits.rely (hfits : stage.Fits before number) : stage.Fits later number := by
  cases stage with
  | waiting | reading => exact hrely.free hfits
  | reusing | making => exact ⟨hrely.free hfits.1, hrely.knows hfits.2⟩
  | heading => exact ⟨hrely.free hfits.1, hrely.knows hfits.2.1, hrely.own hfits.2.2⟩
  | keying previous copy =>
    obtain ⟨hfree, hknows, hmade, hspent, hnew⟩ := hfits
    refine ⟨hrely.free hfree, hrely.knows hknows, hmade.trans_le hrely.made, ?_,
      fun flow hslot => hnew flow (hrely.slots hslot)⟩
    by_contra hnow
    obtain ⟨flow, hslot, _⟩ := hrely.unspent hspent (Bool.not_eq_false _ ▸ hnow)
    exact hnew flow hslot
  | opening previous copy =>
    obtain ⟨hknows, hmade, hmine, hfree⟩ := hfits
    refine ⟨hrely.knows hknows, hmade.trans_le hrely.made,
      fun flow hslot => hmine flow (hrely.slots hslot), fun haborted => ?_⟩
    obtain ⟨hbefore, hkept⟩ := hrely.kept haborted
    obtain ⟨hslot, hspent⟩ := hfree hbefore
    refine ⟨hkept.trans hslot, ?_⟩
    by_contra hnow
    obtain ⟨flow, hheld, hnone⟩ := hrely.unspent hspent (Bool.not_eq_false _ ▸ hnow)
    cases hmine flow hheld
    cases hnone.symm.trans (hkept.trans hheld)
  | uploading previous copy =>
    obtain ⟨hknows, hspent, honly, hfree⟩ := hfits
    refine ⟨hrely.knows hknows, hrely.spent hspent, hrely.slotOnly honly, fun haborted => ?_⟩
    obtain ⟨hbefore, hkept⟩ := hrely.kept haborted
    exact hkept.trans (hfree hbefore)
  | notUploaded => exact fun copy hslot => hrely.gone (hfits copy (hrely.slots hslot))
  | replacing =>
    exact ⟨hrely.knows hfits.1, hrely.spent hfits.2.1, hrely.slotOnly hfits.2.2⟩
  | recording copy =>
    refine ⟨hrely.spent hfits.1, hrely.slotOnly hfits.2.1, fun record hrecord hstanding => ?_⟩
    exact (hfits.2.2 record (hrely.record hrecord hstanding) hstanding).imp_left hrely.settled
  | clearing =>
    exact ⟨hrely.own hfits.1, fun held hslot => hrely.named (hfits.2 held (hrely.slots hslot))⟩
  | recordDownload => exact ⟨hfits.1, hrely.own hfits.2⟩
  | deleting record stage =>
    cases stage with
    | writing => exact ⟨hrely.own hfits.1, hrely.settled hfits.2⟩
    | _ => exact hrely.own hfits
  | closing => trivial
  | _ => exact hrely.own hfits

end Relying

/-! ## Effects -/

/-- The writes that keep custody; `bound` is the number of the next flow. -/
def Effect.Allowed (shares : Shares) (bound : ℕ) : Effect → Prop
  | .launch flow => flow = bound
  | .setSlot _ held => ∀ copy, held = some copy → copy < shares.made
  | .send copy => shares.spent copy = false ∧ copy < shares.made
  | .store copy => shares.inFlight copy = true
  | .putShare record => shares.spent record.copy = true ∧
    (record.state.standing = false → shares.Settled record.copy)
  | .queueDelete copy _ => shares.spent copy = true
  | .finishDelete copy => ¬ shares.Wanted copy
  | .restart => False
  | _ => True

/-- The flow that is aborted, or whose slot is written. -/
def Effect.frees : Effect → Option ℕ
  | .abort flow => some flow
  | .setSlot flow _ => some flow
  | _ => none

theorem Shares.spent_setSlot (held : Option ℕ) :
    (shares.apply (.setSlot flow held)).spent copy = true ↔
      shares.spent copy = true ∨ shares.slots flow = some copy := by
  simp only [Shares.apply]
  cases shares.slots flow with
  | none => simp
  | some old =>
    simp only [Option.elim_some, Function.update_apply, Option.some.injEq]
    grind

theorem Shares.spent_apply (hspent : shares.spent copy = true) :
    (shares.apply effect).spent copy = true := by
  cases effect with
  | setSlot flow held => exact (Shares.spent_setSlot held).mpr (Or.inl hspent)
  | send held => simp [Shares.apply, Function.update_apply, hspent]
  | _ => exact hspent

section Allowed

variable (hallowed : effect.Allowed shares bound)
include hallowed

namespace Effect.Allowed

theorem wanted (hsend : effect ≠ .send copy) (hwanted : (shares.apply effect).Wanted copy) :
    shares.Wanted copy := by
  obtain ⟨halive, hmoved⟩ := hwanted
  cases effect with simp only [Shares.apply, Function.update_apply] at halive hmoved
  | store held => grind [Shares.Wanted, Effect.Allowed]
  | _ => grind [Shares.Wanted]

theorem queued (hwanted : (shares.apply effect).Wanted copy)
    (hqueued : (shares.deletes copy).isSome = true) :
    ((shares.apply effect).deletes copy).isSome = true := by
  cases effect with
  | queueDelete | finishDelete =>
    simp only [Shares.apply, Function.update_apply]
    grind [Shares.Wanted, Effect.Allowed, Shares.apply]
  | _ => exact hqueued

theorem aborted (hlt : flow < bound) (hother : effect.frees ≠ some flow) :
    (shares.apply effect).aborted flow = shares.aborted flow := by
  cases effect with
  | launch | abort =>
    simp only [Shares.apply, Function.update_apply, Effect.Allowed, Effect.frees] at *
    grind
  | restart => exact hallowed.elim
  | _ => rfl

theorem slots (hlt : flow < bound) (hother : effect.frees ≠ some flow) :
    (shares.apply effect).slots flow = shares.slots flow := by
  cases effect with
  | launch | setSlot =>
    simp only [Shares.apply, Function.update_apply, Effect.Allowed, Effect.frees] at *
    grind
  | restart => exact hallowed.elim
  | _ => rfl

theorem session (hsession : (shares.apply effect).session = some flow) :
    shares.session = some flow ∨ effect = .launch flow := by
  cases effect with
  | launch => exact Or.inr (congrArg _ (Option.some.inj hsession))
  | abort => cases hsession
  | restart => exact hallowed.elim
  | _ => exact Or.inl hsession

theorem calm : Calm shares (shares.apply effect) bound := by
  refine ⟨Shares.spent_apply, fun hspent => hallowed.wanted ?_, hallowed.queued, ?_⟩
  · rintro rfl
    cases hallowed.1.symm.trans hspent
  · intro flow hlt haborted
    by_cases hself : effect.frees = some flow
    · cases effect <;> cases hself
      · exact Function.update_self ..
      · exact haborted
    · exact (hallowed.aborted hlt hself).trans haborted

theorem sound (hsound : shares.Sound) : (shares.apply effect).Sound := by
  obtain ⟨hspent, hslots, hrecord, hdeletes⟩ := hsound
  have hcalm := hallowed.calm
  refine ⟨?_, ?_, ?_, ?_⟩
  · cases effect with
    | setSlot flow held =>
      intro copy hnow
      exact ((Shares.spent_setSlot held).mp hnow).elim (hspent copy) (hslots flow copy)
    | send =>
      simp only [Shares.apply, Function.update_apply, Effect.Allowed] at *
      grind
    | make => exact fun copy h => (hspent copy h).trans (Nat.lt_succ_self _)
    | _ => exact hspent
  · cases effect with
    | setSlot | launch =>
      simp only [Shares.apply, Function.update_apply, Effect.Allowed] at *
      grind
    | make => exact fun flow copy h => (hslots flow copy h).trans (Nat.lt_succ_self _)
    | restart => exact hallowed.elim
    | _ => exact hslots
  · have hstill : ∀ record, shares.record = some record →
        (shares.apply effect).spent record.copy = true ∧ (record.state.standing = false →
          (shares.apply effect).Settled record.copy) := fun record hfound =>
      ⟨hcalm.spent (hrecord record hfound).1,
        fun hclosed => hcalm.settled ((hrecord record hfound).2 hclosed)⟩
    cases effect with
    | putShare written =>
      rintro record ⟨⟩
      exact ⟨hallowed.1, fun hclosed => hcalm.settled (hallowed.2 hclosed)⟩
    | deleteShare =>
      intro record hnone
      cases hnone
    | _ => exact hstill
  · intro copy hqueued
    refine hcalm.spent ?_
    cases effect with
    | queueDelete | finishDelete =>
      simp only [Shares.apply, Function.update_apply, Effect.Allowed] at *
      grind
    | _ => exact hdeletes copy hqueued

end Effect.Allowed

/-- An effect takes a copy out of a task's hands only by aborting its flow or by
writing over the slot. -/
theorem Task.Holds.apply (hlt : number < bound) (hfits : task.Fits shares number bound)
    (hholds : task.Holds shares copy number) :
    task.Holds (shares.apply effect) copy number ∨
      ∃ flow, shares.slots flow = some copy ∧ effect.frees = some flow := by
  cases task with
  | flow again stage =>
    cases stage with
    | uploading previous held =>
      obtain ⟨rfl, hfree⟩ := hholds
      by_cases hself : effect.frees = some number
      · exact Or.inr ⟨number, hfits.2.2.2 hfree, hself⟩
      · exact Or.inl ⟨rfl, (hallowed.aborted hlt hself).trans hfree⟩
    | _ => exact Or.inl hholds
  | cleaning stopped stage next =>
    cases stage with
    | relay | slot =>
      by_cases hself : effect.frees = some stopped
      · exact Or.inr ⟨stopped, hholds, hself⟩
      · exact Or.inl ((hallowed.slots hfits.1 hself).trans hholds)
    | _ => exact Or.inl hholds
  | _ => exact Or.inl hholds

end Allowed

/-- What a task that is no flow may do beside the flow of that number. -/
def Effect.Yields (shares : Shares) (number : ℕ) : Effect → Prop
  | .launch flow => flow ≠ number
  | .setSlot flow held => held = none ∧ shares.aborted flow = true
  | .make => False
  | .send _ => False
  | _ => True

theorem Effect.Yields.rely (hyields : effect.Yields shares number)
    (hallowed : effect.Allowed shares bound)
    (hrecord : (shares.apply effect).record = shares.record ∨
      (∀ record, (shares.apply effect).record = some record → record.state.standing = false) ∧
        ∀ copy, shares.Live copy → (shares.apply effect).Settled copy) :
    Rely shares (shares.apply effect) bound number := by
  have hcalm := hallowed.calm
  have hold : ∀ {record}, (shares.apply effect).record = some record →
      record.state.standing = true → shares.record = some record := by
    intro record hfound hstanding
    rcases hrecord with hsame | ⟨hclosed, _⟩
    · exact hsame.symm.trans hfound
    · cases (hclosed record hfound).symm.trans hstanding
  have hnamed : ∀ {copy}, shares.Named copy → (shares.apply effect).Named copy := by
    rintro copy (hlive | hsettled)
    · refine hrecord.elim (fun hsame => Or.inl ?_) fun hclosed => Or.inr (hclosed.2 copy hlive)
      rwa [Shares.Live, hsame]
    · exact Or.inr (hcalm.settled hsettled)
  cases effect with
  | launch flow =>
    refine ⟨hcalm, hold, hnamed, ?_, ?_, ?_, le_rfl⟩ <;>
    · simp only [Shares.apply, Function.update_apply, Effect.Yields] at *
      grind
  | abort flow =>
    refine ⟨hcalm, hold, hnamed, id, ?_, ?_, le_rfl⟩ <;>
    · simp only [Shares.apply, Function.update_apply]
      grind
  | setSlot flow held =>
    obtain ⟨rfl, haborted⟩ := hyields
    refine ⟨hcalm, hold, hnamed, ?_, ?_, ?_, le_rfl⟩
    · simp only [Shares.apply, Function.update_apply]
      grind
    · simp only [Shares.apply, Function.update_apply]
      grind
    · intro copy hbefore hnow
      rcases (Shares.spent_setSlot none).mp hnow with hspent | hslot
      · cases hbefore.symm.trans hspent
      · exact ⟨flow, hslot, Function.update_self ..⟩
  | make | send | restart => contradiction
  | _ => exact ⟨hcalm, hold, hnamed, id, fun h => ⟨h, rfl⟩, by simp +contextual [Shares.apply],
      le_rfl⟩

end ShareFlows
end Wildbloom
