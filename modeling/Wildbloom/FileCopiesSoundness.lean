import Wildbloom.FileCopiesModel
import Wildbloom.GuardedRuns

/-!
# What the tasks of a computer know of its files

A task reads a row once and then works on what it read, while other tasks write
the row or delete it.  What stays true of the row is that it passes every test
that the writes keep, or that it was removed and has a tombstone: no id comes
back after its tombstone.  From this every effect of a step is lawful: a row is
inserted only under an unknown id, a row is deleted only after its tombstone,
and an upload lands only for a file that has been kept.
-/

namespace Wildbloom
namespace FileCopies

open FileEntries (LocalState)

variable {Id Origin : Type}

/-! ## Tests that the writes of a row keep -/

structure Row.Lasting (test : Row Id → Prop) : Prop where
  setLocal : ∀ row state, state ≠ .encrypting → test row → test (row.setLocal state)
  setOnline : ∀ row state, test row → test (row.setOnline state)
  setEnvelope : ∀ row, test row → test row.setEnvelope

namespace Row

def Known (_ : Row Id) : Prop := True

def Begun (row : Row Id) : Prop := row.localState ≠ .encrypting

def Enveloped (row : Row Id) : Prop := row.hasEnvelope = true

def Kept (row : Row Id) : Prop := row.Enveloped ∧ row.Begun

theorem lasting_known : Lasting (Known : Row Id → Prop) :=
  ⟨fun _ _ _ _ => trivial, fun _ _ _ => trivial, fun _ _ => trivial⟩

theorem lasting_begun : Lasting (Begun : Row Id → Prop) :=
  ⟨fun _ _ hstate _ => hstate, fun _ _ hbegun => hbegun, fun _ hbegun => hbegun⟩

theorem lasting_enveloped : Lasting (Enveloped : Row Id → Prop) :=
  ⟨fun _ _ _ henveloped => henveloped, fun _ _ henveloped => henveloped, fun _ _ => rfl⟩

theorem lasting_kept : Lasting (Kept : Row Id → Prop) :=
  ⟨fun row state hstate hkept =>
      ⟨lasting_enveloped.setLocal row state hstate hkept.1, hstate⟩,
    fun _ _ hkept => hkept, fun _ hkept => ⟨rfl, hkept.2⟩⟩

theorem begun_of_due {row : Row Id} (hdue : row.due = true) : row.Begun := by
  intro hencrypting
  simp [due, hencrypting] at hdue

end Row

def Files.Holds (files : Files Id Origin) (id : Id) (test : Row Id → Prop) : Prop :=
  (∃ row, files.rows id = some row ∧ test row) ∨ (files.rows id = none ∧ files.removed id = true)

def Files.Unknown (files : Files Id Origin) (id : Id) : Prop :=
  files.rows id = none ∧ files.removed id = false

variable {files : Files Id Origin} {id : Id} {test stronger : Row Id → Prop}
  {effect : Effect Id Origin}

namespace Files

theorem Holds.mono (hholds : files.Holds id stronger)
    (himp : ∀ row, stronger row → test row) : files.Holds id test := by
  rcases hholds with ⟨row, hrow, htest⟩ | hgone
  · exact Or.inl ⟨row, hrow, himp row htest⟩
  · exact Or.inr hgone

theorem Holds.not_unknown (hholds : files.Holds id test) : ¬ files.Unknown id := by
  rintro ⟨hnone, hfree⟩
  rcases hholds with ⟨row, hrow, _⟩ | ⟨_, hremoved⟩
  · rw [hnone] at hrow
    cases hrow
  · rw [hfree] at hremoved
    cases hremoved

theorem holds_of_row {row : Row Id} (hrow : files.rows id = some row)
    (htest : test row) : files.Holds id test :=
  Or.inl ⟨row, hrow, htest⟩

theorem Holds.row {row : Row Id} (hholds : files.Holds id test)
    (hrow : files.rows id = some row) : test row := by
  rcases hholds with ⟨found, hfound, htest⟩ | ⟨hnone, _⟩
  · rw [hrow] at hfound
    cases hfound
    exact htest
  · rw [hrow] at hnone
    cases hnone

end Files

/-! ## Lawful effects -/

section Effects

variable [DecidableEq Id] [DecidableEq Origin] {node : Node Origin}

/-- What holds of the files before each effect of a step, a restart apart. -/
def Effect.Lawful (files : Files Id Origin) : Effect Id Origin → Prop
  | .insertFile id _ => files.Unknown id
  | .setLocal _ state => state ≠ .encrypting
  | .addTombstone id => files.Holds id Row.Known
  | .deleteFile id => files.removed id = true
  | .upload node id =>
    files.accepts node = true ∧ files.Holds id Row.Kept
  | .start _ => False
  | _ => True

namespace Files

omit [DecidableEq Origin] in
theorem Holds.write {write : Row Id → Row Id} (hholds : files.Holds id stronger)
    (hwrite : ∀ row, stronger row → test (write row)) : (files.update id write).Holds id test := by
  rcases hholds with ⟨row, hrow, htest⟩ | ⟨hnone, hremoved⟩
  · exact Or.inl ⟨write row, by simp [Files.update, hrow], hwrite row htest⟩
  · exact Or.inr ⟨by simp [Files.update, hnone], hremoved⟩

omit [DecidableEq Origin] in
theorem Holds.update {write : Row Id → Row Id} {other : Id} (hholds : files.Holds id test)
    (hwrite : ∀ row, test row → test (write row)) : (files.update other write).Holds id test := by
  by_cases hid : id = other
  · subst hid
    exact hholds.write hwrite
  · simpa [Holds, Files.update, Function.update_of_ne hid] using hholds

theorem Holds.apply (hholds : files.Holds id test)
    (hlasting : Row.Lasting test) (hlawful : effect.Lawful files) :
    (files.apply effect).Holds id test := by
  cases effect with
  | insertFile other row =>
    have hne : id ≠ other := by
      rintro rfl
      exact hholds.not_unknown hlawful
    simpa [Files.apply, Holds, Function.update_of_ne hne] using hholds
  | setEnvelope other => exact hholds.update hlasting.setEnvelope
  | setLocal other state =>
    exact hholds.update fun row => hlasting.setLocal row state hlawful
  | setOnline other state =>
    exact hholds.update fun row => hlasting.setOnline row state
  | addTombstone other =>
    rcases hholds with hrow | ⟨hnone, hremoved⟩
    · exact Or.inl hrow
    · refine Or.inr ⟨hnone, ?_⟩
      simp only [Files.apply, Function.update_apply]
      split
      · rfl
      · exact hremoved
  | deleteFile other =>
    by_cases hid : id = other
    · subst hid
      exact Or.inr ⟨by simp [Files.apply], hlawful⟩
    · simpa [Files.apply, Holds, Function.update_of_ne hid] using hholds
  | start _ => exact hlawful.elim
  | _ => exact hholds

theorem removed_apply (hremoved : files.removed id = true)
    (effect : Effect Id Origin) : (files.apply effect).removed id = true := by
  cases effect with
  | addTombstone other =>
    simp only [Files.apply, Function.update_apply]
    split
    · rfl
    · exact hremoved
  | _ => exact hremoved

theorem Unknown.apply (hunknown : files.Unknown id) (hlawful : effect.Lawful files)
    (hinsert : ∀ row, effect ≠ .insertFile id row) : (files.apply effect).Unknown id := by
  have hupdate : ∀ other write, (files.update other write).Unknown id := by
    intro other write
    refine ⟨?_, hunknown.2⟩
    by_cases hid : id = other
    · subst hid
      simp [Files.update, hunknown.1]
    · simp [Files.update, Function.update_of_ne hid, hunknown.1]
  cases effect with
  | insertFile other row =>
    have hid : id ≠ other := by
      rintro rfl
      exact hinsert row rfl
    simpa [Files.apply, Unknown, Function.update_of_ne hid] using hunknown
  | setEnvelope other | setLocal other state | setOnline other state => exact hupdate other _
  | addTombstone other =>
    have hid : id ≠ other := by
      rintro rfl
      exact hlawful.not_unknown hunknown
    simpa [Files.apply, Unknown, Function.update_of_ne hid] using hunknown
  | deleteFile other =>
    have hid : id ≠ other := by
      rintro rfl
      exact Bool.false_ne_true (hunknown.2.symm.trans hlawful)
    simpa [Files.apply, Unknown, Function.update_of_ne hid] using hunknown
  | start _ => exact hlawful.elim
  | _ => exact hunknown

/-- Only kept files have copies, and none is left where the approval has
ended. -/
structure Sound (files : Files Id Origin) : Prop where
  blobs : ∀ node id, files.blobs node id = true → files.Holds id Row.Kept
  ended : ∀ origin id, files.ended origin = true → files.blobs (.onlineNode origin) id = false

theorem blobs_setBlob (files : Files Id Origin) (node other : Node Origin)
    (id found : Id) (stored : Bool) :
    (files.setBlob node id stored).blobs other found =
      if other = node ∧ found = id then stored else files.blobs other found := by
  by_cases hnode : other = node
  · subst hnode
    simp [setBlob, Function.update_apply]
  · simp [setBlob, hnode]

theorem deletes_setDelete (files : Files Id Origin) (node other : Node Origin)
    (id found : Id) (queued : Bool) :
    (files.setDelete node id queued).deletes other found =
      if other = node ∧ found = id then queued
      else files.deletes other found := by
  by_cases hnode : other = node
  · subst hnode
    simp [setDelete, Function.update_apply]
  · simp [setDelete, hnode]

/-- Every effect but an upload leaves the copies or takes some away. -/
theorem blobs_of_apply (hblob : (files.apply effect).blobs node id = true) :
    files.blobs node id = true ∨ effect = .upload node id := by
  cases effect with
  | upload other found =>
    simp only [Files.apply, blobs_setBlob] at hblob
    split at hblob
    next hsame =>
      exact Or.inr (by rw [hsame.1, hsame.2])
    · exact Or.inl hblob
  | delete other found =>
    simp only [Files.apply, blobs_setBlob] at hblob
    split at hblob
    · cases hblob
    · exact Or.inl hblob
  | endApproval origin =>
    simp only [Files.apply, Function.update_apply] at hblob
    split at hblob
    · cases hblob
    · exact Or.inl hblob
  | _ => exact Or.inl hblob

theorem Sound.apply (hsound : files.Sound) (hlawful : effect.Lawful files) :
    (files.apply effect).Sound := by
  constructor
  · intro node id hblob
    rcases blobs_of_apply hblob with hold | hupload
    · exact (hsound.blobs node id hold).apply Row.lasting_kept hlawful
    · subst hupload
      exact hlawful.2.apply Row.lasting_kept hlawful
  · intro origin id hended
    cases hblob : (files.apply effect).blobs (.onlineNode origin) id with
    | false => rfl
    | true =>
      exfalso
      rcases blobs_of_apply hblob with hold | hupload
      · cases effect with
        | endApproval other =>
          simp only [Files.apply, Function.update_apply] at hended hblob
          split at hended
          next hsame =>
            simp [hsame] at hblob
          · exact Bool.false_ne_true ((hsound.ended origin id hended).symm.trans hold)
        | approve other =>
          simp only [Files.apply, Function.update_apply] at hended
          split at hended
          · cases hended
          · exact Bool.false_ne_true ((hsound.ended origin id hended).symm.trans hold)
        | start _ => exact hlawful.elim
        | _ =>
          exact Bool.false_ne_true ((hsound.ended origin id hended).symm.trans hold)
      · subst hupload
        have haccepts : files.ended origin = false := by
          simpa [accepts] using hlawful.1
        exact Bool.false_ne_true (haccepts.symm.trans hended)

omit [DecidableEq Id] [DecidableEq Origin] in
theorem Row.kept_start {row : Row Id} (hkept : row.Kept) : row.start.Kept := by
  unfold Row.start
  split
  · exact ⟨hkept.1, by simp [Row.Begun, Row.setLocal]⟩
  · exact ⟨hkept.1, by simp [Row.Begun, Row.setLocal]⟩
  · exact hkept
  · exact hkept

theorem rows_start {row : Row Id} (hrow : files.rows id = some row)
    (hkept : row.Kept) (linked : Id → Bool) :
    (files.apply (.start linked)).rows id = some row.start := by
  have hbegun : row.localState ≠ .encrypting := hkept.2
  simp [Files.apply, forgets, hrow, hbegun]

theorem Holds.start (hholds : files.Holds id Row.Kept) (linked : Id → Bool) :
    (files.apply (.start linked)).Holds id Row.Kept := by
  rcases hholds with ⟨row, hrow, hkept⟩ | ⟨hnone, hremoved⟩
  · exact Or.inl ⟨row.start, rows_start hrow hkept linked, Row.kept_start hkept⟩
  · exact Or.inr ⟨by simp [Files.apply, hnone], hremoved⟩

theorem Sound.start (hsound : files.Sound) (linked : Id → Bool) :
    (files.apply (.start linked)).Sound :=
  ⟨fun node id hblob => (hsound.blobs node id hblob).start linked, hsound.ended⟩

end Files

/-! ## Tasks -/

def Task.Sound (files : Files Id Origin) : Task Id Origin → Prop
  | .encrypt id .setPending => files.Holds id Row.Enveloped
  | .encrypt id _ => files.Holds id Row.Known
  | .uploadOnline id => files.Holds id Row.Begun
  | .copy id _ .reading => files.Holds id Row.Begun
  | .copy _ .copyBack (.answered _) => True
  | .copy _ .adopted (.answered _) => True
  | .copy id _ _ => files.Holds id Row.Kept
  | .copyBack id => files.Holds id Row.Begun
  | .recorded id _ => files.Holds id Row.Kept
  | .completeEdit id => files.Holds id Row.Kept
  | .supersede id _ => files.Holds id Row.Kept
  | .remove _ _ (.reading _) => True
  | .remove id _ .dropKey => files.removed id = true
  | .remove id _ .deleteRow => files.removed id = true
  | .remove id _ _ => files.Holds id Row.Known
  | _ => True

variable {task next : Task Id Origin} {reply : Reply} {purpose : Purpose Origin}

theorem Task.Sound.apply (hsound : task.Sound files)
    (hlawful : effect.Lawful files) : task.Sound (files.apply effect) := by
  cases task with
  | encrypt id stage =>
    cases stage with
    | setPending => exact hsound.apply Row.lasting_enveloped hlawful
    | _ => exact hsound.apply Row.lasting_known hlawful
  | uploadOnline | copyBack => exact hsound.apply Row.lasting_begun hlawful
  | copy id purpose stage =>
    cases stage with
    | reading => exact hsound.apply Row.lasting_begun hlawful
    | answered answer =>
      cases purpose with
      | copyBack | adopted => trivial
      | _ => exact hsound.apply Row.lasting_kept hlawful
    | _ => exact hsound.apply Row.lasting_kept hlawful
  | recorded | completeEdit | supersede => exact hsound.apply Row.lasting_kept hlawful
  | remove id successor stage =>
    cases stage with
    | reading folderLock => trivial
    | dropKey | deleteRow => exact Files.removed_apply hsound effect
    | _ => exact hsound.apply Row.lasting_known hlawful
  | _ => trivial

/-- A step of a task is lawful and leaves the task sound. -/
def Advances (files : Files Id Origin) (next : Effect Id Origin × Task Id Origin) : Prop :=
  next.1.Lawful files ∧ next.2.Sound (files.apply next.1)

theorem encryptStep_advances {stage : EncryptStage}
    (hsound : (Task.encrypt id stage : Task Id Origin).Sound files) :
    Advances files (encryptStep files id reply stage) := by
  cases stage with
  | opening =>
    simp only [encryptStep]
    split
    · exact ⟨trivial, trivial⟩
    · exact ⟨trivial, hsound⟩
  | encrypting =>
    simp only [encryptStep]
    split
    · exact ⟨trivial, trivial⟩
    · split <;> exact ⟨trivial, hsound⟩
  | dropKey unreadable =>
    cases unreadable with
    | true => exact ⟨trivial, hsound⟩
    | false => exact ⟨trivial, trivial⟩
  | unreadable => exact ⟨by simp [encryptStep, Effect.Lawful], trivial⟩
  | setEnvelope =>
    exact ⟨trivial, Files.Holds.write hsound fun _ _ => rfl⟩
  | setPending =>
    refine ⟨by simp [encryptStep, Effect.Lawful], ?_⟩
    exact Files.Holds.write hsound fun row _ =>
      (by simp [Row.Begun, Row.setLocal])
  | _ =>
    simp only [encryptStep]
    split <;> exact ⟨trivial, hsound⟩

theorem answerStep_advances {answer : Reply}
    (hsound : (Task.copy id purpose (.answered answer) : Task Id Origin).Sound files) :
    Advances files (answerStep files id reply answer purpose) := by
  cases purpose with
  | uploadLocal =>
    simp only [answerStep]
    split
    · have hlawful : (Effect.setLocal id .ok : Effect Id Origin).Lawful
          files := by simp [Effect.Lawful]
      exact ⟨hlawful, Files.Holds.apply hsound Row.lasting_kept hlawful⟩
    · exact ⟨trivial, trivial⟩
  | uploadOnline origin =>
    simp only [answerStep]
    split
    · exact ⟨trivial, Files.Holds.apply hsound Row.lasting_kept trivial⟩
    · exact ⟨trivial, trivial⟩
  | copyBack =>
    refine ⟨?_, trivial⟩
    simp only [answerStep, Effect.Lawful, Reply.localState]
    split
    · simp
    · simp
  | adopted =>
    simp only [answerStep]
    split
    · exact ⟨trivial, trivial⟩
    · split <;> exact ⟨trivial, trivial⟩

variable {next : Effect Id Origin × Task Id Origin}

theorem copyStep_advances {stage : CopyStage}
    (hsound : (Task.copy id purpose stage : Task Id Origin).Sound files)
    (hstep : copyStep files id purpose reply stage = some next) : Advances files next := by
  have hunread : Advances files (.nothing, purpose.unread id) := by
    refine ⟨trivial, ?_⟩
    cases purpose with
    | _ => trivial
  cases stage with
  | reading =>
    simp only [copyStep] at hstep
    split at hstep
    · cases hstep
      exact hunread
    next row hrow =>
      split at hstep
      next hread =>
        cases hstep
        have hbegun : row.Begun := Files.Holds.row hsound hrow
        refine ⟨trivial, ?_⟩
        cases purpose with
        | _ => exact Files.holds_of_row hrow ⟨hread.1, hbegun⟩
      · cases hstep
        exact hunread
  | marking =>
    cases hstep
    refine ⟨trivial, ?_⟩
    cases purpose with
    | _ => exact Files.Holds.apply hsound Row.lasting_kept trivial
  | sending =>
    have hkept : files.Holds id Row.Kept := by
      cases purpose with
      | _ => exact hsound
    simp only [copyStep] at hstep
    split at hstep
    · split at hstep
      next haccepts =>
        cases hstep
        have hlawful : (Effect.upload purpose.node id).Lawful files :=
          ⟨haccepts, hkept⟩
        refine ⟨hlawful, ?_⟩
        cases purpose with
        | _ => exact hkept.apply Row.lasting_kept hlawful
      · cases hstep
    · cases hstep
      refine ⟨trivial, ?_⟩
      cases purpose with
      | copyBack | adopted => trivial
      | _ => exact hkept
  | landed =>
    cases hstep
    refine ⟨trivial, ?_⟩
    cases purpose with
    | copyBack | adopted => trivial
    | _ => exact hsound
  | answered answer =>
    cases hstep
    exact answerStep_advances hsound

theorem removeStep_advances {successor : Option Id} {stage : RemoveStage Origin}
    (hsound : (Task.remove id successor stage : Task Id Origin).Sound files) :
    Advances files (removeStep files id successor reply stage) := by
  have hdone : Advances files (.nothing, (.done : Task Id Origin)) :=
    ⟨trivial, trivial⟩
  cases stage with simp only [removeStep]
  | reading folderLock =>
    split
    · exact hdone
    next row hrow =>
      have hknown : files.Holds id Row.Known :=
        Files.holds_of_row hrow trivial
      split <;> exact ⟨trivial, hknown⟩
  | rereading =>
    split
    · exact hdone
    · split
      · exact ⟨trivial, hsound⟩
      · exact hdone
  | flagging hasEnvelope =>
    exact ⟨trivial, Files.Holds.apply hsound Row.lasting_known trivial⟩
  | queueing hasEnvelope =>
    split
    · split
      · exact ⟨trivial, Files.Holds.apply hsound Row.lasting_known trivial⟩
      · exact hdone
    · exact ⟨trivial, hsound⟩
  | listing | dropKey =>
    split
    · exact ⟨trivial, hsound⟩
    · exact hdone
  | queueOnline rest =>
    cases rest with
    | nil => exact ⟨trivial, hsound⟩
    | cons origin rest =>
      dsimp only
      split
      · exact ⟨trivial, Files.Holds.apply hsound Row.lasting_known trivial⟩
      · exact hdone
  | tombstone =>
    split
    · exact ⟨hsound, by simp [Task.Sound, Files.apply]⟩
    · exact hdone
  | deleteRow =>
    split
    · exact ⟨hsound, trivial⟩
    · exact hdone

omit [DecidableEq Id] [DecidableEq Origin] in
theorem deleteStep_next {stage : DeleteStage}
    (hstep : deleteStep files node id reply stage = some next) :
    (next.1 = .nothing ∨ next.1 = .delete node id ∨ next.1 = .finishDelete node id) ∧
    (next.2 = .done ∨ ∃ stage, next.2 = .delete node id stage) := by
  unfold deleteStep at hstep
  grind

theorem Task.Sound.run (hsound : task.Sound files) (hstep : task.run files reply = some next) :
    Advances files next := by
  have hdone : Advances files (.nothing, (.done : Task Id Origin)) :=
    ⟨trivial, trivial⟩
  cases task with
  | encrypt id stage =>
    cases hstep
    exact encryptStep_advances hsound
  | uploadOnline id =>
    simp only [Task.run] at hstep
    split at hstep
    next row origin hrow _ =>
      split at hstep
      next hread =>
        cases hstep
        have hbegun : row.Begun := Files.Holds.row hsound hrow
        exact ⟨trivial, Files.holds_of_row hrow ⟨hread.1, hbegun⟩⟩
      · cases hstep
        exact hdone
    · cases hstep
      exact hdone
  | copyBack id =>
    simp only [Task.run] at hstep
    split at hstep
    · cases hstep
      have hlawful : (Effect.setLocal id .restoring :
          Effect Id Origin).Lawful files := by simp [Effect.Lawful]
      exact ⟨hlawful, Files.Holds.apply hsound Row.lasting_begun hlawful⟩
    · cases hstep
      exact hdone
  | copy id purpose stage => exact copyStep_advances hsound hstep
  | recorded id purpose =>
    cases purpose with
    | uploadLocal =>
      simp only [Task.run] at hstep
      split at hstep
      · cases hstep
        exact ⟨trivial, hsound⟩
      · cases hstep
        exact hdone
    | uploadOnline origin =>
      cases hstep
      exact ⟨trivial, Files.Holds.apply hsound Row.lasting_kept trivial⟩
    | copyBack | adopted =>
      cases hstep
      exact hdone
  | adoptedRow id ok =>
    cases hstep
    refine ⟨?_, trivial⟩
    cases ok with
    | true | false => simp [Effect.Lawful]
  | adoptedGone id =>
    cases hstep
    exact ⟨trivial, trivial⟩
  | completeEdit id =>
    simp only [Task.run] at hstep
    split at hstep
    · cases hstep
      exact hdone
    · cases hstep
      exact ⟨trivial, hsound⟩
  | supersede | checkOnline =>
    simp only [Task.run] at hstep
    split at hstep
    · cases hstep
      exact hdone
    · cases hstep
      exact ⟨trivial, trivial⟩
  | remove id successor stage =>
    cases hstep
    exact removeStep_advances hsound
  | checkLocal id =>
    simp only [Task.run] at hstep
    split at hstep
    · cases hstep
      exact hdone
    · cases hstep
      exact ⟨by simp [Effect.Lawful], trivial⟩
  | delete node id stage =>
    obtain ⟨heffect, htask⟩ := deleteStep_next hstep
    constructor
    · rcases heffect with heffect | heffect | heffect <;>
      · rw [heffect]
        trivial
    · rcases htask with htask | ⟨stage, htask⟩ <;>
      · rw [htask]
        trivial
  | done => cases hstep

def Effect.Plain : Effect Id Origin → Prop
  | .insertFile _ _ => False
  | .finishDelete _ _ => False
  | .deleteFile _ => False
  | .upload _ _ => False
  | .delete _ _ => False
  | .endApproval _ => False
  | .start _ => False
  | _ => True

inductive Task.Marked (reply : Reply) : Task Id Origin → Effect Id Origin × Task Id Origin → Prop
  | upload (id : Id) (purpose : Purpose Origin) (hreply : reply = .ok) :
      Marked reply (.copy id purpose .sending) (.upload purpose.node id, .copy id purpose .landed)
  | delete (node : Node Origin) (id : Id) :
      Marked reply (.delete node id .sending) (.delete node id, .delete node id .answered)
  | finishDelete (node : Node Origin) (id : Id) :
      Marked reply (.delete node id .answered) (.finishDelete node id, .done)
  | deleteFile (id : Id) (successor : Option Id) :
      Marked reply (.remove id successor .deleteRow) (.deleteFile id, .done)

omit [DecidableEq Id] [DecidableEq Origin] in
theorem Task.run_cases (hrun : task.run files reply = some next) :
    next.1.Plain ∨ Task.Marked reply task next := by
  cases task with
  | encrypt id stage =>
    cases hrun
    refine Or.inl ?_
    cases stage with
    | _ => grind [encryptStep, Effect.Plain]
  | copy id purpose stage =>
    cases stage with
    | sending =>
      simp only [Task.run, copyStep] at hrun
      split at hrun
      next hreply =>
        split at hrun
        · cases hrun
          exact Or.inr (.upload id purpose hreply)
        · cases hrun
      · cases hrun
        exact Or.inl trivial
    | answered answer =>
      refine Or.inl ?_
      cases purpose with
      | _ => grind [Task.run, copyStep, answerStep, Effect.Plain]
    | _ =>
      refine Or.inl ?_
      grind [Task.run, copyStep, Effect.Plain]
  | remove id successor stage =>
    cases hrun
    cases stage with
    | deleteRow =>
      simp only [removeStep]
      split
      · exact Or.inr (.deleteFile id successor)
      · exact Or.inl trivial
    | queueOnline rest =>
      refine Or.inl ?_
      cases rest with
      | _ => grind [removeStep, Effect.Plain]
    | _ =>
      refine Or.inl ?_
      grind [removeStep, Effect.Plain]
  | delete node id stage =>
    cases stage with
    | sending =>
      simp only [Task.run, deleteStep] at hrun
      split at hrun
      · cases hrun
        exact Or.inr (.delete node id)
      · cases hrun
        exact Or.inl trivial
      · cases hrun
        exact Or.inl trivial
    | refused =>
      refine Or.inl ?_
      cases node with
      | _ => grind [Task.run, deleteStep, Effect.Plain]
    | answered =>
      cases hrun
      exact Or.inr (.finishDelete node id)
  | recorded id purpose =>
    refine Or.inl ?_
    cases purpose with
    | _ => grind [Task.run, Effect.Plain]
  | _ =>
    refine Or.inl ?_
    grind [Task.run, Effect.Plain]

/-! ## Steps -/

/-- What holds of every state: the files are sound, every task knows what it
should, and the entry being adopted is unknown. -/
structure Sound (state : State Id Origin) : Prop where
  files : state.files.Sound
  tasks : ∀ task ∈ state.tasks, task.Sound state.files
  sync : ∀ entry, state.sync = some entry → state.files.Unknown entry.1

variable {state after : State Id Origin} {action : Action Id Origin} {turn : State.Turn Id Origin}

inductive Task.Opening : Task Id Origin → Prop
  | encrypt (id : Id) : Opening (.encrypt id .opening)
  | uploadOnline (id : Id) : Opening (.uploadOnline id)
  | copyBack (id : Id) : Opening (.copyBack id)
  | copy (id : Id) (purpose : Purpose Origin) : Opening (.copy id purpose .reading)
  | remove (id : Id) (folderLock : Bool) : Opening (.remove id none (.reading folderLock))
  | checkOnline (id : Id) : Opening (.checkOnline id)
  | checkLocal (id : Id) : Opening (.checkLocal id)
  | delete (node : Node Origin) (id : Id) : Opening (.delete node id .sending)

def Effect.Outside : Effect Id Origin → Prop
  | .nothing => True
  | .insertFile _ _ => True
  | .setLocal _ _ => True
  | .setOnline _ _ => True
  | .setFileKey _ => True
  | .setOnlineNode _ => True
  | .endApproval _ => True
  | .approve _ => True
  | _ => False

/-- What a step that loses no write does: it takes a task on, starts one, or works
without one. -/
inductive State.TurnCase (state : State Id Origin) : Action Id Origin → State.Turn Id Origin → Prop
  | restart (linked : Id → Bool) :
      TurnCase state (.restart linked) { effect := .start linked, tasks := [], sync := none }
  | advance {number : ℕ} {reply : Reply} {task : Task Id Origin}
      {next : Effect Id Origin × Task Id Origin} (htask : state.tasks[number]? = some task)
      (hrun : task.run state.files reply = some next) :
      TurnCase state (.advance number reply)
        { effect := next.1, tasks := state.tasks.set number next.2, sync := state.sync }
  | settle {loser winner : Id} {row : Row Id}
      (hrow : state.files.rows winner = some row) (hready : row.ready = true) :
      TurnCase state (.settle loser winner)
        { tasks := state.tasks ++ [.remove loser (some winner) (.reading false)]
          sync := state.sync }
  | opens {action : Action Id Origin} (effect : Effect Id Origin)
      (task : Task Id Origin) (sync : Option (Id × SyncStage))
      (houtside : effect.Outside) (hopening : task.Opening) :
      TurnCase state action { effect := effect, tasks := state.tasks ++ [task], sync := sync }
  | writes {action : Action Id Origin} (effect : Effect Id Origin)
      (sync : Option (Id × SyncStage)) (houtside : effect.Outside) :
      TurnCase state action { effect := effect, tasks := state.tasks, sync := sync }

omit [DecidableEq Id] [DecidableEq Origin] in
theorem State.startIf_cases {test : Row Id → Bool}
    (hturn : state.startIf id test task = some turn) :
    (∃ row, state.files.rows id = some row ∧ test row = true) ∧
      turn = { tasks := state.tasks ++ [task], sync := state.sync } := by
  unfold State.startIf at hturn
  split at hturn
  next hany =>
    cases hturn
    refine ⟨?_, rfl⟩
    simpa [Option.any_eq_true] using hany
  · cases hturn

omit [DecidableEq Origin] in
theorem State.turn_cases (hkept : action.loses = false)
    (hturn : state.turn action = some turn) : state.TurnCase action turn := by
  cases action with
  | lose => cases hkept
  | queueNewFile id prev =>
    simp only [State.turn] at hturn
    split at hturn
    · cases hturn
      exact .opens _ _ _ trivial (.encrypt id)
    · cases hturn
  | settle loser winner =>
    simp only [State.turn] at hturn
    split at hturn
    next hready =>
      cases hturn
      obtain ⟨row, hrow, hwinner⟩ := (Option.any_eq_true _ _).mp hready.2
      exact .settle hrow hwinner
    · cases hturn
  | removeRow id folderLock =>
    cases hturn
    exact .opens _ _ _ trivial (.remove id folderLock)
  | runDelete node id =>
    simp only [State.turn] at hturn
    split at hturn
    · cases hturn
      exact .opens _ _ _ trivial (.delete node id)
    · cases hturn
  | adopt id =>
    simp only [State.turn] at hturn
    split at hturn
    · cases hturn
      exact .writes _ _ trivial
    · cases hturn
  | syncStep prev reply =>
    obtain ⟨⟨id, stage⟩, -, rfl⟩ := Option.map_eq_some_iff.mp hturn
    cases stage with
    | asking => exact .writes _ _ trivial
    | keying =>
      simp only [State.syncTurn]
      split <;> exact .writes _ _ trivial
    | inserting =>
      simp only [State.syncTurn]
      split
      · exact .opens _ _ _ trivial (.copy id .adopted)
      · exact .writes _ _ trivial
  | advance number reply =>
    simp only [State.turn, Option.map_eq_some_iff, Option.bind_eq_some_iff] at hturn
    obtain ⟨next, ⟨task, htask, hrun⟩, rfl⟩ := hturn
    exact .advance htask hrun
  | restart linked =>
    cases hturn
    exact .restart linked
  | uploadLocal id =>
    obtain ⟨-, rfl⟩ := State.startIf_cases hturn
    exact .opens _ _ _ trivial (.copy id .uploadLocal)
  | uploadOnline id =>
    obtain ⟨-, rfl⟩ := State.startIf_cases hturn
    exact .opens _ _ _ trivial (.uploadOnline id)
  | copyBack id =>
    obtain ⟨-, rfl⟩ := State.startIf_cases hturn
    exact .opens _ _ _ trivial (.copyBack id)
  | checkOnline id =>
    obtain ⟨-, rfl⟩ := State.startIf_cases hturn
    exact .opens _ _ _ trivial (.checkOnline id)
  | checkLocal id =>
    obtain ⟨-, rfl⟩ := State.startIf_cases hturn
    exact .opens _ _ _ trivial (.checkLocal id)
  | requeue id | wait id | unset id | unreadable id | setOnlineNode url
  | endApproval origin | approve origin =>
    cases hturn
    exact .writes _ _ trivial

omit [DecidableEq Origin] in
theorem State.ne_restart (hturn : state.turn action = some turn)
    (houtside : turn.effect.Outside) (linked : Id → Bool) : action ≠ .restart linked := by
  rintro rfl
  cases hturn
  exact houtside

/-- A turn is lawful, its new task is sound, and the entry being adopted is
not inserted by it and left to adopt. -/
structure Lawful (state : State Id Origin) (turn : State.Turn Id Origin) : Prop where
  effect : turn.effect.Lawful state.files
  tasks : ∀ task ∈ turn.tasks, task ∈ state.tasks ∨ task.Sound (state.files.apply turn.effect)
  sync : ∀ entry, turn.sync = some entry → state.files.Unknown entry.1 ∧
    ∀ row, turn.effect ≠ .insertFile entry.1 row

section

variable (hsound : Sound state)
include hsound

theorem Sound.opens (hlawful : effect.Lawful state.files)
    (hinsert : ∀ entry row, state.sync = some entry → effect ≠ .insertFile entry.1 row)
    (htask : task.Sound (state.files.apply effect)) :
    Lawful state
      { effect := effect, tasks := state.tasks ++ [task], sync := state.sync } := by
  refine ⟨hlawful, ?_, ?_⟩
  · intro found hfound
    rcases List.mem_append.mp hfound with hold | hnew
    · exact Or.inl hold
    · cases List.mem_singleton.mp hnew
      exact Or.inr htask
  · intro entry hentry
    exact ⟨hsound.sync entry hentry, fun row => hinsert entry row hentry⟩

theorem Sound.startIf {test : Row Id → Bool} (hturn : state.startIf id test task = some turn)
    (htask : ∀ row, state.files.rows id = some row → test row = true →
      task.Sound state.files) : Lawful state turn := by
  obtain ⟨⟨row, hrow, htest⟩, rfl⟩ := State.startIf_cases hturn
  refine hsound.opens trivial ?_ (htask row hrow htest)
  intro entry row _ heffect
  cases heffect

theorem Sound.write (hlawful : effect.Lawful state.files)
    (hinsert : ∀ id row, effect ≠ .insertFile id row) : Lawful state (state.write effect) :=
  ⟨hlawful, fun _ hold => Or.inl hold,
    fun entry hentry => ⟨hsound.sync entry hentry, hinsert entry.1⟩⟩

theorem Sound.syncTurn {entry : Id × SyncStage} (hentry : state.sync = some entry)
    (prev : Option Id) : Lawful state (state.syncTurn entry.1 prev reply entry.2) := by
  obtain ⟨id, stage⟩ := entry
  have hunknown : state.files.Unknown id := hsound.sync _ hentry
  have hstop : Lawful state { tasks := state.tasks, sync := none } :=
    ⟨trivial, fun _ hold => Or.inl hold, fun _ hnone => by cases hnone⟩
  cases stage with
  | asking =>
    refine ⟨trivial, fun _ hold => Or.inl hold, ?_⟩
    intro found hfound
    simp only [State.syncTurn] at hfound
    split at hfound
    · cases hfound
      exact ⟨hunknown, fun _ heffect => by cases heffect⟩
    · cases hfound
  | keying =>
    simp only [State.syncTurn]
    split
    · refine ⟨trivial, fun _ hold => Or.inl hold, ?_⟩
      intro found hfound
      cases hfound
      exact ⟨hunknown, fun _ heffect => by cases heffect⟩
    · exact hstop
  | inserting =>
    simp only [State.syncTurn]
    split
    · refine ⟨hunknown, ?_, fun _ hnone => by cases hnone⟩
      intro found hfound
      rcases List.mem_append.mp hfound with hold | hnew
      · exact Or.inl hold
      · cases List.mem_singleton.mp hnew
        have hrow : (state.files.apply (.insertFile id (rowForEntry prev))).rows id =
              some (rowForEntry prev) := Function.update_self ..
        exact Or.inr (Files.holds_of_row hrow (by simp [Row.Begun, rowForEntry]))
    · exact hstop

theorem Sound.lawful (hkept : action.loses = false) (hturn : state.turn action = some turn)
    (hrestart : ∀ linked, action ≠ .restart linked) : Lawful state turn := by
  cases action with
  | lose => cases hkept
  | queueNewFile id prev =>
    simp only [State.turn] at hturn
    split at hturn
    next hfresh =>
      cases hturn
      have hrow : (state.files.apply (.insertFile id (newRow state.files prev))).rows id =
            some (newRow state.files prev) := Function.update_self ..
      refine hsound.opens ⟨hfresh.1, hfresh.2.1⟩ ?_ (Files.holds_of_row hrow trivial)
      intro entry row hentry heffect
      have hne : entry.1 ≠ id := by simpa [hentry] using hfresh.2.2
      cases heffect
      exact hne rfl
    · cases hturn
  | uploadLocal | copyBack =>
    refine hsound.startIf hturn fun row hrow htest => ?_
    refine Files.holds_of_row hrow fun hencrypting => ?_
    simp [hencrypting] at htest
  | uploadOnline id =>
    exact hsound.startIf hturn fun row hrow htest =>
      Files.holds_of_row hrow (Row.begun_of_due htest)
  | checkOnline | checkLocal => exact hsound.startIf hturn fun _ _ _ => trivial
  | settle | runDelete =>
    simp only [State.turn] at hturn
    split at hturn
    · cases hturn
      exact hsound.opens trivial (fun _ _ _ heffect => by cases heffect)
        trivial
    · cases hturn
  | removeRow id folderLock =>
    cases hturn
    exact hsound.opens trivial (fun _ _ _ heffect => by cases heffect)
      trivial
  | adopt id =>
    simp only [State.turn] at hturn
    split at hturn
    next hfree =>
      cases hturn
      refine ⟨trivial, fun _ hold => Or.inl hold, ?_⟩
      intro entry hentry
      cases hentry
      exact ⟨hfree.2.2, fun _ heffect => by cases heffect⟩
    · cases hturn
  | syncStep prev reply =>
    obtain ⟨entry, hentry, rfl⟩ := Option.map_eq_some_iff.mp hturn
    exact hsound.syncTurn hentry prev
  | advance number reply =>
    simp only [State.turn, Option.map_eq_some_iff, Option.bind_eq_some_iff] at hturn
    obtain ⟨next, ⟨task, htask, hrun⟩, rfl⟩ := hturn
    obtain ⟨hlawful, hnext⟩ :=
      (hsound.tasks task (List.mem_of_getElem? htask)).run hrun
    refine ⟨hlawful, ?_, ?_⟩
    · intro found hfound
      rcases List.mem_or_eq_of_mem_set hfound with hold | rfl
      · exact Or.inl hold
      · exact Or.inr hnext
    · intro entry hentry
      refine ⟨hsound.sync entry hentry, fun row heffect => ?_⟩
      change next.1 = _ at heffect
      rcases Task.run_cases hrun with hplain | hmarked
      · rw [heffect] at hplain
        exact hplain
      · cases hmarked with
        | _ => cases heffect
  | restart linked => exact absurd rfl (hrestart linked)
  | unreadable id =>
    cases hturn
    refine hsound.write ?_ fun _ _ heffect => by cases heffect
    simp [Effect.Lawful]
  | requeue id | wait id | unset id | setOnlineNode url | endApproval origin
  | approve origin =>
    cases hturn
    exact hsound.write trivial fun _ _ heffect => by cases heffect

theorem Sound.step (hkept : action.loses = false) (hstep : state.step action = some after) :
    Sound after := by
  obtain ⟨turn, hturn, rfl⟩ := Option.map_eq_some_iff.mp hstep
  by_cases hrestart : ∃ linked, action = .restart linked
  · obtain ⟨linked, rfl⟩ := hrestart
    cases hturn
    refine ⟨hsound.files.start linked, ?_, ?_⟩
    · intro task hnone
      cases hnone
    · intro entry hnone
      cases hnone
  · have hlawful := hsound.lawful hkept hturn fun linked heq =>
      hrestart ⟨linked, heq⟩
    refine ⟨hsound.files.apply hlawful.effect, ?_, ?_⟩
    · intro task htask
      rcases hlawful.tasks task htask with hold | hnew
      · exact (hsound.tasks task hold).apply hlawful.effect
      · exact hnew
    · intro entry hentry
      obtain ⟨hunknown, hinsert⟩ := hlawful.sync entry hentry
      exact hunknown.apply hlawful.effect hinsert

end

omit [DecidableEq Id] [DecidableEq Origin] in
theorem Sound.new : Sound ({ files := {} } : State Id Origin) := by
  refine ⟨⟨?_, ?_⟩, ?_, ?_⟩ <;> simp

end Effects

end FileCopies
end Wildbloom
