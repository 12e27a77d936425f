import Wildbloom.OwnerClaimModel
import Wildbloom.GroupHoldings
import Wildbloom.GuardedRuns

/-!
# Owner claims survive the delegated claim lifecycle

A claim an owner made with a write of its own is never dropped by a hand-back.
The invariant is about all records of one owner and one hash.  While the owner
has a claim of its own, each of them knows: it found the claim, or it was
adopted.  While a write of the owner is between its mark and its claim, the
mark is in the database and each record is adopted.

If the clock moves between a write's look at it and its mark, the mark may
replace that of a later write, and a move recorded at the end of the later
write's window does not see that write.
-/

namespace Wildbloom
namespace OwnerClaims

open GroupGate (Store)
open Runs

variable {Key Hash : Type} {task : Task Key Hash}

/-- When a write marks its hashes, the clock still shows the time it read. -/
def PromptStep (state : State Key Hash) : Action Key Hash → Prop
  | .advance id _ => ∀ write now, state.requests id = some (.write write) →
      write.pc = .mark now → now = state.shared.clock
  | _ => True

/-! ## The invariant -/

/-- The owner's write since `since` is in the database, and every move of the
blob to the owner knows of it. -/
structure Database.Marked (db : Database Key Hash) (owner : Key)
    (hash : Hash) (since : ℕ) : Prop where
  written : ∃ time, db.ownerWrites owner hash = some time ∧ since ≤ time
  adopted : ∀ record ∈ db.moves, record.owner = owner → record.hash = hash → record.adopted = true

/-- The times a task has read are not in the future, and the marks of a write
that may still land are in the database. -/
def Task.Timely (shared : Shared Key Hash) : Task Key Hash → Prop
  | .write work =>
    ∀ marked, work.pc = .land marked → marked ≤ shared.clock ∧
        (shared.clock ≤ marked + ownerWriteWindow →
          ∀ hash ∈ work.hashes, shared.db.Marked work.owner hash marked)
  | .transfer work => work.now ≤ shared.clock
  | .restore _ => True
  | .prune pc => ∀ now, pc = .prune now → now ≤ shared.clock

/-- Own claims are in the store, the records of their blobs know of them, and
none was dropped. -/
structure Shared.Good (shared : Shared Key Hash) : Prop where
  held : ∀ claim ∈ shared.own, claim ∈ shared.store.claims
  known : ∀ record ∈ shared.db.moves, (record.owner, record.hash) ∈ shared.own →
      record.independent = true ∨ record.adopted = true
  drops : ∀ drop ∈ shared.drops, drop.own = false

/-- The clock goes on, and the marks of writes in their window stay. -/
structure Shared.Ages (before after : Shared Key Hash) : Prop where
  clock : before.clock ≤ after.clock
  marked : ∀ owner hash since, since ≤ before.clock → after.clock ≤ since + ownerWriteWindow →
      before.db.Marked owner hash since → after.db.Marked owner hash since

structure Owned (state : State Key Hash) : Prop where
  fresh : state.Fresh
  good : state.shared.Good
  timely : ∀ id task, state.requests id = some task → task.Timely state.shared

theorem owned_initial (clock : ℕ) (store : Store Key Hash) : Owned (State.initial clock store) := by
  constructor
  · intro id _
    rfl
  · constructor
    · intro claim hclaim
      exact hclaim
    · intro record hrecord
      cases hrecord
    · intro drop hdrop
      cases hdrop
  · intro id task htask
    cases htask

theorem Shared.Ages.timely {before after : Shared Key Hash} (hages : before.Ages after)
    (htimely : task.Timely before) : task.Timely after := by
  have hclock := hages.clock
  cases task with
  | write work =>
    intro marked hpc
    obtain ⟨hpast, hmarked⟩ := htimely marked hpc
    refine ⟨le_trans hpast hclock, ?_⟩
    intro hwindow hash hhash
    exact hages.marked work.owner hash marked hpast hwindow
      (hmarked (le_trans hclock hwindow) hash hhash)
  | transfer work => exact le_trans htimely hclock
  | restore work => trivial
  | prune pc =>
    intro now hpc
    exact le_trans (htimely now hpc) hclock

variable {state : State Key Hash} {id : ℕ} {shared : Shared Key Hash} {now : ℕ} {owner : Key}

theorem Owned.change (hgood : Owned state) (hnext : shared.Good)
    (hages : state.shared.Ages shared) : Owned { state with shared := shared } where
  fresh := hgood.fresh
  good := hnext
  timely := fun other task htask =>
    hages.timely (hgood.timely other task htask)

theorem Owned.put {found : Task Key Hash} (hgood : Owned state)
    (htask : state.requests id = some task) (hnext : shared.Good) (hages : state.shared.Ages shared)
    (hfound : found.Timely shared) : Owned (state.put id (shared, found)) := by
  constructor
  · exact hgood.fresh.put htask _
  · exact hnext
  · apply Pool.forall_put
    · exact hfound
    · intro other task _ hother
      exact hages.timely (hgood.timely other task hother)

theorem Owned.start (hgood : Owned state) (htask : task.Timely state.shared) :
    Owned (state.start task) := by
  constructor
  · exact hgood.fresh.start task
  · exact hgood.good
  · exact Pool.forall_start htask hgood.timely

/-! ## What the operations keep -/

namespace Shared

variable {key : Key} {hash : Hash} {record : MovedClaim Key Hash} {db : Database Key Hash}

theorem ages_of_same {after : Shared Key Hash}
    (hclock : after.clock = shared.clock) (hdb : after.db = shared.db) : shared.Ages after := by
  constructor
  · rw [hclock]
  · intro owner hash since _ _ hmarked
    rw [hdb]
    exact hmarked

theorem ages_tick (shared : Shared Key Hash) (seconds : ℕ) :
    shared.Ages { shared with clock := shared.clock + seconds } := by
  constructor
  · exact Nat.le_add_right _ _
  · intro owner hash since _ _ hmarked
    exact hmarked

theorem Good.claim (hgood : shared.Good) {store : Store Key Hash}
    (hclaims : ∀ claim ∈ shared.store.claims, claim ∈ store.claims) :
    Good { shared with store := store } where
  held := fun claim hclaim => hclaims claim (hgood.held claim hclaim)
  known := hgood.known
  drops := hgood.drops

theorem ages_prune (shared : Shared Key Hash) (hnow : now ≤ shared.clock) :
    shared.Ages { shared with db := shared.db.prune now } := by
  refine ⟨le_refl _, ?_⟩
  intro owner hash since _ hwindow hmarked
  obtain ⟨time, hwritten, hsince⟩ := hmarked.written
  refine ⟨⟨time, ?_, hsince⟩, hmarked.adopted⟩
  simp only at hwindow
  simp only [Database.prune, hwritten, Option.filter_some]
  rw [if_pos]
  apply decide_eq_true
  omega

variable [DecidableEq Key] [LinearOrder Hash]

theorem Good.deleteClaim (hgood : shared.Good) (key : Key) (hash : Hash) :
    (shared.deleteClaim key hash).Good := by
  have hown : ∀ claim ∈ (shared.deleteClaim key hash).own,
      claim ∈ shared.own ∧ claim ≠ (key, hash) := by
    intro claim hclaim
    obtain ⟨hold, hne⟩ := List.mem_filter.mp hclaim
    exact ⟨hold, of_decide_eq_true hne⟩
  constructor
  · intro claim hclaim
    obtain ⟨hold, hne⟩ := hown claim hclaim
    exact (Store.mem_deleteClaim _ _ _ claim).mpr ⟨hgood.held claim hold, hne⟩
  · intro record hrecord hclaim
    exact hgood.known record hrecord (hown _ hclaim).1
  · exact hgood.drops

theorem mem_forgetMove (hrecord : record ∈ (shared.forgetMove key hash).db.moves) :
    record ∈ shared.db.moves :=
  (List.mem_filter.mp hrecord).1

theorem Good.forgetMove (hgood : shared.Good) (key : Key) (hash : Hash) :
    (shared.forgetMove key hash).Good where
  held := hgood.held
  known := fun record hrecord =>
    hgood.known record (mem_forgetMove hrecord)
  drops := hgood.drops

theorem ages_forgetMove (shared : Shared Key Hash) (key : Key)
    (hash : Hash) : shared.Ages (shared.forgetMove key hash) where
  clock := le_refl _
  marked := fun _ _ _ _ _ hmarked =>
    ⟨hmarked.written, fun record hrecord =>
      hmarked.adopted record (mem_forgetMove hrecord)⟩

theorem movedRow_mem (hrow : db.movedRow key hash = some record) :
    record ∈ db.moves ∧ record.hash = hash := by
  have hfound := List.find?_some hrow
  simp only [decide_eq_true_eq] at hfound
  exact ⟨List.mem_of_find?_eq_some hrow, hfound.2⟩

/-- The claim that is dropped belongs to a record that does not know of an own
claim, so it is not the owner's own. -/
theorem Good.dropOwnerClaimIfOurs (hgood : shared.Good) (key : Key)
    (hash : Hash) : (shared.dropOwnerClaimIfOurs key hash).Good := by
  unfold Shared.dropOwnerClaimIfOurs
  split
  · exact hgood
  next record hrow =>
    obtain ⟨hmem, hhash⟩ := movedRow_mem hrow
    split
    next hours =>
      apply Good.forgetMove
      have hdeleted := hgood.deleteClaim record.owner hash
      refine ⟨hdeleted.held, hdeleted.known, ?_⟩
      intro drop hdrop
      rcases List.mem_cons.mp hdrop with hnew | hold
      · rw [hnew]
        apply decide_eq_false
        intro hown
        rw [← hhash] at hown
        have hknown := hgood.known record hmem hown
        have hnot := hours.1
        unfold MovedClaim.ownerClaimIsOurs at hnot
        rcases hknown with hindependent | hadopted
        · simp [hindependent] at hnot
        · simp [hadopted] at hnot
      · exact hgood.drops drop hold
    · exact hgood.forgetMove key hash

theorem ages_dropOwnerClaimIfOurs (shared : Shared Key Hash) (key : Key)
    (hash : Hash) : shared.Ages (shared.dropOwnerClaimIfOurs key hash) := by
  unfold Shared.dropOwnerClaimIfOurs
  split
  · exact ages_of_same rfl rfl
  · split
    · have hages := ages_forgetMove shared key hash
      exact ⟨hages.clock, hages.marked⟩
    · exact ages_forgetMove shared key hash

theorem mem_otherRows : record ∈ db.otherRows owner hash key ↔
      record ∈ db.moves ∧ record.owner = owner ∧ record.hash = hash ∧ record.key ≠ key := by
  simp [Database.otherRows]

/-- The other records of a blob pass on that the owner has an own claim. -/
theorem Good.others_know (hgood : shared.Good) (hown : (owner, hash) ∈ shared.own) (key : Key) :
    (shared.db.otherMoves owner hash key).count = 0 ∨
      (shared.db.otherMoves owner hash key).independent = true ∨
        (shared.db.otherMoves owner hash key).adopted = true := by
  by_cases hnone : (shared.db.otherMoves owner hash key).count = 0
  · exact Or.inl hnone
  · right
    obtain ⟨other, hother⟩ := List.exists_mem_of_length_pos (Nat.pos_of_ne_zero hnone)
    obtain ⟨hmem, howner, hhash, _⟩ := mem_otherRows.mp hother
    rw [← howner, ← hhash] at hown
    rcases hgood.known other hmem hown with hindependent | hadopted
    · exact Or.inl (List.any_eq_true.mpr ⟨other, hother, hindependent⟩)
    · exact Or.inr (List.any_eq_true.mpr ⟨other, hother, hadopted⟩)

/-- A new record knows of an own claim: it finds it, or the other records of
the blob pass on that they were adopted. -/
theorem Good.recordMove (hgood : shared.Good) (key owner : Key) (hash : Hash)
    (now : ℕ) : (shared.recordMove key owner hash now).Good := by
  unfold Shared.recordMove
  split
  · exact hgood
  next hnone =>
    refine ⟨hgood.held, ?_, hgood.drops⟩
    intro record hrecord hown
    simp only [Database.insertMove, hnone, List.mem_append, List.mem_singleton] at hrecord
    rcases hrecord with hold | hnew
    · exact hgood.known record hold hown
    · rw [hnew] at hown ⊢
      have hclaim := (Store.holdsClaim_iff shared.store owner hash).mpr (hgood.held _ hown)
      rcases hgood.others_know hown key with hcount | hindependent | hadopted
      · exact Or.inl (by simp [hclaim, hcount])
      · exact Or.inl (by simp [hclaim, hindependent])
      · exact Or.inr (by simp [hadopted])

/-- A new record sees the mark of a write that is in its window. -/
theorem ages_recordMove (shared : Shared Key Hash) (key owner : Key) (hash : Hash)
    (hnow : now ≤ shared.clock) : shared.Ages (shared.recordMove key owner hash now) := by
  unfold Shared.recordMove
  split
  · exact ages_of_same rfl rfl
  next hnone =>
    refine ⟨le_refl _, ?_⟩
    intro writer other since _ hwindow hmarked
    have hmoves : ∀ record, (shared.db.insertMove record).ownerWrites = shared.db.ownerWrites := by
      intro record
      unfold Database.insertMove
      split <;> rfl
    refine ⟨?_, ?_⟩
    · rw [hmoves]
      exact hmarked.written
    · intro record hrecord howner hhash
      simp only [Database.insertMove, hnone, List.mem_append, List.mem_singleton] at hrecord
      rcases hrecord with hold | hnew
      · exact hmarked.adopted record hold howner hhash
      · rw [hnew] at howner hhash ⊢
        simp only at howner hhash
        obtain ⟨time, hwritten, hsince⟩ := hmarked.written
        have hrecent : shared.db.recentOwnerWrite owner hash (now - ownerWriteWindow) = true := by
          rw [howner, hhash]
          simp only [Database.recentOwnerWrite, hwritten, Option.any_some, decide_eq_true_eq]
          simp only at hwindow
          omega
        simp [hrecent]

end Shared

variable [DecidableEq Key] [LinearOrder Hash]

/-! ### Marks -/

namespace Database

variable {db : Database Key Hash}

theorem marked_markOwnerWrite (db : Database Key Hash) (owner : Key) (hash : Hash) (now : ℕ) :
    (db.markOwnerWrite owner hash now).Marked owner hash now := by
  constructor
  · exact ⟨now, by simp [markOwnerWrite], le_refl _⟩
  · intro record hrecord howner hhash
    simp only [markOwnerWrite, List.mem_map] at hrecord
    obtain ⟨before, _, heq⟩ := hrecord
    split at heq
    · rw [← heq]
    next hother =>
      rw [← heq] at howner hhash
      exact absurd ⟨howner, hhash⟩ hother

theorem Marked.markOwnerWrite {hash : Hash} {since : ℕ} (hmarked : db.Marked owner hash since)
    (writer : Key) (other : Hash) (hsince : since ≤ now) :
    (db.markOwnerWrite writer other now).Marked owner hash since := by
  constructor
  · simp only [Database.markOwnerWrite]
    by_cases howner : owner = writer
    · by_cases hhash : hash = other
      · exact ⟨now, by simp [howner, hhash], hsince⟩
      · rw [howner, Function.update_self, Function.update_of_ne hhash, ← howner]
        exact hmarked.written
    · rw [Function.update_of_ne howner]
      exact hmarked.written
  · intro record hrecord howner hhash
    simp only [Database.markOwnerWrite, List.mem_map] at hrecord
    obtain ⟨before, hbefore, heq⟩ := hrecord
    split at heq
    · rw [← heq]
    · rw [← heq] at howner hhash ⊢
      exact hmarked.adopted before hbefore howner hhash

def markOwnerWrites (db : Database Key Hash) (owner : Key)
    (hashes : List Hash) (now : ℕ) : Database Key Hash :=
  hashes.foldl (fun db hash => db.markOwnerWrite owner hash now) db

theorem Marked.markOwnerWrites {hash : Hash} {since : ℕ} (hmarked : db.Marked owner hash since)
    (writer : Key) (hashes : List Hash) (hsince : since ≤ now) :
    (db.markOwnerWrites writer hashes now).Marked owner hash since := by
  induction hashes generalizing db with
  | nil => exact hmarked
  | cons other rest ih => exact ih (hmarked.markOwnerWrite writer other hsince)

theorem marked_markOwnerWrites (db : Database Key Hash) (owner : Key)
    (hashes : List Hash) (now : ℕ) :
    ∀ hash ∈ hashes, (db.markOwnerWrites owner hashes now).Marked owner hash
      now := by
  induction hashes generalizing db with
  | nil =>
    intro hash hhash
    cases hhash
  | cons first rest ih =>
    intro hash hhash
    rcases List.mem_cons.mp hhash with hfirst | hrest
    · rw [hfirst]
      exact (db.marked_markOwnerWrite owner first now).markOwnerWrites owner rest (le_refl now)
    · exact ih (db.markOwnerWrite owner first now) hash hrest

theorem known_markOwnerWrites {own : List (Key × Hash)}
    (hknown : ∀ record ∈ db.moves, (record.owner, record.hash) ∈ own →
      record.independent = true ∨ record.adopted = true)
    (owner : Key) (hashes : List Hash) (now : ℕ) :
    ∀ record ∈ (db.markOwnerWrites owner hashes now).moves, (record.owner, record.hash) ∈ own →
        record.independent = true ∨ record.adopted = true := by
  induction hashes generalizing db with
  | nil => exact hknown
  | cons first rest ih =>
    apply ih
    intro record hrecord hown
    simp only [Database.markOwnerWrite, List.mem_map] at hrecord
    obtain ⟨before, hbefore, heq⟩ := hrecord
    split at heq
    · rw [← heq]
      exact Or.inr rfl
    · rw [← heq] at hown ⊢
      exact hknown before hbefore hown

end Database

variable {outcome : Outcome} {shared after : Shared Key Hash} {action : Action Key Hash}

/-! ## The steps -/

theorem Owned.write {work : Write Key Hash}
    {next : Shared Key Hash × Write Key Hash} (hgood : Owned state)
    (htask : state.requests id = some (.write work))
    (hguard : ∀ now, work.pc = .mark now → now = state.shared.clock)
    (hstep : work.step state.shared outcome = some next) :
    Owned (state.put id (next.1, .write next.2)) := by
  have hquiet : ∀ pc, (∀ marked, pc ≠ .land marked) →
      Owned (state.put id (state.shared, .write (work.goto pc))) := by
    intro pc hpc
    apply hgood.put htask hgood.good (Shared.ages_of_same rfl rfl)
    intro marked hland
    exact absurd hland (hpc marked)
  unfold Write.step at hstep
  cases hpc : work.pc with simp only [hpc] at hstep
  | stamp =>
    cases hstep
    exact hquiet _ (by simp)
  | mark now =>
    have hnow := hguard now hpc
    cases hstep
    have hmarks : (work.hashes.foldl (fun db hash =>
        db.markOwnerWrite work.owner hash now) state.shared.db) =
          state.shared.db.markOwnerWrites work.owner work.hashes now := rfl
    rw [hmarks]
    apply hgood.put htask
    · exact ⟨hgood.good.held, Database.known_markOwnerWrites hgood.good.known _ _ _,
        hgood.good.drops⟩
    · refine ⟨le_refl _, ?_⟩
      intro owner hash since hpast _ hmarked
      exact hmarked.markOwnerWrites work.owner work.hashes (by rw [hnow]; exact hpast)
    · intro marked hland
      simp only [Write.goto, WritePc.land.injEq] at hland
      rw [← hland]
      refine ⟨le_refl _, ?_⟩
      intro _ hash hhash
      rw [hnow]
      exact Database.marked_markOwnerWrites _ _ _ _ hash hhash
  | land marked =>
    split at hstep
    · split at hstep
      next hlands =>
        obtain ⟨_, hmarked⟩ := hgood.timely id _ htask marked hpc
        have hadopted := (hmarked hlands.1 work.hash hlands.2).adopted
        cases hstep
        apply hgood.put htask
        · constructor
          · intro claim hclaim
            rw [Store.mem_commit]
            rcases List.mem_cons.mp hclaim with hnew | hold
            · exact Or.inl hnew
            · exact Or.inr (hgood.good.held claim hold)
          · intro record hrecord hown
            rcases List.mem_cons.mp hown with hnew | hold
            · rw [Prod.mk.injEq] at hnew
              exact Or.inr (hadopted record hrecord hnew.1 hnew.2)
            · exact hgood.good.known record hrecord hold
          · exact hgood.good.drops
        · exact Shared.ages_of_same rfl rfl
        · intro other hland
          cases hland
      · cases hstep
    · cases hstep
      exact hquiet _ (by simp)
  | done =>
    cases hstep

theorem Shared.beginClaimedMirror_cases {key : Key} {hash : Hash}
    (hclaim : shared.beginClaimedMirror key hash = some after) :
    after = { shared with store := shared.store.addClaim key hash } := by
  unfold Shared.beginClaimedMirror at hclaim
  simp only [Option.ite_none_right_eq_some, Option.some.injEq] at hclaim
  exact hclaim.2.symm

theorem Shared.Good.beginClaimedMirror {key : Key} {hash : Hash} (hgood : shared.Good)
    (hclaim : shared.beginClaimedMirror key hash = some after) :
    after.Good ∧ shared.Ages after := by
  rw [Shared.beginClaimedMirror_cases hclaim]
  constructor
  · apply hgood.claim
    intro claim hmem
    exact (Store.mem_addClaim _ _ _ claim).mpr (Or.inr hmem)
  · exact Shared.ages_of_same rfl rfl

section

variable (hgood : Owned state)
include hgood

theorem Owned.transfer {work : Transfer Key Hash} {next : Shared Key Hash × Transfer Key Hash}
    (htask : state.requests id = some (.transfer work))
    (hstep : work.step state.shared outcome = some next) :
    Owned (state.put id (next.1, .transfer next.2)) := by
  have hnow : work.now ≤ state.shared.clock := hgood.timely id _ htask
  have hquiet : ∀ found : Transfer Key Hash, found.now = work.now →
      Owned (state.put id (state.shared, .transfer found)) := by
    intro found hsame
    apply hgood.put htask hgood.good (Shared.ages_of_same rfl rfl)
    simp only [Task.Timely, hsame]
    exact hnow
  unfold Transfer.step at hstep
  cases hpc : work.pc with simp only [hpc] at hstep
  | list =>
    split at hstep
    all_goals
      cases hstep
      exact hquiet _ rfl
  | next =>
    split at hstep
    · cases hstep
      exact hquiet _ rfl
    · split at hstep
      all_goals
        cases hstep
        exact hquiet _ rfl
  | record hash =>
    cases hstep
    have hages := Shared.ages_recordMove state.shared work.key work.owner hash hnow
    exact hgood.put htask (hgood.good.recordMove _ _ _ _) hages (le_trans hnow hages.clock)
  | claim hash =>
    split at hstep
    · split at hstep
      next after hclaim =>
        cases hstep
        obtain ⟨hafter, hages⟩ := hgood.good.beginClaimedMirror hclaim
        exact hgood.put htask hafter hages (le_trans hnow hages.clock)
      · cases hstep
        exact hquiet _ rfl
    all_goals
      cases hstep
      exact hquiet _ rfl
  | forget hash =>
    cases hstep
    exact hgood.put htask (hgood.good.forgetMove _ _) (Shared.ages_forgetMove _ _ _) hnow
  | delete hash =>
    split at hstep
    · cases hstep
      exact hquiet _ rfl
    all_goals
      cases hstep
      exact hgood.put htask (hgood.good.deleteClaim _ _) (Shared.ages_of_same rfl rfl) hnow
  | done =>
    cases hstep

theorem Owned.restore {work : Restore Key Hash} {next : Shared Key Hash × Restore Key Hash}
    (htask : state.requests id = some (.restore work))
    (hstep : work.step state.shared outcome = some next) :
    Owned (state.put id (next.1, .restore next.2)) := by
  have hquiet : ∀ found : Restore Key Hash,
      Owned (state.put id (state.shared, .restore found)) := by
    intro found
    exact hgood.put htask hgood.good (Shared.ages_of_same rfl rfl) trivial
  unfold Restore.step at hstep
  cases hpc : work.pc with simp only [hpc] at hstep
  | page | next =>
    split at hstep
    all_goals
      cases hstep
      exact hquiet _
  | check hash =>
    cases hstep
    exact hquiet _
  | claim hash =>
    split at hstep
    · split at hstep
      next after hclaim =>
        cases hstep
        obtain ⟨hafter, hages⟩ := hgood.good.beginClaimedMirror hclaim
        exact hgood.put htask hafter hages trivial
      · cases hstep
        exact hquiet _
    all_goals
      cases hstep
      exact hquiet _
  | forget hash =>
    cases hstep
    exact hgood.put htask (hgood.good.forgetMove _ _) (Shared.ages_forgetMove _ _ _) trivial
  | drop hash =>
    cases hstep
    exact hgood.put htask (hgood.good.dropOwnerClaimIfOurs _ _)
      (Shared.ages_dropOwnerClaimIfOurs _ _ _) trivial
  | done =>
    cases hstep

omit [DecidableEq Key] [LinearOrder Hash] in
theorem Owned.prune {pc : PrunePc} {next : Shared Key Hash × PrunePc}
    (htask : state.requests id = some (.prune pc)) (hstep : pc.step state.shared = some next) :
    Owned (state.put id (next.1, .prune next.2)) := by
  have htimely := hgood.timely id _ htask
  cases pc with
  | stamp =>
    cases hstep
    apply hgood.put htask hgood.good (Shared.ages_of_same rfl rfl)
    intro now hnow
    rw [← PrunePc.prune.inj hnow]
  | prune now =>
    cases hstep
    apply hgood.put htask
    · exact ⟨hgood.good.held, hgood.good.known, hgood.good.drops⟩
    · exact Shared.ages_prune _ (htimely now rfl)
    · intro other hother
      cases hother
  | done => cases hstep

theorem Owned.release (key owner : Key) (hash : Hash) :
    Owned { state with shared := state.shared.release key owner hash } := by
  unfold Shared.release
  split
  · split
    · exact hgood.change (hgood.good.dropOwnerClaimIfOurs _ _)
        (Shared.ages_dropOwnerClaimIfOurs _ _ _)
    · exact hgood
  · exact hgood

theorem Owned.step {after : State Key Hash} (hguard : PromptStep state action)
    (hstep : OwnerClaims.step state action = some after) : Owned after := by
  cases action with
  | tick seconds =>
    cases hstep
    exact hgood.change ⟨hgood.good.held, hgood.good.known, hgood.good.drops⟩
      (Shared.ages_tick _ seconds)
  | write owner hashes hash =>
    cases hstep
    apply hgood.start
    intro marked hland
    cases hland
  | transfer key owner paid =>
    cases hstep
    exact hgood.start (le_refl _)
  | restore key issuer =>
    cases hstep
    exact hgood.start trivial
  | prune =>
    cases hstep
    apply hgood.start
    intro now hnow
    cases hnow
  | release key owner hash =>
    cases hstep
    exact hgood.release key owner hash
  | delete key hash =>
    cases hstep
    exact hgood.change (hgood.good.deleteClaim key hash) (Shared.ages_of_same rfl rfl)
  | upload key hash =>
    cases hstep
    refine hgood.change (hgood.good.claim ?_) (Shared.ages_of_same rfl rfl)
    intro claim hclaim
    exact (Store.mem_commit _ _ _ claim).mpr (Or.inr hclaim)
  | advance id outcome =>
    simp only [OwnerClaims.step, Option.bind_eq_some_iff, Option.map_eq_some_iff] at hstep
    obtain ⟨task, htask, result, hresult, hafter⟩ := hstep
    rw [← hafter]
    cases task with obtain ⟨next, hnext, hresult⟩ := Option.map_eq_some_iff.mp hresult
    | write work =>
      rw [← hresult]
      exact hgood.write htask (fun now => hguard work now htask) hnext
    | transfer work =>
      rw [← hresult]
      exact hgood.transfer htask hnext
    | restore work =>
      rw [← hresult]
      exact hgood.restore htask hnext
    | prune pc =>
      rw [← hresult]
      exact hgood.prune htask hnext
  | interrupt id =>
    obtain ⟨task, htask, hafter⟩ := Option.map_eq_some_iff.mp hstep
    rw [← hafter]
    apply hgood.put htask hgood.good (Shared.ages_of_same rfl rfl)
    cases task with
    | write work =>
      intro marked hland
      cases hland
    | transfer work =>
      have htimely := hgood.timely id _ htask
      exact htimely
    | restore work => trivial
    | prune pc =>
      intro now hnow
      cases hnow

end

/-- In every run in which the clock does not move between a write's look at it
and its mark, no owner claim that a hand-back or a release drops is the
owner's own. -/
theorem own_claims_are_never_dropped (clock : ℕ) (store : Store Key Hash) (state : State Key Hash)
    (hreach : Reaches step PromptStep (State.initial clock store) state) :
    ∀ drop ∈ state.shared.drops, drop.own = false := by
  have hgood : Owned state :=
    hreach.invariant (owned_initial clock store)
      (fun _ _ _ hgood hguard hstep => hgood.step hguard hstep)
  exact hgood.good.drops

/-! ## Runs -/

def promptCheck (state : State Key Hash) : Action Key Hash → Bool
  | .advance id _ =>
    match state.requests id with
    | some (.write { pc := .mark now, .. }) =>
      decide (now = state.shared.clock)
    | _ => true
  | _ => true

omit [DecidableEq Key] [LinearOrder Hash] in
theorem promptStep_of_check (hcheck : promptCheck state action = true) :
    PromptStep state action := by
  cases action with
  | advance id outcome =>
    intro write now htask hpc
    cases write
    simp only at hpc
    simp only [promptCheck, htask, hpc, decide_eq_true_eq] at hcheck
    exact hcheck
  | _ => trivial

def advances (id count : ℕ) : List (Action ℕ ℕ) :=
  List.replicate count (.advance id .ok)

/-- Key 2 hands blob 7 to owner 1 and gets it back. -/
theorem own_claims_are_never_dropped_by_hand_back : ∃ state : State ℕ ℕ,
      Reaches step PromptStep (State.initial 0 ⟨[7], [(2, 7)]⟩) state ∧
      state.shared.drops.length = 1 ∧
      ∀ drop ∈ state.shared.drops, drop.own = false := by
  have hrun : (checkedRun step promptCheck (State.initial 0 ⟨[7], [(2, 7)]⟩)
      (.transfer 2 1 [] :: advances 0 6 ++ .restore 2 1 :: advances 1 5)).any
        (fun state => decide (state.shared.drops.length = 1)) = true := by
    decide
  obtain ⟨state, hreach, htest⟩ := exists_reaches_of_check promptStep_of_check hrun
  exact ⟨state, hreach, of_decide_eq_true htest, own_claims_are_never_dropped 0 _ state hreach⟩

/-- A write that read the clock at 100 waits; a later one marks blob 7 at 101;
the first replaces that mark by 100.  The move recorded at 3701 finds no
recent write, the later write lands at 3701, and the hand-back drops its
claim. -/
theorem own_claim_dropped_by_hand_back : ∃ (state : State ℕ ℕ) (drop : Drop ℕ ℕ),
      Reaches step everyStep (State.initial 100 ⟨[7], [(2, 7)]⟩) state ∧
      drop ∈ state.shared.drops ∧ drop.own = true := by
  have hrun : (runActions step (State.initial 100 ⟨[7], [(2, 7)]⟩)
      (.write 1 [7] 7 :: advances 0 1 ++ .tick 1 :: .write 1 [7] 7 ::
        advances 1 2 ++ advances 0 1 ++ .tick 3600 :: .transfer 2 1 [] ::
        advances 2 3 ++ advances 1 1 ++ advances 2 3 ++
        .restore 2 1 :: advances 3 5)).any
      (fun state => state.shared.drops.any (·.own)) = true := by
    decide
  obtain ⟨state, hreach, htest⟩ := exists_reaches_of_runActions hrun
  rw [List.any_eq_true] at htest
  obtain ⟨drop, hdrop, hown⟩ := htest
  exact ⟨state, drop, hreach, hdrop, hown⟩

end OwnerClaims
end Wildbloom
