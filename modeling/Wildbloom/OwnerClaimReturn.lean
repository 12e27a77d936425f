import Wildbloom.OwnerClaimTransfer

/-!
# Transfer and hand-back

A hand-back that runs alone comes to its end and has then worked off every
record of the key's moves to the issuer.  A transfer and a hand-back together
leave the key with the claims it had, and those a pending hand-back owed it,
unless a record of an earlier move of a claim names another owner.
The owner keeps a claim that is its own: one it had, one a write of the hour
before the transfer may have made, or one another key's move relies on.
-/

namespace Wildbloom
namespace OwnerClaims

open GroupGate (Store)
open Relation (ReflTransGen)
open Runs

variable {Key Hash : Type} [DecidableEq Key] [LinearOrder Hash] {state : State Key Hash}

/-! ## Runs keep a state tidy -/

namespace Shared.Tidy

variable {shared : Shared Key Hash} (htidy : shared.Tidy) (key owner : Key) (hash : Hash) (now : ℕ)

include htidy

theorem deleteClaim : (shared.deleteClaim key hash).Tidy :=
  ⟨nodup_deleteClaim htidy.claims key hash, htidy.moves⟩

theorem addClaim : Tidy { shared with store := shared.store.addClaim key hash } :=
  ⟨nodup_addClaim htidy.claims key hash, htidy.moves⟩

theorem commit : Tidy { shared with store := shared.store.commit key hash } :=
  ⟨nodup_addClaim htidy.claims key hash, htidy.moves⟩

theorem forgetMove : (shared.forgetMove key hash).Tidy :=
  ⟨htidy.claims, Database.nodup_forgetMove htidy.moves⟩

theorem recordMove : (shared.recordMove key owner hash now).Tidy := by
  rw [Shared.recordMove_eq]
  exact ⟨htidy.claims, Database.nodup_insertMove htidy.moves _⟩

theorem dropOwnerClaimIfOurs : (shared.dropOwnerClaimIfOurs key hash).Tidy := by
  unfold Shared.dropOwnerClaimIfOurs
  split
  · exact htidy
  · split
    · have hdeleted := htidy.deleteClaim
      exact ⟨(hdeleted _ _).claims, Database.nodup_forgetMove htidy.moves⟩
    · exact htidy.forgetMove key hash

theorem release : (shared.release key owner hash).Tidy := by
  unfold Shared.release
  split
  · split
    · exact htidy.dropOwnerClaimIfOurs key hash
    · exact htidy
  · exact htidy

theorem markOwnerWrites (owner : Key) (hashes : List Hash) (now : ℕ) : Tidy { shared with
      db := shared.db.markOwnerWrites owner hashes now } := by
  refine ⟨htidy.claims, ?_⟩
  have hsame : ∀ (db : Database Key Hash), ((db.markOwnerWrites owner hashes
      now).moves.map fun record => (record.key, record.hash)) =
        db.moves.map fun record => (record.key, record.hash) := by
    induction hashes with
    | nil => exact fun db => rfl
    | cons hash rest ih =>
      intro db
      refine (ih (db.markOwnerWrite owner hash now)).trans ?_
      simp only [Database.markOwnerWrite, List.map_map]
      apply List.map_congr_left
      intro record _
      simp only [Function.comp_apply]
      split <;> rfl
  rw [hsame]
  exact htidy.moves

theorem taskStep {task : Task Key Hash} {outcome : Outcome} {next : Shared Key Hash × Task Key Hash}
    (hstep : task.step shared outcome = some next) : next.1.Tidy := by
  cases task with
  | write work =>
    simp only [Task.step, Write.step] at hstep
    repeat' split at hstep
    all_goals cases hstep
    all_goals first
      | exact htidy
      | exact htidy.markOwnerWrites _ _ _
      | exact ⟨(htidy.commit _ _).claims, htidy.moves⟩
  | transfer work =>
    simp only [Task.step, Transfer.step] at hstep
    repeat' split at hstep
    all_goals cases hstep
    all_goals first
      | exact htidy
      | exact htidy.recordMove _ _ _ _
      | exact htidy.forgetMove _ _
      | exact htidy.deleteClaim _ _
      | (rename_i hclaim
         rw [Shared.beginClaimedMirror_cases hclaim]
         exact htidy.addClaim _ _)
  | restore work =>
    simp only [Task.step, Restore.step] at hstep
    repeat' split at hstep
    all_goals cases hstep
    all_goals first
      | exact htidy
      | exact htidy.forgetMove _ _
      | exact htidy.dropOwnerClaimIfOurs _ _
      | (rename_i hclaim
         rw [Shared.beginClaimedMirror_cases hclaim]
         exact htidy.addClaim _ _)
  | prune pc =>
    cases pc <;> cases hstep
    all_goals exact ⟨htidy.claims, htidy.moves⟩

end Shared.Tidy

theorem tidy_step {after : State Key Hash} {action : Action Key Hash} (htidy : state.shared.Tidy)
    (hstep : OwnerClaims.step state action = some after) : after.shared.Tidy := by
  cases action with
  | advance id outcome =>
    simp only [OwnerClaims.step, Option.bind_eq_some_iff, Option.map_eq_some_iff] at hstep
    obtain ⟨task, _, next, hnext, rfl⟩ := hstep
    exact htidy.taskStep hnext
  | interrupt id =>
    obtain ⟨task, _, rfl⟩ := Option.map_eq_some_iff.mp hstep
    exact htidy
  | release key owner hash =>
    cases hstep
    exact htidy.release key owner hash
  | delete key hash =>
    cases hstep
    exact htidy.deleteClaim key hash
  | upload key hash =>
    cases hstep
    exact htidy.commit key hash
  | _ =>
    cases hstep
    exact ⟨htidy.claims, htidy.moves⟩

theorem tidy_of_reaches {clock : ℕ} {store : Store Key Hash}
    {guard : State Key Hash → Action Key Hash → Prop} (hnodup : store.claims.Nodup)
    (hreach : Reaches step guard (State.initial clock store) state) : state.shared.Tidy := by
  apply hreach.invariant
  · exact ⟨hnodup, List.nodup_nil⟩
  · intro before after action htidy _ hstep
    exact tidy_step htidy hstep

/-! ## One record -/

variable (shared : Shared Key Hash) (refused : Hash → Bool) (key owner issuer : Key)
  {paid tried closed rest : List Hash} {start moved after : Shared Key Hash}
  {restore : Restore Key Hash} (hash : Hash)

def Shared.keepsClaim : Bool :=
  (shared.db.movedRow key hash).any fun record =>
    !record.ownerClaimIsOurs || decide ((shared.db.otherMoves record.owner hash key).count ≠ 0)

def Shared.Due : Prop :=
  ∃ record, shared.db.movedRow key hash = some record ∧ record.owner = owner

def Shared.handBack : Shared Key Hash :=
  if shared.store.holdsClaim issuer hash && shared.accepts refused hash then
    { shared with store := shared.store.addClaim key hash }.dropOwnerClaimIfOurs key hash
  else shared.forgetMove key hash

/-- What a state has become after the records of the key for the hashes in
`closed` were worked off. -/
structure Returned (refused : Hash → Bool) (key issuer : Key)
    (start : Shared Key Hash) (closed : List Hash) (shared : Shared Key Hash) : Prop where
  tidy : shared.Tidy
  blobs : shared.store.blobs = start.store.blobs
  claims : ∀ who hash, (who, hash) ∈ shared.store.claims ↔
    if hash ∈ closed ∧ (issuer, hash) ∈ start.store.claims ∧ start.accepts refused hash then
      who = key ∨ (who, hash) ∈ start.store.claims ∧ (who = issuer → start.keepsClaim key hash)
    else (who, hash) ∈ start.store.claims
  moved : ∀ hash, shared.db.movedRow key hash =
    if hash ∈ closed then none else start.db.movedRow key hash
  beside : shared.db.beside key = start.db.beside key

variable {shared refused key owner issuer hash} {record : MovedClaim Key Hash}
  {other : Shared Key Hash}

theorem returned_start (htidy : start.Tidy) : Returned refused key issuer start [] start where
  tidy := htidy
  blobs := rfl
  claims := by simp
  moved := by simp
  beside := rfl

theorem Shared.db_dropOwnerClaimIfOurs (shared : Shared Key Hash) (key : Key) (hash : Hash) :
    (shared.dropOwnerClaimIfOurs key hash).db = shared.db.forgetMove key hash := by
  unfold Shared.dropOwnerClaimIfOurs
  split
  next hnone =>
    have hsame : (shared.db.moves.filter fun record =>
        ¬(record.key = key ∧ record.hash = hash)) = shared.db.moves := by
      rw [List.filter_eq_self]
      intro record hrecord
      exact decide_eq_true (Database.movedRow_eq_none.mp hnone record hrecord)
    simp only [Database.forgetMove, hsame]
  · split <;> rfl

theorem Shared.db_handBack : (shared.handBack refused key issuer hash).db =
      shared.db.forgetMove key hash := by
  unfold Shared.handBack
  split
  · rw [Shared.db_dropOwnerClaimIfOurs]
  · rfl

theorem store_dropOwnerClaimIfOurs (hdue : shared.Due key issuer hash) :
    (shared.dropOwnerClaimIfOurs key hash).store =
      if shared.keepsClaim key hash then shared.store
      else (shared.store.deleteClaim issuer hash).1 := by
  obtain ⟨record, hrow, howner⟩ := hdue
  unfold Shared.dropOwnerClaimIfOurs Shared.keepsClaim
  simp only [hrow, Option.any_some, howner]
  by_cases hours : record.ownerClaimIsOurs = true ∧ (shared.db.otherMoves issuer hash key).count = 0
  · rw [if_pos hours, if_neg]
    · rfl
    · simp [hours]
  · rw [if_neg hours, if_pos]
    · rfl
    · rw [not_and_or] at hours
      simpa using hours

theorem store_handBack (hdue : shared.Due key issuer hash) :
    (shared.handBack refused key issuer hash).store =
      if shared.store.holdsClaim issuer hash && shared.accepts refused hash then
        if shared.keepsClaim key hash then shared.store.addClaim key hash
        else ((shared.store.addClaim key hash).deleteClaim issuer hash).1
      else shared.store := by
  unfold Shared.handBack
  split
  · exact store_dropOwnerClaimIfOurs hdue
  · rfl

theorem Returned.handBack (hne : issuer ≠ key)
    (hreturned : Returned refused key issuer start closed shared)
    (hnew : hash ∉ closed) (hdue : shared.Due key issuer hash) :
    Returned refused key issuer start (hash :: closed)
      (shared.handBack refused key issuer hash) := by
  have hrow : shared.db.movedRow key hash = start.db.movedRow key hash := by
    rw [hreturned.moved, if_neg hnew]
  have haccepts : shared.accepts refused hash = start.accepts refused hash :=
    Shared.accepts_of_blobs hreturned.blobs
  have hkeeps : shared.keepsClaim key hash = start.keepsClaim key hash := by
    unfold Shared.keepsClaim
    simp only [hrow, Database.otherMoves_of_beside hreturned.beside]
  have hold : ∀ who, (who, hash) ∈ shared.store.claims ↔ (who, hash) ∈ start.store.claims := by
    intro who
    rw [hreturned.claims, if_neg fun hclosed => hnew hclosed.1]
  constructor
  · unfold Shared.handBack
    split
    · exact (hreturned.tidy.addClaim key hash).dropOwnerClaimIfOurs key hash
    · exact hreturned.tidy.forgetMove key hash
  · rw [store_handBack hdue, ← hreturned.blobs]
    have hkey : (key, hash) ∈ (shared.store.addClaim key hash).claims :=
      (Store.mem_addClaim _ _ _ _).mpr (Or.inl rfl)
    split
    · split
      · exact blobs_addClaim _ _ _
      · exact (blobs_deleteClaim hkey hne.symm).trans (blobs_addClaim _ _ _)
    · rfl
  · intro who found
    by_cases hfound : found = hash
    · subst hfound
      have hgoes : (shared.store.holdsClaim issuer found && shared.accepts refused found) = true ↔
            (issuer, found) ∈ start.store.claims ∧ start.accepts refused found = true := by
        rw [Bool.and_eq_true, Store.holdsClaim_iff, hold, haccepts]
      rw [store_handBack hdue, hkeeps]
      simp only [List.mem_cons_self, true_and, hgoes]
      split
      · split
        next hkeep =>
          rw [Store.mem_addClaim, hold, Prod.mk.injEq]
          simp [hkeep]
        next hdrop =>
          rw [Store.mem_deleteClaim, Store.mem_addClaim, hold, Prod.mk.injEq, ne_eq, Prod.mk.injEq]
          simp only [hdrop]
          grind
      · exact hold who
    · have hsame : (who, found) ∈ (shared.handBack refused key issuer
          hash).store.claims ↔ (who, found) ∈ shared.store.claims := by
        rw [store_handBack hdue]
        split
        · split
          · simp [Store.mem_addClaim, hfound]
          · simp [Store.mem_deleteClaim, Store.mem_addClaim, hfound]
        · rfl
      rw [hsame, hreturned.claims]
      simp [hfound]
  · intro found
    rw [Shared.db_handBack, Database.movedRow_forgetMove, hreturned.moved]
    by_cases hfound : found = hash <;> simp [hfound]
  · rw [Shared.db_handBack, Database.beside_forgetMove, hreturned.beside]

/-! ## The pass -/

def Restore.reply (refused : Hash → Bool) (restore : Restore Key Hash) : Outcome :=
  match restore.pc with
  | .claim hash => if refused hash then .refused else .ok
  | _ => .ok

def Restore.Goes (refused : Hash → Bool)
    (before after : Shared Key Hash × Restore Key Hash) : Prop :=
  before.2.step before.1 (before.2.reply refused) = some after

theorem goes_handBack (refused : Hash → Bool) (shared : Shared Key Hash)
    (restore : Restore Key Hash) (hash : Hash) :
    ReflTransGen (Restore.Goes refused) (shared, restore.goto (.check hash))
      (shared.handBack refused restore.key restore.issuer hash, restore.goto .next) := by
  unfold Shared.handBack Shared.accepts
  cases hholds : shared.store.holdsClaim restore.issuer hash with
  | false =>
    have hcheck : Restore.Goes refused (shared, restore.goto (.check hash))
        (shared, restore.goto (.forget hash)) := by
      simp [Restore.Goes, Restore.step, Restore.goto, hholds]
    exact .head hcheck (.single rfl)
  | true =>
    have hcheck : Restore.Goes refused (shared, restore.goto (.check hash))
        (shared, restore.goto (.claim hash)) := by
      simp [Restore.Goes, Restore.step, Restore.goto, hholds]
    refine .head hcheck ?_
    cases hget : shared.store.get hash <;> cases href : refused hash
    case true.false =>
      have hclaim : Restore.Goes refused (shared, restore.goto (.claim hash))
          ({ shared with store := shared.store.addClaim restore.key hash },
            restore.goto (.drop hash)) := by
        simp [Restore.Goes, Restore.reply, Restore.step, Restore.goto, href,
          Shared.beginClaimedMirror, hget]
      exact .head hclaim (.single rfl)
    all_goals
      have hclaim : Restore.Goes refused (shared, restore.goto (.claim hash))
          (shared, restore.goto (.forget hash)) := by
        simp [Restore.Goes, Restore.reply, Restore.step, Restore.goto, href,
          Shared.beginClaimedMirror, hget]
      exact .head hclaim (.single rfl)

section Page

variable {db : Database Key Hash} {after : Option Hash} {limit : ℕ}

theorem mem_movedPage (hmem : hash ∈ db.movedPage key owner after limit) :
    ∃ record ∈ db.moves, record.key = key ∧ record.owner = owner ∧ record.hash = hash := by
  have hall := List.mem_of_mem_take hmem
  rw [List.mem_insertionSort, List.mem_map] at hall
  obtain ⟨record, hrecord, hhash⟩ := hall
  rw [List.mem_filter] at hrecord
  have hfound := of_decide_eq_true hrecord.2
  exact ⟨record, hrecord.1, hfound.1, hfound.2.1, hhash⟩

theorem pairwise_moved (hmoves : (db.moves.map fun record => (record.key, record.hash)).Nodup) :
    (((db.moves.filter fun record =>
        record.key = key ∧ record.owner = owner ∧
          after.all fun last => decide (last < record.hash)).map
      (·.hash)).insertionSort (· ≤ ·)).Pairwise (· < ·) := by
  have hnodup : ((db.moves.filter fun record =>
      record.key = key ∧ record.owner = owner ∧
        after.all fun last => decide (last < record.hash)).map
      (·.hash)).Nodup := by
    apply List.Nodup.map_on _ (hmoves.of_map.filter _)
    intro record hrecord other hother heq
    rw [List.mem_filter] at hrecord hother
    have hleft := (of_decide_eq_true hrecord.2).1
    have hright := (of_decide_eq_true hother.2).1
    exact List.inj_on_of_nodup_map hmoves hrecord.1 hother.1
      (Prod.ext (hleft.trans hright.symm) heq)
  rw [← List.Perm.nodup_iff (List.perm_insertionSort (· ≤ ·) _)] at hnodup
  exact (List.pairwise_insertionSort (· ≤ ·) _).imp₂
    (fun _ _ hle hne => lt_of_le_of_ne hle hne) hnodup

theorem nodup_movedPage (hmoves : (db.moves.map fun record => (record.key, record.hash)).Nodup) :
    (db.movedPage key owner after limit).Nodup :=
  ((pairwise_moved hmoves).sublist (List.take_sublist _ _)).imp ne_of_lt

omit [DecidableEq Key] in
theorem mem_take_or_getLast_lt {hashes : List Hash}
    (hsorted : hashes.Pairwise (· < ·)) (hmem : hash ∈ hashes) (hlimit : 0 < limit) :
    hash ∈ hashes.take limit ∨ ∃ last, (hashes.take limit).getLast? = some last ∧ last < hash := by
  rw [← List.take_append_drop limit hashes, List.mem_append] at hmem
  rcases hmem with htake | hdrop
  · exact Or.inl htake
  · right
    have hsplit := hsorted
    rw [← List.take_append_drop limit hashes, List.pairwise_append] at hsplit
    have hne : hashes.take limit ≠ [] := by
      intro hnil
      rcases List.take_eq_nil_iff.mp hnil with hzero | hnone
      · omega
      · rw [hnone, List.drop_nil] at hdrop
        cases hdrop
    refine ⟨_, List.getLast?_eq_some_getLast hne, ?_⟩
    exact hsplit.2.2 _ (List.getLast_mem hne) hash hdrop

/-- A record after the cursor is on the page or after its last one. -/
theorem movedPage_or_after (hmoves : (db.moves.map fun record => (record.key, record.hash)).Nodup)
    (hrecord : record ∈ db.moves) (hkey : record.key = key) (howner : record.owner = owner)
    (hafter : ∀ last, after = some last → last < record.hash) (hlimit : 0 < limit) :
    record.hash ∈ db.movedPage key owner after limit ∨
      ∃ last, (db.movedPage key owner after limit).getLast? = some last ∧ last < record.hash := by
  unfold Database.movedPage
  apply mem_take_or_getLast_lt (pairwise_moved hmoves) _ hlimit
  rw [List.mem_insertionSort, List.mem_map]
  refine ⟨record, ?_, rfl⟩
  rw [List.mem_filter]
  refine ⟨hrecord, decide_eq_true ⟨hkey, howner, ?_⟩⟩
  cases after with
  | none => rfl
  | some last => exact decide_eq_true (hafter last rfl)

end Page

/-- Where a hand-back stands: what is left of its page is due, and so is
nothing else up to its cursor. -/
structure Returning (refused : Hash → Bool) (key issuer : Key)
    (start shared : Shared Key Hash) (restore : Restore Key Hash) (closed : List Hash) : Prop where
  same : restore.key = key ∧ restore.issuer = issuer
  returned : Returned refused key issuer start closed shared
  closed : ∀ hash ∈ closed, start.Due key issuer hash
  page : ∀ hash ∈ restore.page, shared.Due key issuer hash
  nodup : restore.page.Nodup
  left : ∀ hash, shared.Due key issuer hash → hash ∈ restore.page ∨
    ∀ last, restore.after = some last → last < hash

theorem due_handBack {found : Hash} :
    (shared.handBack refused key issuer hash).Due key issuer found ↔
      found ≠ hash ∧ shared.Due key issuer found := by
  unfold Shared.Due
  rw [Shared.db_handBack, Database.movedRow_forgetMove]
  by_cases hfound : found = hash <;> simp [hfound]

theorem moves_handBack_lt (hdue : shared.Due key issuer hash) :
    (shared.handBack refused key issuer hash).db.moves.length < shared.db.moves.length := by
  obtain ⟨record, hrow, -⟩ := hdue
  have hfound := List.find?_some hrow
  rw [Shared.db_handBack]
  apply List.length_filter_lt_length_iff_exists.mpr
  exact ⟨record, List.mem_of_find?_eq_some hrow, by simpa using hfound⟩

theorem Returned.due_iff (hreturned : Returned refused key issuer start closed shared) :
    shared.Due key issuer hash ↔ hash ∉ closed ∧ start.Due key issuer hash := by
  unfold Shared.Due
  rw [hreturned.moved]
  by_cases hclosed : hash ∈ closed <;> simp [hclosed]

theorem Returning.next (hne : issuer ≠ key)
    (hreturning : Returning refused key issuer start shared restore closed)
    (hpage : restore.page = hash :: rest) :
    Returning refused key issuer start (shared.handBack refused key issuer hash)
      { restore with page := rest, pc := .next } (hash :: closed) := by
  have hdue := hreturning.page hash (by rw [hpage]; exact List.mem_cons_self)
  have hstart := hreturning.returned.due_iff.mp hdue
  have hnodup := hreturning.nodup
  rw [hpage, List.nodup_cons] at hnodup
  constructor
  · exact hreturning.same
  · exact hreturning.returned.handBack hne hstart.1 hdue
  · intro found hfound
    rcases List.mem_cons.mp hfound with heq | hold
    · rw [heq]
      exact hstart.2
    · exact hreturning.closed found hold
  · intro found hfound
    rw [due_handBack]
    refine ⟨?_, hreturning.page found ?_⟩
    · rintro rfl
      exact hnodup.1 hfound
    · rw [hpage]
      exact List.mem_cons_of_mem _ hfound
  · exact hnodup.2
  · intro found hfound
    rw [due_handBack] at hfound
    have hleft := hreturning.left found hfound.2
    rw [hpage] at hleft
    rcases hleft with hmem | hlater
    · exact Or.inl (List.mem_of_ne_of_mem hfound.1 hmem)
    · exact Or.inr hlater

theorem Returning.run (hne : issuer ≠ key) (page : List Hash)
    (hreturning : Returning refused key issuer start shared restore closed)
    (hpage : restore.page = page) (hpc : restore.pc = .next) :
    ∃ after next done, ReflTransGen (Restore.Goes refused) (shared, restore) (after, next) ∧
      Returning refused key issuer start after next done ∧
      next.page = [] ∧ next.pc = .next ∧
      after.db.moves.length + page.length ≤ shared.db.moves.length := by
  induction page generalizing shared restore closed with
  | nil => exact ⟨shared, restore, closed, .refl, hreturning, hpage, hpc, le_rfl⟩
  | cons hash rest ih =>
    have hgoes : Restore.Goes refused (shared, restore)
        (shared, ({ restore with page := rest, pc := .next } :
          Restore Key Hash).goto (.check hash)) := by
      simp only [Restore.Goes, Restore.step, hpc, hpage]
      rfl
    have hhand : ReflTransGen (Restore.Goes refused)
        (shared, ({ restore with page := rest, pc := .next } : Restore Key Hash).goto (.check hash))
        (shared.handBack refused key issuer hash, { restore with page := rest, pc := .next }) := by
      obtain ⟨hkey, hissuer⟩ := hreturning.same
      rw [← hkey, ← hissuer]
      exact goes_handBack refused shared { restore with page := rest, pc := .next } hash
    have hless : (shared.handBack refused key issuer
        hash).db.moves.length < shared.db.moves.length :=
      moves_handBack_lt (hreturning.page hash (by rw [hpage]; exact List.mem_cons_self))
    obtain ⟨after, next, done, hrun, hnext, hempty, hat, hfewer⟩ :=
      ih (hreturning.next hne hpage) rfl rfl
    refine ⟨after, next, done, .head hgoes (hhand.trans hrun), hnext, hempty, hat, ?_⟩
    rw [List.length_cons]
    omega

theorem Shared.Tidy.due_iff (htidy : shared.Tidy) : shared.Due key issuer hash ↔
      ∃ record ∈ shared.db.moves, record.key = key ∧ record.owner = issuer ∧
        record.hash = hash := by
  simp only [Shared.Due, Database.movedRow_eq_some htidy.moves]
  grind

def Shared.turn (shared : Shared Key Hash) (key issuer : Key)
    (restore : Restore Key Hash) : List Hash :=
  shared.db.movedPage key issuer restore.after movedPageSize

section

variable (hreturning : Returning refused key issuer start shared restore closed)
  (hpage : restore.page = [])
include hreturning hpage

theorem Returning.listed (hdue : shared.Due key issuer hash) :
    hash ∈ shared.turn key issuer restore ∨
      ∃ last, (shared.turn key issuer restore).getLast? = some last ∧ last < hash := by
  have htidy := hreturning.returned.tidy
  have hlater := hreturning.left hash hdue
  rw [hpage] at hlater
  obtain ⟨record, hrecord, hkey, howner, hhash⟩ := htidy.due_iff.mp hdue
  rw [← hhash] at hlater ⊢
  exact movedPage_or_after htidy.moves hrecord hkey howner
    (hlater.resolve_left List.not_mem_nil) (by decide)

theorem Returning.turn {last : Hash}
    (hlast : (shared.turn key issuer restore).getLast? = some last) :
    Returning refused key issuer start shared
      { restore with
        after := some last
        page := shared.turn key issuer restore
        pc := .next } closed := by
  have htidy := hreturning.returned.tidy
  refine ⟨hreturning.same, hreturning.returned, hreturning.closed, ?_,
    nodup_movedPage htidy.moves, ?_⟩
  · intro hash hhash
    exact htidy.due_iff.mpr (mem_movedPage hhash)
  · intro hash hdue
    rcases hreturning.listed hpage hdue with hmem | ⟨found, hfound, hless⟩
    · exact Or.inl hmem
    · right
      intro other hother
      cases hother
      rw [hlast, Option.some.injEq] at hfound
      rw [hfound]
      exact hless

theorem Returning.closed_all (hnone : (shared.turn key issuer restore).getLast? = none)
    (hash : Hash) : hash ∈ closed ↔ start.Due key issuer hash := by
  constructor
  · exact hreturning.closed hash
  · intro hstart
    by_contra hopen
    have hdue := hreturning.returned.due_iff.mpr ⟨hopen, hstart⟩
    rcases hreturning.listed hpage hdue with hmem | ⟨last, hsome, -⟩
    · rw [List.getLast?_eq_none_iff.mp hnone] at hmem
      cases hmem
    · rw [hnone] at hsome
      cases hsome

end

/-- The hand-back comes to its end, and has then worked off every record. -/
theorem Returning.finish (hne : issuer ≠ key) (count : ℕ)
    (hreturning : Returning refused key issuer start shared restore closed)
    (hpage : restore.page = []) (hpc : restore.pc = .page)
    (hcount : shared.db.moves.length = count) :
    ∃ after next done, ReflTransGen (Restore.Goes refused) (shared, restore) (after, next) ∧
      next.pc = .done ∧ Returned refused key issuer start done after ∧
      ∀ hash, hash ∈ done ↔ start.Due key issuer hash := by
  induction count using Nat.strong_induction_on generalizing shared restore closed with
  | _ count ih =>
    obtain ⟨hkey, hissuer⟩ := hreturning.same
    cases hlast : (shared.turn key issuer restore).getLast? with
    | none =>
      have hgoes : Restore.Goes refused (shared, restore) (shared, restore.goto .done) := by
        simp only [Shared.turn] at hlast
        simp only [Restore.Goes, Restore.step, hpc, hkey, hissuer, hlast]
      exact ⟨shared, restore.goto .done, closed, .single hgoes, rfl,
        hreturning.returned, hreturning.closed_all hpage hlast⟩
    | some last =>
      have hgoes : Restore.Goes refused (shared, restore) (shared, { restore with
            after := some last
            page := shared.turn key issuer restore
            pc := .next }) := by
        simp only [Shared.turn] at hlast ⊢
        simp only [Restore.Goes, Restore.step, hpc, hkey, hissuer, hlast]
      obtain ⟨after, next, done, hrun, hnext, hempty, hat, hfewer⟩ :=
        (hreturning.turn hpage hlast).run hne (shared.turn key issuer restore) rfl rfl
      have hagain : Restore.Goes refused (after, next) (after, next.goto .page) := by
        simp only [Restore.Goes, Restore.step, hat, hempty]
      have hback : Returning refused key issuer start after (next.goto .page) done :=
        ⟨hnext.same, hnext.returned, hnext.closed, hnext.page, hnext.nodup, hnext.left⟩
      have hpos := List.length_pos_of_mem (List.mem_of_getLast? hlast)
      obtain ⟨final, ended, all, hrest, hdone⟩ :=
        ih after.db.moves.length (by omega) hback hempty rfl rfl
      exact ⟨final, ended, all, .head hgoes (hrun.trans (.head hagain hrest)), hdone⟩

theorem restore_completes (refused : Hash → Bool) (htidy : start.Tidy) (hne : issuer ≠ key) :
    ∃ after next done, ReflTransGen (Restore.Goes refused)
        (start, { key := key, issuer := issuer }) (after, next) ∧
      next.pc = .done ∧ Returned refused key issuer start done after ∧
      ∀ hash, hash ∈ done ↔ start.Due key issuer hash := by
  apply Returning.finish hne _ _ rfl rfl rfl
  · exact []
  · refine ⟨⟨rfl, rfl⟩, returned_start htidy, ?_, ?_, List.nodup_nil, ?_⟩
    · simp
    · simp
    · intro hash _
      right
      intro last hlast
      cases hlast

/-! ## There and back -/

def TransferEnds (refused : Hash → Bool) (key owner : Key)
    (paid : List Hash) (shared moved : Shared Key Hash) : Prop :=
  ∃ transfer, ReflTransGen (Transfer.Goes refused) (shared,
        { key := key, owner := owner, now := shared.clock, paid := paid })
      (moved, transfer) ∧
    transfer.pc = .done

def RestoreEnds (refused : Hash → Bool) (key issuer : Key)
    (shared after : Shared Key Hash) : Prop :=
  ∃ restore, ReflTransGen (Restore.Goes refused)
    (shared, { key := key, issuer := issuer }) (after, restore) ∧ restore.pc = .done

theorem end_unique {α : Type*} (go : α → Option α) {start one two : α}
    (hone : ReflTransGen (fun before after => go before = some after) start one)
    (htwo : ReflTransGen (fun before after => go before = some after) start two)
    (hstop : go one = none) (hhalt : go two = none) : one = two := by
  have hunique : Relator.RightUnique fun before after => go before = some after :=
    fun _ _ _ hafter hnext => Option.some.inj (hafter.symm.trans hnext)
  rcases hone.total_of_right_unique hunique htwo with hrest | hrest
  · rcases hrest.cases_head with heq | ⟨next, hnext, -⟩
    · exact heq
    · rw [hstop] at hnext
      cases hnext
  · rcases hrest.cases_head with heq | ⟨next, hnext, -⟩
    · exact heq.symm
    · rw [hhalt] at hnext
      cases hnext

theorem TransferEnds.unique (hmoved : TransferEnds refused key owner paid shared moved)
    (hother : TransferEnds refused key owner paid shared other) : moved = other := by
  obtain ⟨one, hone, hdone⟩ := hmoved
  obtain ⟨two, htwo, hended⟩ := hother
  refine congrArg Prod.fst (end_unique (fun at_ : _ × Transfer Key Hash =>
    at_.2.step at_.1 (at_.2.reply refused)) hone htwo ?_ ?_)
  · simp [Transfer.step, hdone]
  · simp [Transfer.step, hended]

theorem RestoreEnds.unique (hafter : RestoreEnds refused key issuer shared after)
    (hother : RestoreEnds refused key issuer shared other) : after = other := by
  obtain ⟨one, hone, hdone⟩ := hafter
  obtain ⟨two, htwo, hended⟩ := hother
  refine congrArg Prod.fst (end_unique (fun at_ : _ × Restore Key Hash =>
    at_.2.step at_.1 (at_.2.reply refused)) hone htwo ?_ ?_)
  · simp [Restore.step, hdone]
  · simp [Restore.step, hended]

variable (shared refused key owner paid hash)

/-- The blobs that the hand-back gives to the key: those of its friend claims,
and those an earlier hand-back left with the owner.  The store must take
them. -/
def Shared.GoesBack : Prop :=
  shared.accepts refused hash = true ∧ ((key, hash) ∈ shared.store.claims ∧ hash ∉ paid ∨
      shared.Due key owner hash ∧ (owner, hash) ∈ shared.store.claims)

/-- The owner's claim on a blob that goes back stays.  A record from before
the transfer says whether it is the owner's own; otherwise it is when the
owner has it before the transfer, or wrote the blob within the window before
it.  It also stays while another key's move relies on it. -/
def Shared.ownersOwn : Bool :=
  (match shared.db.movedRow key hash with
    | some record => record.independent || record.adopted
    | none => shared.store.holdsClaim owner hash ||
        shared.db.recentOwnerWrite owner hash (shared.clock - ownerWriteWindow)) ||
    decide ((shared.db.otherMoves owner hash key).count ≠ 0)

/-- No friend claim that the transfer moves has a record from a grant by
another owner: `record_move` keeps such a record, and the hand-back asks for
the records of its issuer. -/
def Shared.HomeTo : Prop :=
  ∀ hash, (key, hash) ∈ shared.store.claims → hash ∉ paid → shared.accepts refused hash = true →
    ∀ record, shared.db.movedRow key hash = some record → record.owner = owner

/-- What the records must say for the trip to change nothing.  No hand-back
is pending for a blob that the key has no claim on, and on a blob that goes
back the records take the owner for a claimant exactly when it is one. -/
structure Shared.Accounted : Prop where
  home : shared.HomeTo refused key owner paid
  settled : ∀ hash, shared.Due key owner hash → (owner, hash) ∈ shared.store.claims →
    shared.accepts refused hash = true → (key, hash) ∈ shared.store.claims
  known : ∀ hash, shared.GoesBack refused key owner paid hash →
    (shared.ownersOwn key owner hash = true ↔ (owner, hash) ∈ shared.store.claims)

variable {shared refused key owner paid hash}

theorem keepsClaim_of_row (hrow : moved.db.movedRow key hash = some record)
    (howner : record.owner = owner) (hbeside : moved.db.beside key = start.db.beside key) :
    moved.keepsClaim key hash = (record.independent || record.adopted ||
      decide ((start.db.otherMoves owner hash key).count ≠ 0)) := by
  unfold Shared.keepsClaim MovedClaim.ownerClaimIsOurs
  rw [hrow, Option.any_some, howner, Database.otherMoves_of_beside hbeside]
  simp

/-- The record a transfer makes knows whether the claim is the owner's. -/
theorem moveRecord_keeps (hnone : start.db.movedRow key hash = none) :
    ((start.moveRecord key owner hash start.clock).independent ||
      (start.moveRecord key owner hash start.clock).adopted ||
      decide ((start.db.otherMoves owner hash key).count ≠ 0)) =
        start.ownersOwn key owner hash := by
  unfold Shared.ownersOwn Shared.moveRecord
  rw [hnone]
  by_cases hcount : (start.db.otherMoves owner hash key).count = 0
  · have hrows : start.db.otherRows owner hash key = [] :=
      List.eq_nil_of_length_eq_zero hcount
    simp [Database.otherMoves, hrows]
  · simp [hcount]

theorem Handed.keepsClaim (hhanded : Handed refused key owner start.clock start tried moved)
    (hhome : ∀ record, start.db.movedRow key hash = some record → record.owner = owner)
    (hback : hash ∈ tried ∧ start.accepts refused hash = true ∨
      hash ∉ tried ∧ start.Due key owner hash) :
    moved.keepsClaim key hash = start.ownersOwn key owner hash := by
  have hrow : moved.db.movedRow key hash = some ((start.db.movedRow key hash).getD
        (start.moveRecord key owner hash start.clock)) := by
    rw [hhanded.moved]
    rcases hback with ⟨htried, haccepts⟩ | ⟨hnew, record, hrecord, -⟩
    · rw [if_pos htried, if_pos haccepts]
    · rw [if_neg hnew, hrecord]
      rfl
  cases hold : start.db.movedRow key hash with
  | some record =>
    rw [hold, Option.getD_some] at hrow
    rw [keepsClaim_of_row hrow (hhome record hold) hhanded.beside]
    simp only [Shared.ownersOwn, hold]
  | none =>
    rw [hold, Option.getD_none] at hrow
    rw [keepsClaim_of_row hrow rfl hhanded.beside]
    exact moveRecord_keeps hold

theorem Handed.goesBack_iff (hhanded : Handed refused key owner start.clock start tried moved)
    (htried : ∀ hash, hash ∈ tried ↔ (key, hash) ∈ start.store.claims ∧ hash ∉ paid)
    (hhome : start.HomeTo refused key owner paid) :
    moved.Due key owner hash ∧ (owner, hash) ∈ moved.store.claims ∧
        moved.accepts refused hash = true ↔
      start.GoesBack refused key owner paid hash := by
  have hsame : moved.accepts refused hash = start.accepts refused hash :=
    Shared.accepts_of_blobs hhanded.blobs
  unfold Shared.GoesBack
  rw [hsame, hhanded.claims, ← htried]
  by_cases hmem : hash ∈ tried
  · by_cases haccepts : start.accepts refused hash = true
    · have hdue : moved.Due key owner hash := by
        refine ⟨(start.db.movedRow key hash).getD
          (start.moveRecord key owner hash start.clock), ?_, ?_⟩
        · rw [hhanded.moved, if_pos hmem, if_pos haccepts]
        · obtain ⟨hclaim, hpaid⟩ := (htried hash).mp hmem
          cases hold : start.db.movedRow key hash with
          | some record => exact hhome hash hclaim hpaid haccepts record hold
          | none => rfl
      simp [hmem, haccepts, hdue]
    · simp [haccepts]
  · have hdue : moved.Due key owner hash ↔ start.Due key owner hash := by
      unfold Shared.Due
      rw [hhanded.moved, if_neg hmem]
    simp only [hmem, hdue, false_and, if_false, false_or]
    tauto

/-- The claims after a transfer from `start` and a hand-back: the key has the
claims it had and those on what goes back, the owner's claim on what goes back
is left where it is the owner's own, and all others are as they were. -/
structure AfterTrip (refused : Hash → Bool) (key owner : Key)
    (paid : List Hash) (start after : Shared Key Hash) : Prop where
  restored : ∀ hash, (key, hash) ∈ after.store.claims ↔ (key, hash) ∈ start.store.claims ∨
      start.GoesBack refused key owner paid hash
  back : ∀ hash, start.GoesBack refused key owner paid hash → ((owner, hash) ∈ after.store.claims ↔
      start.ownersOwn key owner hash = true)
  untouched : ∀ hash, ¬start.GoesBack refused key owner paid hash →
    ((owner, hash) ∈ after.store.claims ↔ (owner, hash) ∈ start.store.claims)
  others : ∀ who hash, who ≠ key → who ≠ owner →
    ((who, hash) ∈ after.store.claims ↔ (who, hash) ∈ start.store.claims)

theorem Handed.afterTrip (hne : owner ≠ key)
    (hhanded : Handed refused key owner start.clock start tried moved)
    (htried : ∀ hash, hash ∈ tried ↔ (key, hash) ∈ start.store.claims ∧ hash ∉ paid)
    (hhome : start.HomeTo refused key owner paid)
    (hreturned : Returned refused key owner moved closed after)
    (hclosed : ∀ hash, hash ∈ closed ↔ moved.Due key owner hash) :
    AfterTrip refused key owner paid start after := by
  have hback : ∀ hash, (hash ∈ closed ∧ (owner, hash) ∈ moved.store.claims ∧
      moved.accepts refused hash = true) ↔ start.GoesBack refused key owner paid hash := by
    intro hash
    rw [hclosed]
    exact hhanded.goesBack_iff htried hhome
  have hstay : ∀ hash, ¬start.GoesBack refused key owner paid hash →
      ∀ who, (who, hash) ∈ after.store.claims ↔ (who, hash) ∈ start.store.claims := by
    intro hash hgoes who
    rw [hreturned.claims, if_neg ((hback hash).not.mpr hgoes), hhanded.claims, if_neg]
    rintro ⟨hmem, haccepts⟩
    exact hgoes ⟨haccepts, Or.inl ((htried hash).mp hmem)⟩
  constructor
  · intro hash
    by_cases hgoes : start.GoesBack refused key owner paid hash
    · rw [hreturned.claims, if_pos ((hback hash).mpr hgoes)]
      simp [hgoes]
    · rw [hstay hash hgoes]
      simp [hgoes]
  · intro hash hgoes
    have hclaim := ((hback hash).mpr hgoes).2.1
    have hkeeps : moved.keepsClaim key hash = start.ownersOwn key owner hash := by
      by_cases hmem : hash ∈ tried
      · obtain ⟨hheld, hpaid⟩ := (htried hash).mp hmem
        exact hhanded.keepsClaim (hhome hash hheld hpaid hgoes.1) (Or.inl ⟨hmem, hgoes.1⟩)
      · have hdue : start.Due key owner hash := by
          rcases hgoes.2 with hfriend | hpending
          · exact absurd ((htried hash).mpr hfriend) hmem
          · exact hpending.1
        refine hhanded.keepsClaim ?_ (Or.inr ⟨hmem, hdue⟩)
        intro record hrecord
        obtain ⟨row, hrow, howner⟩ := hdue
        rw [hrow, Option.some.injEq] at hrecord
        rw [← hrecord]
        exact howner
    rw [hreturned.claims, if_pos ((hback hash).mpr hgoes)]
    simp [hne, hclaim, hkeeps]
  · intro hash hgoes
    exact hstay hash hgoes owner
  · intro who hash hkey hwho
    have hmoved : (who, hash) ∈ moved.store.claims ↔ (who, hash) ∈ start.store.claims := by
      rw [hhanded.claims]
      simp [hkey, hwho]
    rw [hreturned.claims]
    simp [hkey, hwho, hmoved]

theorem Handed.later {now : ℕ}
    (hhanded : Handed refused key owner now start tried moved) (later : ℕ) :
    Handed refused key owner now start tried { moved with clock := later } :=
  ⟨⟨hhanded.tidy.claims, hhanded.tidy.moves⟩, hhanded.blobs, hhanded.claims,
    hhanded.moved, hhanded.beside, hhanded.ownerWrites⟩

/-- A friend claim with a record to another owner is moved and does not come
back. -/
theorem Handed.lost (hne : owner ≠ key)
    (hhanded : Handed refused key owner start.clock start tried moved)
    (htried : ∀ hash, hash ∈ tried ↔ (key, hash) ∈ start.store.claims ∧ hash ∉ paid)
    (hreturned : Returned refused key owner moved closed after)
    (hclosed : ∀ hash, hash ∈ closed ↔ moved.Due key owner hash)
    (hclaim : (key, hash) ∈ start.store.claims) (hpaid : hash ∉ paid)
    (haccepts : start.accepts refused hash = true)
    (hrow : start.db.movedRow key hash = some record) (hother : record.owner ≠ owner) :
    (key, hash) ∉ after.store.claims := by
  have hmem : hash ∈ tried := (htried hash).mpr ⟨hclaim, hpaid⟩
  have hopen : hash ∉ closed := by
    rw [hclosed]
    rintro ⟨found, hfound, howner⟩
    rw [hhanded.moved, if_pos hmem, if_pos haccepts, hrow, Option.getD_some,
      Option.some.injEq] at hfound
    rw [hfound] at hother
    exact hother howner
  rw [hreturned.claims, if_neg fun hback => hopen hback.1, hhanded.claims, if_pos ⟨hmem, haccepts⟩]
  rintro (hsame | ⟨hself, -⟩)
  · exact hne hsame.symm
  · exact hself rfl

/-- What a trip does to the claims of the key and the owner. -/
structure Trip (refused : Hash → Bool) (key owner : Key)
    (paid : List Hash) (start after : Shared Key Hash) : Prop where
  home : start.HomeTo refused key owner paid → AfterTrip refused key owner paid start after
  lost : ∀ hash record, (key, hash) ∈ start.store.claims → hash ∉ paid →
    start.accepts refused hash = true → start.db.movedRow key hash = some record →
      record.owner ≠ owner → (key, hash) ∉ after.store.claims

theorem trip_completes (refused : Hash → Bool) (paid : List Hash) (htidy : start.Tidy)
    (hne : owner ≠ key) (later : ℕ) :
    ∃ moved after, TransferEnds refused key owner paid start moved ∧
      RestoreEnds refused key owner { moved with clock := later } after ∧
      Trip refused key owner paid start after := by
  obtain ⟨moved, transfer, hrun, hdone, hhanded, htried⟩ :=
    transfer_completes refused start.clock paid htidy hne
  have hlater := hhanded.later later
  obtain ⟨after, restore, closed, hback, hended, hreturned, hclosed⟩ :=
    restore_completes refused hlater.tidy hne
  refine ⟨moved, after, ⟨transfer, hrun, hdone⟩, ⟨restore, hback, hended⟩, ?_, ?_⟩
  · exact fun hhome => hlater.afterTrip hne htried hhome hreturned hclosed
  · exact fun _ _ => hlater.lost hne htried hreturned hclosed

/-- Nothing changes for a key without records, when the owner neither wrote a
blob that goes back, and that it has no claim on, within the window nor took
it over from another key. -/
theorem AfterTrip.same (htrip : AfterTrip refused key owner paid start after)
    (hfresh : ∀ record ∈ start.db.moves, record.key ≠ key)
    (hidle : ∀ hash, start.GoesBack refused key owner paid hash →
      (owner, hash) ∉ start.store.claims → start.db.recentOwnerWrite owner hash
            (start.clock - ownerWriteWindow) = false ∧
          (start.db.otherMoves owner hash key).count = 0)
    (claim : Key × Hash) : claim ∈ after.store.claims ↔ claim ∈ start.store.claims := by
  obtain ⟨who, hash⟩ := claim
  have hnone : start.db.movedRow key hash = none := by
    rw [Database.movedRow_eq_none]
    intro record hrecord hsame
    exact hfresh record hrecord hsame.1
  by_cases hkey : who = key
  · rw [hkey, htrip.restored]
    constructor
    · rintro (hheld | ⟨-, hfriend | ⟨⟨record, hrow, -⟩, -⟩⟩)
      · exact hheld
      · exact hfriend.1
      · rw [hnone] at hrow
        cases hrow
    · exact Or.inl
  · by_cases hwho : who = owner
    · rw [hwho]
      by_cases hgoes : start.GoesBack refused key owner paid hash
      · rw [htrip.back hash hgoes, ← Store.holdsClaim_iff]
        unfold Shared.ownersOwn
        rw [hnone]
        by_cases hheld : (owner, hash) ∈ start.store.claims
        · simp [(Store.holdsClaim_iff _ _ _).mpr hheld]
        · obtain ⟨hrecent, hcount⟩ := hidle hash hgoes hheld
          simp [hrecent, hcount]
      · exact htrip.untouched hash hgoes
    · exact htrip.others who hash hkey hwho

/-- The trip leaves the claims of the key and the owner as they were exactly
when the records account for them. -/
theorem Trip.unchanged_iff (htrip : Trip refused key owner paid start after) :
    (∀ hash, ((key, hash) ∈ after.store.claims ↔ (key, hash) ∈ start.store.claims) ∧
        ((owner, hash) ∈ after.store.claims ↔ (owner, hash) ∈ start.store.claims)) ↔
      start.Accounted refused key owner paid := by
  constructor
  · intro hsame
    have hhome : start.HomeTo refused key owner paid := by
      intro hash hclaim hpaid haccepts record hrow
      by_contra hother
      exact htrip.lost hash record hclaim hpaid haccepts hrow hother ((hsame hash).1.mpr hclaim)
    have hafter := htrip.home hhome
    refine ⟨hhome, ?_, ?_⟩
    · intro hash hdue hclaim haccepts
      rw [← (hsame hash).1, hafter.restored]
      exact Or.inr ⟨haccepts, Or.inr ⟨hdue, hclaim⟩⟩
    · intro hash hgoes
      rw [← hafter.back hash hgoes]
      exact (hsame hash).2
  · intro haccounted hash
    have hafter := htrip.home haccounted.home
    constructor
    · rw [hafter.restored]
      constructor
      · rintro (hheld | ⟨haccepts, hfriend | ⟨hdue, hclaim⟩⟩)
        · exact hheld
        · exact hfriend.1
        · exact haccounted.settled hash hdue hclaim haccepts
      · exact Or.inl
    · by_cases hgoes : start.GoesBack refused key owner paid hash
      · rw [hafter.back hash hgoes]
        exact haccounted.known hash hgoes
      · exact hafter.untouched hash hgoes

/-- A transfer of the claims of a key to its owner and a later hand-back, with
nothing between them but time and with a store that refuses the same blobs
both times, come to their ends.  The claims of the key and the owner are then
as they were exactly when the records before the transfer account for them.
When only no record names another owner, the key has the claims it had, and
those on the blobs an earlier hand-back had left with the owner; the owner has
lost only claims that moves made.  No claim at all changes when the key had no
records and no other key or recent write may have made an owner claim. -/
theorem transfer_then_restore {clock : ℕ} {store : Store Key Hash}
    {state : State Key Hash} (hnodup : store.claims.Nodup)
    (hreach : Reaches step everyStep (State.initial clock store) state)
    (refused : Hash → Bool) {key owner : Key} (hne : owner ≠ key)
    (paid : List Hash) (later : ℕ) :
    (∃ moved, TransferEnds refused key owner paid state.shared moved) ∧
    ∀ moved, TransferEnds refused key owner paid state.shared moved →
      (∃ after, RestoreEnds refused key owner { moved with clock := later } after) ∧
      ∀ after, RestoreEnds refused key owner { moved with clock := later } after →
        ((∀ hash, ((key, hash) ∈ after.store.claims ↔ (key, hash) ∈ state.shared.store.claims) ∧
            ((owner, hash) ∈ after.store.claims ↔ (owner, hash) ∈ state.shared.store.claims)) ↔
          state.shared.Accounted refused key owner paid) ∧
        (state.shared.HomeTo refused key owner paid →
          AfterTrip refused key owner paid state.shared after) ∧
        ((∀ record ∈ state.shared.db.moves, record.key ≠ key) →
          (∀ hash, state.shared.GoesBack refused key owner paid hash →
            (owner, hash) ∉ state.shared.store.claims → state.shared.db.recentOwnerWrite owner hash
                  (state.shared.clock - ownerWriteWindow) = false ∧
                (state.shared.db.otherMoves owner hash key).count = 0) →
          ∀ claim, claim ∈ after.store.claims ↔ claim ∈ state.shared.store.claims) := by
  obtain ⟨moved, after, hmoved, hafter, htrip⟩ := trip_completes refused paid
    (tidy_of_reaches hnodup hreach) hne later
  refine ⟨⟨moved, hmoved⟩, ?_⟩
  intro other hother
  rw [hother.unique hmoved]
  refine ⟨⟨after, hafter⟩, ?_⟩
  intro final hfinal
  rw [hfinal.unique hafter]
  refine ⟨htrip.unchanged_iff, htrip.home, ?_⟩
  intro hfresh
  refine (htrip.home ?_).same hfresh
  intro hash _ _ _ record hrow
  have hfound := List.find?_some hrow
  simp only [decide_eq_true_eq] at hfound
  exact absurd hfound.1 (hfresh record (List.mem_of_find?_eq_some hrow))

/-! ## Runs with records of several moves -/

def sharedBlobs : Store ℕ ℕ where
  claims := [(1, 5), (1, 6), (1, 8), (1, 9), (3, 6), (0, 5)]
  blobs := [5, 6, 8, 9]

/-- Key 1 hands its claim on blob 8 to owner 2, and key 3 its claim on blob 6
to owner 0. -/
def earlierMoves : List (Action ℕ ℕ) :=
  [.transfer 1 2 [5, 6, 9]] ++ List.replicate 9 (.advance 0 .ok) ++
    [.transfer 3 0 []] ++ List.replicate 6 (.advance 1 .ok)

theorem transfer_then_restore_after_earlier_moves :
    ∃ state, Reaches step everyStep (State.initial 0 sharedBlobs) state ∧
      state.shared.db.moves = [⟨1, 8, 2, false, false, 0⟩, ⟨3, 6, 0, false, false, 0⟩] ∧
      ∃ moved after, TransferEnds (fun _ => false) 1 0 [] state.shared moved ∧
        RestoreEnds (fun _ => false) 1 0 { moved with clock := 60 } after ∧
        ∀ hash, ((1, hash) ∈ after.store.claims ↔ (1, hash) ∈ state.shared.store.claims) ∧
          ((0, hash) ∈ after.store.claims ↔ (0, hash) ∈ state.shared.store.claims) := by
  have hrun : (runActions step (State.initial 0 sharedBlobs) earlierMoves).any (fun state =>
      state.shared.store.claims = [(1, 5), (1, 6), (1, 9), (0, 5), (2, 8), (0, 6)] ∧
        state.shared.db.moves = [⟨1, 8, 2, false, false, 0⟩, ⟨3, 6, 0, false, false, 0⟩] ∧
        ∀ hash ∈ [5, 6, 9], state.shared.ownersOwn 1 0 hash = true ↔
          (0, hash) ∈ state.shared.store.claims) = true := by
    decide
  obtain ⟨state, hreach, htest⟩ := exists_reaches_of_runActions hrun
  obtain ⟨hclaims, hmoves, hown⟩ := of_decide_eq_true htest
  have hrow : ∀ hash, state.shared.db.movedRow 1 hash =
      if hash = 8 then some ⟨1, 8, 2, false, false, 0⟩ else none := by
    intro hash
    simp only [Database.movedRow, hmoves, List.find?_cons, List.find?_nil]
    grind
  have hheld : ∀ hash, (1, hash) ∈ state.shared.store.claims → hash ∈ [5, 6, 9] := by
    simp [hclaims]
  have hdue : ∀ hash, ¬state.shared.Due 1 0 hash := by
    rintro hash ⟨record, hrecord, howner⟩
    rw [hrow] at hrecord
    split at hrecord
    · cases hrecord
      cases howner
    · cases hrecord
  have haccounted : state.shared.Accounted (fun _ => false) 1 0 [] := by
    refine ⟨?_, fun hash hpending => absurd hpending (hdue hash), ?_⟩
    · intro hash hclaim _ _ record hrecord
      rw [hrow, if_neg] at hrecord
      · cases hrecord
      · rintro rfl
        exact absurd (hheld 8 hclaim) (by decide)
    · rintro hash ⟨-, hfriend | hpending⟩
      · exact hown hash (hheld hash hfriend.1)
      · exact absurd hpending.1 (hdue hash)
  obtain ⟨⟨moved, hmoved⟩, hrest⟩ := @transfer_then_restore ℕ ℕ _ _ 0 sharedBlobs state
    (by decide) hreach (fun _ => false) 1 0 (by decide) [] 60
  obtain ⟨⟨after, hafter⟩, htrip⟩ := hrest moved hmoved
  exact ⟨state, hreach, hmoves, moved, after, hmoved, hafter,
    (htrip after hafter).1.mpr haccounted⟩

def oneClaim : Store ℕ ℕ where
  claims := [(1, 5)]
  blobs := [5]

/-- Key 1 hands its claim to owner 2 and claims the blob again with an
upload of its own. -/
def claimedAgain : List (Action ℕ ℕ) :=
  [.transfer 1 2 []] ++ List.replicate 6 (.advance 0 .ok) ++ [.upload 1 5]

/-- A record from a grant by owner 2 survives the transfer to owner 0, whose
hand-back does not find it: the key loses its claim. -/
theorem other_owners_record_keeps_claim_away :
    ∃ state, Reaches step everyStep (State.initial 0 oneClaim) state ∧ ∃ moved after,
        TransferEnds (fun _ => false) 1 0 [] state.shared moved ∧
        RestoreEnds (fun _ => false) 1 0 { moved with clock := 60 } after ∧
        (1, 5) ∈ state.shared.store.claims ∧ (1, 5) ∉ after.store.claims := by
  have hrun : (runActions step (State.initial 0 oneClaim) claimedAgain).any (fun state =>
      (1, 5) ∈ state.shared.store.claims ∧
        state.shared.accepts (fun _ => false) 5 = true ∧
        state.shared.db.movedRow 1 5 = some ⟨1, 5, 2, false, false, 0⟩) = true := by
    decide
  obtain ⟨state, hreach, htest⟩ := exists_reaches_of_runActions hrun
  obtain ⟨hclaim, haccepts, hrow⟩ := of_decide_eq_true htest
  obtain ⟨moved, after, hmoved, hafter, htrip⟩ := trip_completes (fun _ => false) []
    (tidy_of_reaches (by decide) hreach) (show 0 ≠ 1 by decide) 60
  exact ⟨state, hreach, moved, after, hmoved, hafter, hclaim,
    htrip.lost 5 _ hclaim (List.not_mem_nil) haccepts hrow (by decide)⟩

end OwnerClaims
end Wildbloom
