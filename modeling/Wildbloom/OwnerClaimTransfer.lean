import Wildbloom.OwnerClaimSurvival

/-!
# What a whole transfer does

A transfer that runs alone comes to its end and has then tried every friend
claim of the key.  `Handed` says what the tried claims have become.

The cursor only moves past claims that stay, because the others leave the
listing.  A page is therefore the claims after the cursor as they were when it
was listed, and those of it that were refused stand between the cursor and what
is left of the page.
-/

namespace Wildbloom
namespace OwnerClaims

open GroupGate (Store)
open Relation (ReflTransGen)

variable {Key Hash : Type} [DecidableEq Key] [LinearOrder Hash]

/-! ## Tidy states -/

/-- One record for each key and hash, and no claim listed twice. -/
structure Shared.Tidy (shared : Shared Key Hash) : Prop where
  claims : shared.store.claims.Nodup
  moves : (shared.db.moves.map fun record => (record.key, record.hash)).Nodup

variable {store : Store Key Hash}

theorem nodup_addClaim (hnodup : store.claims.Nodup) (key : Key) (hash : Hash) :
    (store.addClaim key hash).claims.Nodup := by
  unfold Store.addClaim
  split
  · exact hnodup
  next hnew =>
    rw [List.nodup_append]
    refine ⟨hnodup, List.nodup_singleton _, ?_⟩
    rintro claim hclaim other hother rfl
    rw [List.mem_singleton] at hother
    exact hnew (hother ▸ hclaim)

theorem nodup_deleteClaim (hnodup : store.claims.Nodup) (key : Key) (hash : Hash) :
    (store.deleteClaim key hash).1.claims.Nodup := by
  rw [Store.claims_deleteClaim]
  exact hnodup.filter _

namespace Database

variable {db : Database Key Hash} {key other : Key} {hash found : Hash}

theorem movedRow_eq_none : db.movedRow key hash = none ↔
      ∀ record ∈ db.moves, ¬(record.key = key ∧ record.hash = hash) := by
  unfold Database.movedRow
  rw [List.find?_eq_none]
  simp

theorem movedRow_forgetMove : (db.forgetMove key hash).movedRow other found =
      if other = key ∧ found = hash then none else db.movedRow other found := by
  split_ifs with hsame
  · obtain ⟨rfl, rfl⟩ := hsame
    rw [movedRow_eq_none]
    intro record hrecord
    exact of_decide_eq_true (List.mem_filter.mp hrecord).2
  · unfold Database.movedRow Database.forgetMove
    rw [List.find?_filter]
    congr 1
    funext record
    rw [Bool.eq_iff_iff]
    simp only [decide_not, Bool.not_eq_true', decide_eq_false_iff_not, decide_eq_true_eq]
    constructor
    · exact fun hboth => hboth.2
    · rintro ⟨rfl, rfl⟩
      exact ⟨fun hother => hsame hother, rfl, rfl⟩

theorem movedRow_insertMove (record : MovedClaim Key Hash) :
    (db.insertMove record).movedRow other found =
      if other = record.key ∧ found = record.hash then
        some ((db.movedRow record.key record.hash).getD record)
      else db.movedRow other found := by
  unfold Database.insertMove
  cases hrow : db.movedRow record.key record.hash with
  | some old =>
    split_ifs with hsame
    · rw [hsame.1, hsame.2, hrow]
      rfl
    · rfl
  | none =>
    split_ifs with hsame
    · unfold Database.movedRow at hrow ⊢
      simp only [hsame, List.find?_append, hrow, Option.none_or]
      simp
    · unfold Database.movedRow
      rw [List.find?_append]
      have hnone : List.find? (fun record => decide
          (record.key = other ∧ record.hash = found)) [record] = none := by
        simp only [List.find?_eq_none, List.mem_singleton, forall_eq, decide_eq_true_eq]
        exact fun heq => hsame ⟨heq.1.symm, heq.2.symm⟩
      rw [hnone, Option.or_none]

def beside (db : Database Key Hash) (key : Key) : List (MovedClaim Key Hash) :=
  db.moves.filter fun record => record.key ≠ key

theorem beside_forgetMove : (db.forgetMove key hash).beside key = db.beside key := by
  unfold Database.beside Database.forgetMove
  rw [List.filter_filter]
  apply List.filter_congr
  intro record _
  by_cases heq : record.key = key <;> simp [heq]

theorem beside_insertMove (record : MovedClaim Key Hash) :
    (db.insertMove record).beside record.key = db.beside record.key := by
  unfold Database.insertMove
  split
  · rfl
  · simp [Database.beside]

theorem otherMoves_of_beside {later : Database Key Hash}
    (hbeside : later.beside key = db.beside key) (owner : Key) (hash : Hash) :
    later.otherMoves owner hash key = db.otherMoves owner hash key := by
  have hrows : ∀ db : Database Key Hash, db.otherRows owner hash key =
      (db.beside key).filter fun record =>
        record.owner = owner ∧ record.hash = hash := by
    intro db
    unfold Database.otherRows Database.beside
    rw [List.filter_filter]
    apply List.filter_congr
    intro record _
    rw [Bool.eq_iff_iff]
    simp only [decide_eq_true_eq, Bool.and_eq_true]
    tauto
  simp only [Database.otherMoves, hrows, hbeside]

variable (hmoves : (db.moves.map fun record => (record.key, record.hash)).Nodup)

include hmoves

theorem movedRow_eq_some {record : MovedClaim Key Hash} : db.movedRow key hash = some record ↔
      record ∈ db.moves ∧ record.key = key ∧ record.hash = hash := by
  constructor
  · intro hrow
    have hfound := List.find?_some hrow
    simp only [decide_eq_true_eq] at hfound
    exact ⟨List.mem_of_find?_eq_some hrow, hfound⟩
  · rintro ⟨hmem, rfl, rfl⟩
    cases hrow : db.movedRow record.key record.hash with
    | none =>
      have hnone := List.find?_eq_none.mp hrow record hmem
      simp at hnone
    | some row =>
      have hfound := List.find?_some hrow
      simp only [decide_eq_true_eq] at hfound
      have hsame := List.inj_on_of_nodup_map hmoves (List.mem_of_find?_eq_some hrow) hmem
        (Prod.ext hfound.1 hfound.2)
      rw [hsame]

theorem nodup_forgetMove :
    ((db.forgetMove key hash).moves.map fun record => (record.key, record.hash)).Nodup :=
  hmoves.sublist (List.filter_sublist.map _)

theorem nodup_insertMove (record : MovedClaim Key Hash) :
    ((db.insertMove record).moves.map fun record => (record.key, record.hash)).Nodup := by
  unfold Database.insertMove
  split
  · exact hmoves
  next hrow =>
    rw [List.map_append, List.nodup_append]
    refine ⟨hmoves, List.nodup_singleton _, ?_⟩
    rintro pair hpair other hother rfl
    obtain ⟨old, hold, heq⟩ := List.mem_map.mp hpair
    simp only [List.map_cons, List.map_nil, List.mem_singleton] at hother
    rw [hother, Prod.mk.injEq] at heq
    exact movedRow_eq_none.mp hrow old hold heq

end Database

/-! ## One claim -/

variable (shared : Shared Key Hash) (refused : Hash → Bool) (key owner : Key) (hash : Hash)
  (now : ℕ)

def Shared.moveRecord : MovedClaim Key Hash where
  key := key
  hash := hash
  owner := owner
  independent := shared.store.holdsClaim owner hash &&
    (decide ((shared.db.otherMoves owner hash key).count = 0) ||
      (shared.db.otherMoves owner hash key).independent)
  adopted := (shared.db.otherMoves owner hash key).adopted ||
    shared.db.recentOwnerWrite owner hash (now - ownerWriteWindow)
  movedAt := now

theorem Shared.recordMove_eq : shared.recordMove key owner hash now =
      { shared with db := shared.db.insertMove (shared.moveRecord key owner hash now) } := by
  unfold Shared.recordMove
  split
  next old hold =>
    have hsame : shared.db.insertMove (shared.moveRecord key owner hash now) = shared.db := by
      unfold Database.insertMove
      simp only [Shared.moveRecord, hold]
    rw [hsame]
  · rfl

def Shared.accepts : Bool :=
  shared.store.get hash && !refused hash

def Shared.hand (now : ℕ) (hash : Hash) : Shared Key Hash :=
  if shared.accepts refused hash then
    { shared.recordMove key owner hash now with
      store := shared.store.addClaim owner hash }.deleteClaim key hash
  else (shared.recordMove key owner hash now).forgetMove key hash

variable {shared refused key owner hash now} {paid tried front kept tail rest : List Hash}
  {start : Shared Key Hash} {transfer : Transfer Key Hash}

theorem blobs_deleteClaim {other : Key} (hother : (other, hash) ∈ store.claims)
    (hne : other ≠ key) : (store.deleteClaim key hash).1.blobs = store.blobs := by
  unfold Store.deleteClaim
  split
  · dsimp only
    rw [if_pos]
    rw [List.any_eq_true]
    refine ⟨(other, hash), ?_, by simp⟩
    rw [List.mem_filter]
    exact ⟨hother, by simp [hne]⟩
  · rfl

theorem blobs_addClaim (store : Store Key Hash) (key : Key) (hash : Hash) :
    (store.addClaim key hash).blobs = store.blobs := by
  unfold Store.addClaim
  split <;> rfl

/-- What a state has become after the claims of `key` on the hashes in `tried`
were handed to the owner. -/
structure Handed (refused : Hash → Bool) (key owner : Key) (now : ℕ)
    (start : Shared Key Hash) (tried : List Hash) (shared : Shared Key Hash) : Prop where
  tidy : shared.Tidy
  blobs : shared.store.blobs = start.store.blobs
  claims : ∀ who hash, (who, hash) ∈ shared.store.claims ↔
    if hash ∈ tried ∧ start.accepts refused hash then
      who = owner ∨ who ≠ key ∧ (who, hash) ∈ start.store.claims
    else (who, hash) ∈ start.store.claims
  moved : ∀ hash, shared.db.movedRow key hash =
    if hash ∈ tried then
      if start.accepts refused hash then
        some ((start.db.movedRow key hash).getD (start.moveRecord key owner hash now))
      else none
    else start.db.movedRow key hash
  beside : shared.db.beside key = start.db.beside key
  ownerWrites : shared.db.ownerWrites = start.db.ownerWrites

section Hand

theorem handed_start (htidy : start.Tidy) : Handed refused key owner now start [] start where
  tidy := htidy
  blobs := rfl
  claims := by simp
  moved := by simp
  beside := rfl
  ownerWrites := rfl

omit [DecidableEq Key] in
theorem Shared.accepts_of_blobs (hblobs : shared.store.blobs = start.store.blobs) :
    shared.accepts refused hash = start.accepts refused hash := by
  unfold Shared.accepts Store.get
  rw [hblobs]

theorem ownerWrites_insertMove (db : Database Key Hash) (record : MovedClaim Key Hash) :
    (db.insertMove record).ownerWrites = db.ownerWrites := by
  unfold Database.insertMove
  split <;> rfl

variable (hhanded : Handed refused key owner now start tried shared) (hnew : hash ∉ tried)
include hhanded hnew

/-- A claim that was not tried yet has the record it had at the start. -/
theorem Handed.moveRecord :
    shared.moveRecord key owner hash now = start.moveRecord key owner hash now := by
  have hholds : shared.store.holdsClaim owner hash = start.store.holdsClaim owner hash := by
    rw [Bool.eq_iff_iff, Store.holdsClaim_iff, Store.holdsClaim_iff, hhanded.claims]
    simp [hnew]
  unfold Shared.moveRecord Database.recentOwnerWrite
  rw [hholds, hhanded.ownerWrites, Database.otherMoves_of_beside hhanded.beside]

theorem Handed.movedRow_recordMove (found : Hash) :
    (shared.recordMove key owner hash now).db.movedRow key found =
      if found = hash then
        some ((start.db.movedRow key hash).getD (start.moveRecord key owner hash now))
      else shared.db.movedRow key found := by
  have hrow : shared.db.movedRow key hash = start.db.movedRow key hash := by
    rw [hhanded.moved, if_neg hnew]
  have hmove := hhanded.moveRecord hnew
  rw [Shared.recordMove_eq, Database.movedRow_insertMove]
  simp only [Shared.moveRecord, true_and] at hmove ⊢
  rw [hrow, hmove]

theorem Handed.take (hne : owner ≠ key) (haccepts : start.accepts refused hash = true) :
    Handed refused key owner now start (hash :: tried)
      ({ shared.recordMove key owner hash now with
        store := shared.store.addClaim owner hash }.deleteClaim key hash) := by
  have hrow := hhanded.movedRow_recordMove hnew
  have hbeside : (shared.db.insertMove (shared.moveRecord key owner hash now)).beside key =
        shared.db.beside key := Database.beside_insertMove _
  constructor
  · constructor
    · exact nodup_deleteClaim (nodup_addClaim hhanded.tidy.claims _ _) _ _
    · rw [Shared.recordMove_eq]
      exact Database.nodup_insertMove hhanded.tidy.moves _
  · have howner : (owner, hash) ∈ (shared.store.addClaim owner hash).claims :=
      (Store.mem_addClaim _ _ _ _).mpr (Or.inl rfl)
    exact (blobs_deleteClaim howner hne).trans ((blobs_addClaim _ _ _).trans hhanded.blobs)
  · intro who found
    simp only [Shared.deleteClaim, Store.mem_deleteClaim, Store.mem_addClaim,
      hhanded.claims, Prod.mk.injEq, List.mem_cons, ne_eq]
    by_cases hfound : found = hash
    · subst hfound
      simp only [hnew, haccepts]
      grind
    · simp [hfound]
  · intro found
    refine (hrow found).trans ?_
    by_cases hfound : found = hash
    · subst hfound
      simp [haccepts]
    · simp [hfound, hhanded.moved]
  · rw [← hhanded.beside, Shared.recordMove_eq]
    exact hbeside
  · rw [← hhanded.ownerWrites, Shared.recordMove_eq]
    exact ownerWrites_insertMove _ _

theorem Handed.keep (haccepts : ¬start.accepts refused hash = true) :
    Handed refused key owner now start (hash :: tried)
      ((shared.recordMove key owner hash now).forgetMove key hash) := by
  have hrow := hhanded.movedRow_recordMove hnew
  have hbeside : (shared.db.insertMove (shared.moveRecord key owner hash now)).beside key =
        shared.db.beside key := Database.beside_insertMove _
  have hstore : ((shared.recordMove key owner hash now).forgetMove key
      hash).store = shared.store := by
    rw [Shared.recordMove_eq]
    rfl
  constructor
  · constructor
    · rw [hstore]
      exact hhanded.tidy.claims
    · rw [Shared.recordMove_eq]
      exact Database.nodup_forgetMove (Database.nodup_insertMove hhanded.tidy.moves _)
  · rw [hstore, hhanded.blobs]
  · intro who found
    rw [hstore, hhanded.claims]
    by_cases hfound : found = hash
    · subst hfound
      simp [haccepts]
    · simp [hfound]
  · intro found
    refine Database.movedRow_forgetMove.trans ?_
    by_cases hfound : found = hash
    · subst hfound
      simp [haccepts]
    · simp [hfound, hrow, hhanded.moved]
  · refine Database.beside_forgetMove.trans ?_
    rw [← hhanded.beside, Shared.recordMove_eq]
    exact hbeside
  · rw [← hhanded.ownerWrites, Shared.recordMove_eq]
    exact ownerWrites_insertMove _ _

theorem Handed.hand (hne : owner ≠ key) :
    Handed refused key owner now start (hash :: tried)
      (shared.hand refused key owner now hash) := by
  have hsame : shared.accepts refused hash = start.accepts refused hash :=
    Shared.accepts_of_blobs hhanded.blobs
  unfold Shared.hand
  rw [hsame]
  split
  · exact hhanded.take hnew hne ‹_›
  · exact hhanded.keep hnew ‹_›

end Hand

/-! ## The pass -/

def Transfer.reply (refused : Hash → Bool) (transfer : Transfer Key Hash) : Outcome :=
  match transfer.pc with
  | .claim hash => if refused hash then .refused else .ok
  | _ => .ok

def Transfer.Goes (refused : Hash → Bool)
    (before after : Shared Key Hash × Transfer Key Hash) : Prop :=
  before.2.step before.1 (before.2.reply refused) = some after

theorem goes_hand (refused : Hash → Bool) (shared : Shared Key Hash)
    (transfer : Transfer Key Hash) (hash : Hash) :
    ReflTransGen (Transfer.Goes refused) (shared, transfer.goto (.record hash))
      (shared.hand refused transfer.key transfer.owner transfer.now hash, transfer.goto .next) := by
  have hrecord : Transfer.Goes refused (shared, transfer.goto (.record hash))
      (shared.recordMove transfer.key transfer.owner hash transfer.now,
        transfer.goto (.claim hash)) := rfl
  have hstore : (shared.recordMove transfer.key transfer.owner hash
      transfer.now).store = shared.store := by
    rw [Shared.recordMove_eq]
  refine ReflTransGen.head hrecord ?_
  unfold Shared.hand Shared.accepts
  set recorded := shared.recordMove transfer.key transfer.owner hash transfer.now
  cases hget : shared.store.get hash <;> cases href : refused hash
  case true.false =>
    have hclaim : Transfer.Goes refused (recorded, transfer.goto (.claim hash))
        ({ recorded with store := shared.store.addClaim transfer.owner hash },
          transfer.goto (.delete hash)) := by
      simp [Transfer.Goes, Transfer.reply, Transfer.step, Transfer.goto, href,
        Shared.beginClaimedMirror, hstore, hget]
    exact ReflTransGen.head hclaim (ReflTransGen.single rfl)
  all_goals
    have hclaim : Transfer.Goes refused (recorded, transfer.goto (.claim hash))
        (recorded, transfer.goto (.forget hash)) := by
      simp [Transfer.Goes, Transfer.reply, Transfer.step, Transfer.goto, href,
        Shared.beginClaimedMirror, hstore, hget]
    exact ReflTransGen.head hclaim (ReflTransGen.single rfl)

theorem listClaims_getLast (hclaims : store.claimsOf key = front ++ rest)
    (hnodup : (store.claimsOf key).Nodup) (limit : ℕ) :
    store.listClaims key front.getLast? limit = some (rest.take limit) := by
  rcases List.eq_nil_or_concat front with hnil | ⟨init, last, hfront⟩
  · subst hnil
    simp [Store.listClaims, hclaims]
  · rw [List.concat_eq_append] at hfront
    subst hfront
    rw [hclaims] at hnodup
    have hlast : last ∉ init := by
      intro hmem
      exact List.disjoint_of_nodup_append (List.nodup_append.mp hnodup).1 hmem
        (List.mem_singleton_self last)
    have hskip : ((init ++ [last] ++ rest).dropWhile fun found =>
        decide (found ≠ last)) = last :: rest := by
      rw [List.append_assoc, List.dropWhile_append_of_pos]
      · simp
      · intro found hfound
        simp only [ne_eq, decide_not, Bool.not_eq_true', decide_eq_false_iff_not]
        rintro rfl
        exact hlast hfound
    have hmem : last ∈ init ++ [last] ++ rest := by simp
    simp only [Store.listClaims, List.getLast?_append, List.getLast?_singleton,
      Option.some_or, hclaims, if_pos hmem, hskip, List.drop_one,
      List.tail_cons]

omit [LinearOrder Hash] in
theorem nodup_claimsOf (hnodup : store.claims.Nodup) (key : Key) : (store.claimsOf key).Nodup := by
  unfold Store.claimsOf
  apply List.Nodup.map_on _ (hnodup.filter _)
  intro claim hclaim other hother heq
  simp only [List.mem_filter, decide_eq_true_eq] at hclaim hother
  exact Prod.ext (hclaim.2.trans hother.2.symm) heq

/-- The claim stays with the key: the pass only moves its cursor past it. -/
def Transfer.Stays (transfer : Transfer Key Hash) (hash : Hash) : Prop :=
  hash ∈ transfer.paid ∨ hash ∈ transfer.attempted

instance (transfer : Transfer Key Hash) (hash : Hash) : Decidable (transfer.Stays hash) :=
  inferInstanceAs (Decidable (_ ∨ _))

/-- Where a pass stands in the claims of the key: the cursor is at the end of
`front`, `kept` are claims of the page that were refused, and `tail` comes
after the page. -/
structure Passing (refused : Hash → Bool) (key owner : Key) (now : ℕ)
    (paid : List Hash) (start shared : Shared Key Hash)
    (transfer : Transfer Key Hash) (front kept tail : List Hash) : Prop where
  same : transfer.key = key ∧ transfer.owner = owner ∧ transfer.now = now ∧ transfer.paid = paid
  handed : Handed refused key owner now start transfer.attempted shared
  tried : ∀ hash ∈ transfer.attempted, (key, hash) ∈ start.store.claims ∧ hash ∉ paid
  claims : shared.store.claimsOf key = front ++ (kept ++ (transfer.page ++ tail))
  stays : ∀ hash ∈ front ++ kept, transfer.Stays hash
  cursor : transfer.cursor = front.getLast?
  full : transfer.pc = .next → transfer.full = false → tail = []

def Transfer.attempt (transfer : Transfer Key Hash) (hash : Hash)
    (rest : List Hash) : Transfer Key Hash :=
  { transfer with page := rest, attempted := hash :: transfer.attempted, pc := .next }

def todo (start : Shared Key Hash) (key : Key) (transfer : Transfer Key Hash) : ℕ :=
  ((start.store.claimsOf key).filter fun hash =>
    ¬transfer.Stays hash).length

theorem Handed.held (hne : owner ≠ key)
    (hhanded : Handed refused key owner now start tried shared)
    (hclaim : (key, hash) ∈ shared.store.claims) :
    (key, hash) ∈ start.store.claims ∧ ¬(hash ∈ tried ∧ start.accepts refused hash = true) := by
  rw [hhanded.claims] at hclaim
  split at hclaim
  · rcases hclaim with heq | hother
    · exact absurd heq.symm hne
    · exact absurd rfl hother.1
  · exact ⟨hclaim, ‹_›⟩

theorem claimsOf_hand (hne : owner ≠ key) :
    (shared.hand refused key owner now hash).store.claimsOf key =
      if shared.accepts refused hash then
        (shared.store.claimsOf key).filter fun found => found ≠ hash
      else shared.store.claimsOf key := by
  unfold Shared.hand
  split
  · refine (Store.claimsOf_deleteClaim _ _ _ _).trans ?_
    rw [Store.claimsOf_addClaim_of_ne _ _ hne]
    simp
  · rw [Shared.recordMove_eq]
    rfl

theorem filter_ne_of_nodup {before after : List Hash} (hnodup : (before ++ hash :: after).Nodup) :
    ((before ++ hash :: after).filter fun found => found ≠ hash) = before ++ after := by
  rw [List.nodup_append] at hnodup
  obtain ⟨-, hafter, hapart⟩ := hnodup
  have hne : ∀ found ∈ before ++ after, found ≠ hash := by
    intro found hfound
    rcases List.mem_append.mp hfound with hleft | hright
    · exact hapart found hleft hash List.mem_cons_self
    · rintro rfl
      exact (List.nodup_cons.mp hafter).1 hright
  rw [List.filter_append, List.filter_cons_of_neg (by simp),
    ← List.filter_append, List.filter_eq_self]
  intro found hfound
  exact decide_eq_true (hne found hfound)

theorem todo_attempt (hclaim : (key, hash) ∈ start.store.claims) (hstays : ¬transfer.Stays hash) :
    todo start key (transfer.attempt hash rest) < todo start key transfer := by
  unfold todo
  have hsplit : ((start.store.claimsOf key).filter fun found =>
      ¬(transfer.attempt hash rest).Stays found) =
      ((start.store.claimsOf key).filter fun found =>
        ¬transfer.Stays found).filter fun found => found ≠ hash := by
    rw [List.filter_filter]
    apply List.filter_congr
    intro found _
    simp only [Transfer.Stays, Transfer.attempt, List.mem_cons, ne_eq, decide_not, Bool.decide_or]
    grind
  rw [hsplit]
  have hmem : hash ∈ (start.store.claimsOf key).filter fun found =>
      ¬transfer.Stays found := by
    rw [List.mem_filter]
    exact ⟨(Store.mem_claimsOf _ _ _).mpr hclaim, decide_eq_true hstays⟩
  exact List.length_filter_lt_length_iff_exists.mpr ⟨hash, hmem, by simp⟩

theorem Passing.tried_all (hpassing : Passing refused key owner now paid start
      shared transfer front kept [])
    (hpage : transfer.page = []) (hash : Hash) :
    hash ∈ transfer.attempted ↔ (key, hash) ∈ start.store.claims ∧ hash ∉ paid := by
  constructor
  · exact hpassing.tried hash
  · rintro ⟨hclaim, hpaid⟩
    by_contra hnew
    have hheld : (key, hash) ∈ shared.store.claims := by
      rw [hpassing.handed.claims, if_neg fun htried => hnew htried.1]
      exact hclaim
    rw [← Store.mem_claimsOf, hpassing.claims, hpage, List.append_nil, List.append_nil] at hheld
    rcases hpassing.stays hash hheld with hmem | hmem
    · rw [hpassing.same.2.2.2] at hmem
      exact hpaid hmem
    · exact hnew hmem

section

variable (hne : owner ≠ key)
  (hpassing : Passing refused key owner now paid start shared transfer front kept tail)

include hpassing in
theorem Passing.pass (hpage : transfer.page = hash :: rest) (hstays : transfer.Stays hash) :
    Passing refused key owner now paid start shared
      { transfer with page := rest, cursor := some hash } (front ++ kept ++ [hash]) [] tail where
  same := hpassing.same
  handed := hpassing.handed
  tried := hpassing.tried
  claims := by
    rw [hpassing.claims, hpage]
    simp
  stays := by
    intro found hfound
    simp only [List.append_nil, List.mem_append, List.mem_singleton] at hfound
    rcases hfound with hold | hlast
    · exact hpassing.stays found (List.mem_append.mpr hold)
    · rw [hlast]
      exact hstays
  cursor := by simp
  full := hpassing.full

include hpassing in
theorem Passing.list (hpage : transfer.page = []) (hpc : transfer.pc = .list) :
    ∃ next, Transfer.Goes refused (shared, transfer) (shared, next) ∧
      Passing refused key owner now paid start shared next front [] ((kept ++ tail).drop pageSize) ∧
      next.pc = .next ∧
      todo start key next = todo start key transfer ∧
      (next.full = true → pageSize ≤ (kept ++ tail).length) := by
  have hclaims : shared.store.claimsOf key = front ++ (kept ++ tail) := by
    rw [hpassing.claims, hpage, List.nil_append]
  have hlist := listClaims_getLast hclaims (nodup_claimsOf hpassing.handed.tidy.claims key) pageSize
  refine ⟨{ transfer with
      page := (kept ++ tail).take pageSize
      full := decide (((kept ++ tail).take pageSize).length = pageSize)
      pc := .next }, ?_, ?_, rfl, rfl, ?_⟩
  · simp only [Transfer.Goes, Transfer.step, hpc]
    rw [hpassing.same.1, hpassing.cursor, hlist]
  · refine ⟨hpassing.same, hpassing.handed, hpassing.tried, ?_, ?_, hpassing.cursor, ?_⟩
    · rw [hclaims, List.nil_append, List.take_append_drop]
    · intro hash hhash
      rw [List.append_nil] at hhash
      exact hpassing.stays hash (List.mem_append_left _ hhash)
    · intro _ hshort
      have hlength := of_decide_eq_false hshort
      rw [List.length_take] at hlength
      apply List.drop_eq_nil_of_le
      omega
  · intro hfull
    have hlength := of_decide_eq_true hfull
    rw [List.length_take] at hlength
    omega

include hne hpassing

theorem Passing.attempt (hpage : transfer.page = hash :: rest) (hpc : transfer.pc = .next)
    (hstays : ¬transfer.Stays hash) :
    ∃ left, Passing refused key owner now paid start (shared.hand refused key owner now hash)
        (transfer.attempt hash rest) front left tail ∧
      todo start key (transfer.attempt hash rest) + left.length ≤
        todo start key transfer + kept.length := by
  have hlisted : shared.store.claimsOf key = (front ++ kept) ++ hash :: (rest ++ tail) := by
    rw [hpassing.claims, hpage]
    simp
  have hclaim : (key, hash) ∈ shared.store.claims := by
    rw [← Store.mem_claimsOf, hlisted]
    simp
  have hstart := (hpassing.handed.held hne hclaim).1
  have hpaid : hash ∉ paid := by
    rw [← hpassing.same.2.2.2]
    exact fun hmem => hstays (Or.inl hmem)
  have hless : todo start key (transfer.attempt hash rest) <
      todo start key transfer := todo_attempt hstart hstays
  have hnodup := nodup_claimsOf hpassing.handed.tidy.claims key
  rw [hlisted] at hnodup
  have hnext : ∀ left, (left = kept ∨ left = kept ++ [hash]) →
      (shared.hand refused key owner now hash).store.claimsOf key =
        front ++ (left ++ (rest ++ tail)) →
      Passing refused key owner now paid start (shared.hand refused key owner now hash)
        (transfer.attempt hash rest) front left tail := by
    intro left hleft hclaims
    constructor
    · exact hpassing.same
    · exact hpassing.handed.hand (fun hmem => hstays (Or.inr hmem)) hne
    · intro found hfound
      rcases List.mem_cons.mp hfound with heq | hold
      · rw [heq]
        exact ⟨hstart, hpaid⟩
      · exact hpassing.tried found hold
    · exact hclaims
    · intro found hfound
      have hold : found ∈ front ++ kept → (transfer.attempt hash rest).Stays found := by
        intro hmem
        rcases hpassing.stays found hmem with hp | ha
        · exact Or.inl hp
        · exact Or.inr (List.mem_cons_of_mem _ ha)
      rcases hleft with heq | heq
      · exact hold (heq ▸ hfound)
      · rw [heq, ← List.append_assoc, List.mem_append, List.mem_singleton] at hfound
        rcases hfound with hmem | hlast
        · exact hold hmem
        · rw [hlast]
          exact Or.inr List.mem_cons_self
    · exact hpassing.cursor
    · exact fun _ => hpassing.full hpc
  by_cases haccepts : shared.accepts refused hash = true
  · refine ⟨kept, hnext kept (Or.inl rfl) ?_, by omega⟩
    rw [claimsOf_hand hne, if_pos haccepts, hlisted, filter_ne_of_nodup hnodup]
    simp
  · refine ⟨kept ++ [hash], hnext _ (Or.inr rfl) ?_, ?_⟩
    · rw [claimsOf_hand hne, if_neg haccepts, hlisted]
      simp
    · rw [List.length_append, List.length_singleton]
      omega

theorem Passing.page (page : List Hash) (hpage : transfer.page = page) (hpc : transfer.pc = .next) :
    ∃ after next front left, ReflTransGen (Transfer.Goes refused) (shared, transfer) (after, next) ∧
      Passing refused key owner now paid start after next front left tail ∧
      next.page = [] ∧ next.pc = .next ∧ next.full = transfer.full ∧
      todo start key next + left.length ≤ todo start key transfer + kept.length := by
  induction page generalizing shared transfer front kept with
  | nil =>
    exact ⟨shared, transfer, front, kept, .refl, hpassing, hpage, hpc, rfl, le_refl _⟩
  | cons hash rest ih =>
    by_cases hstays : transfer.Stays hash
    · have hgoes : Transfer.Goes refused (shared, transfer)
          (shared, { transfer with page := rest, cursor := some hash }) := by
        simp only [Transfer.Goes, Transfer.step, hpc, hpage]
        exact if_pos hstays
      obtain ⟨after, next, before, left, hrun, hnext, hempty, hat, hfull,
        hless⟩ := ih (hpassing.pass hpage hstays) rfl hpc
      have hsame : todo start key { transfer with page := rest, cursor := some hash } =
            todo start key transfer := rfl
      rw [hsame, List.length_nil] at hless
      exact ⟨after, next, before, left, .head hgoes hrun, hnext, hempty, hat, hfull, by omega⟩
    · have hgoes : Transfer.Goes refused (shared, transfer)
          (shared, (transfer.attempt hash rest).goto (.record hash)) := by
        simp only [Transfer.Goes, Transfer.step, hpc, hpage]
        exact if_neg hstays
      have hhand : ReflTransGen (Transfer.Goes refused)
          (shared, (transfer.attempt hash rest).goto (.record hash))
          (shared.hand refused key owner now hash, transfer.attempt hash rest) := by
        obtain ⟨hkey, howner, hnow, -⟩ := hpassing.same
        rw [← hkey, ← howner, ← hnow]
        exact goes_hand refused shared (transfer.attempt hash rest) hash
      obtain ⟨kept, htried, hfewer⟩ := hpassing.attempt hne hpage hpc hstays
      obtain ⟨after, next, before, left, hrun, hnext, hempty, hat, hfull,
        hless⟩ := ih htried rfl rfl
      refine ⟨after, next, before, left, ?_, hnext, hempty, hat, hfull, by omega⟩
      exact .head hgoes (hhand.trans hrun)

/-- The transfer comes to its end, and has then tried every friend claim. -/
theorem Passing.finish (weight : ℕ) (hpage : transfer.page = []) (hpc : transfer.pc = .list)
    (hweight : todo start key transfer + kept.length + tail.length = weight) :
    ∃ after next, ReflTransGen (Transfer.Goes refused) (shared, transfer) (after, next) ∧
      next.pc = .done ∧
      Handed refused key owner now start next.attempted after ∧
      ∀ hash, hash ∈ next.attempted ↔ (key, hash) ∈ start.store.claims ∧ hash ∉ paid := by
  induction weight using Nat.strong_induction_on generalizing shared transfer front kept tail with
  | _ weight ih =>
    obtain ⟨listed, hlist, hlisted, hat, htodo, hfull⟩ :=
      hpassing.list hpage hpc
    obtain ⟨after, next, before, left, hrun, hnext, hempty, hstop, hsame,
      hless⟩ := hlisted.page hne _ rfl hat
    have hdrop : ((kept ++ tail).drop pageSize).length = kept.length + tail.length - pageSize := by
      rw [List.length_drop, List.length_append]
    have hgoes : Transfer.Goes refused (after, next)
        (after, next.goto (if next.full then .list else .done)) := by
      simp only [Transfer.Goes, Transfer.step, hstop, hempty]
    cases hmore : next.full with
    | true =>
      rw [hmore] at hgoes hsame
      have hlong := hfull hsame.symm
      rw [List.length_append] at hlong
      have hpos : 0 < pageSize := by decide
      have hagain : Passing refused key owner now paid start after (next.goto .list) before left
          ((kept ++ tail).drop pageSize) :=
        ⟨hnext.same, hnext.handed, hnext.tried, hnext.claims, hnext.stays,
          hnext.cursor, (by rintro ⟨⟩)⟩
      have hwork : todo start key (next.goto .list) = todo start key next := rfl
      rw [List.length_nil] at hless
      obtain ⟨final, last, hrest, hdone⟩ := ih _ (by omega) hagain hempty
        rfl rfl
      exact ⟨final, last, .head hlist (hrun.trans (.head hgoes hrest)), hdone⟩
    | false =>
      rw [hmore] at hgoes
      have hnone := hnext.full hstop hmore
      rw [hnone] at hnext
      exact ⟨after, next.goto .done, .head hlist (hrun.trans (.single hgoes)), rfl, hnext.handed,
        hnext.tried_all hempty⟩

end

/-- A transfer that the store neither limits nor fails hands every friend
claim of the key over. -/
theorem transfer_completes (refused : Hash → Bool) (now : ℕ)
    (paid : List Hash) (htidy : start.Tidy) (hne : owner ≠ key) :
    ∃ after next, ReflTransGen (Transfer.Goes refused)
        (start, { key := key, owner := owner, now := now, paid := paid }) (after, next) ∧
      next.pc = .done ∧
      Handed refused key owner now start next.attempted after ∧
      ∀ hash, hash ∈ next.attempted ↔ (key, hash) ∈ start.store.claims ∧ hash ∉ paid := by
  apply Passing.finish hne _ _ rfl rfl rfl
  · exact []
  · exact []
  · exact start.store.claimsOf key
  · refine ⟨⟨rfl, rfl, rfl, rfl⟩, handed_start htidy, ?_, ?_, ?_, rfl, ?_⟩
    · simp
    · rfl
    · simp
    · rintro ⟨⟩

/-! ## Every step of a transfer -/

/-- A step of a transfer with any answer of the store. -/
def Transfer.Moves (before after : Shared Key Hash × Transfer Key Hash) : Prop :=
  ∃ outcome, before.2.step before.1 outcome = some after

/-- What every step of a transfer keeps, whatever the store answers. -/
structure Transfer.Safe (start : Shared Key Hash) (key owner : Key)
    (at_ : Shared Key Hash × Transfer Key Hash) : Prop where
  same : at_.2.key = key ∧ at_.2.owner = owner
  once : at_.2.attempted.Nodup
  claimed : ∀ hash, (key, hash) ∈ start.store.claims →
    (key, hash) ∈ at_.1.store.claims ∨ (owner, hash) ∈ at_.1.store.claims
  deletes : ∀ hash, at_.2.pc = .delete hash → (owner, hash) ∈ at_.1.store.claims

theorem Transfer.Safe.step (hne : owner ≠ key) {before after : Shared Key Hash × Transfer Key Hash}
    {outcome : Outcome} (hsafe : Transfer.Safe start key owner before)
    (hstep : before.2.step before.1 outcome = some after) :
    Transfer.Safe start key owner after := by
  obtain ⟨shared, transfer⟩ := before
  obtain ⟨hsame, honce, hclaimed, hdeletes⟩ := hsafe
  have hquiet : ∀ (later : Shared Key Hash) (pc : TransferPc Hash),
      later.store = shared.store → (∀ hash, pc ≠ .delete hash) →
      Transfer.Safe start key owner (later, transfer.goto pc) := by
    intro later pc hstore hpc
    refine ⟨hsame, honce, ?_, fun hash hdelete => absurd hdelete (hpc hash)⟩
    rw [hstore]
    exact hclaimed
  unfold Transfer.step at hstep
  dsimp only at hstep hsame hdeletes
  split at hstep
  · split at hstep
    · cases hstep
      exact hquiet _ _ rfl (by simp)
    · cases hstep
      exact ⟨hsame, honce, hclaimed, by simp⟩
  · split at hstep
    · cases hstep
      refine hquiet _ _ rfl ?_
      split <;> simp
    · split at hstep
      · cases hstep
        exact ⟨hsame, honce, hclaimed, hdeletes⟩
      next hnew =>
        cases hstep
        exact ⟨hsame, List.nodup_cons.mpr ⟨fun hmem => hnew (Or.inr hmem), honce⟩, hclaimed,
          by simp⟩
  · cases hstep
    exact hquiet _ _ (by rw [Shared.recordMove_eq]) (by simp)
  · split at hstep
    · split at hstep
      next hclaim =>
        cases hstep
        rw [Shared.beginClaimedMirror_cases hclaim]
        refine ⟨hsame, honce, fun found hfound => ?_, fun found hdelete => ?_⟩
        · exact (hclaimed found hfound).imp
            (fun hold => (Store.mem_addClaim _ _ _ _).mpr (Or.inr hold))
            (fun hold => (Store.mem_addClaim _ _ _ _).mpr (Or.inr hold))
        · cases hdelete
          rw [hsame.2]
          exact (Store.mem_addClaim _ _ _ _).mpr (Or.inl rfl)
      · cases hstep
        exact hquiet _ _ rfl (by simp)
    all_goals
      cases hstep
      exact hquiet _ _ rfl (by simp)
  · cases hstep
    exact hquiet _ _ rfl (by simp)
  next hash hpc =>
    split at hstep
    · cases hstep
      exact hquiet _ _ rfl (by simp)
    all_goals
      cases hstep
      refine ⟨hsame, honce, fun found hfound => ?_, by simp [Transfer.goto]⟩
      simp only [Shared.deleteClaim, Store.mem_deleteClaim, hsame.1]
      by_cases heq : found = hash
      · rw [heq]
        exact Or.inr ⟨hdeletes hash hpc, by simp [hne]⟩
      · exact (hclaimed found hfound).imp (fun hold => ⟨hold, by simp [heq]⟩)
          (fun hold => ⟨hold, by simp [hne]⟩)
  · cases hstep

/-- A transfer that the store neither limits nor fails comes to its end.  It then
tried each claim that is not paid for once, and those the store accepts are the
owner's; at every step of any transfer each claimed blob has a claim of the key or
of the owner. -/
theorem transfer_tries_each_claim_once (refused : Hash → Bool) (now : ℕ)
    (paid : List Hash) (htidy : start.Tidy) (hne : owner ≠ key) :
    (∃ after next, ReflTransGen (Transfer.Goes refused)
        (start, { key := key, owner := owner, now := now, paid := paid }) (after, next) ∧
      next.pc = .done ∧ next.attempted.Nodup ∧
      (∀ hash, hash ∈ next.attempted ↔ (key, hash) ∈ start.store.claims ∧ hash ∉ paid) ∧
      ∀ hash ∈ next.attempted, start.accepts refused hash = true →
        (owner, hash) ∈ after.store.claims ∧ (key, hash) ∉ after.store.claims) ∧
    ∀ at_, ReflTransGen Transfer.Moves
        (start, { key := key, owner := owner, now := now, paid := paid }) at_ →
      at_.2.attempted.Nodup ∧ ∀ hash, (key, hash) ∈ start.store.claims →
        (key, hash) ∈ at_.1.store.claims ∨ (owner, hash) ∈ at_.1.store.claims := by
  have hsafe : ∀ at_, ReflTransGen Transfer.Moves
      (start, { key := key, owner := owner, now := now, paid := paid }) at_ →
      Transfer.Safe start key owner at_ := by
    intro at_ hrun
    induction hrun with
    | refl => exact ⟨⟨rfl, rfl⟩, List.nodup_nil, fun _ => Or.inl, by simp⟩
    | tail _ hstep ih =>
      obtain ⟨outcome, hstep⟩ := hstep
      exact ih.step hne hstep
  refine ⟨?_, fun at_ hrun => ⟨(hsafe at_ hrun).once, (hsafe at_ hrun).claimed⟩⟩
  obtain ⟨after, next, hrun, hdone, hhanded, htried⟩ :=
    transfer_completes refused now paid htidy hne
  have hmoves : ∀ before after : Shared Key Hash × Transfer Key Hash,
      Transfer.Goes refused before after → Transfer.Moves before after :=
    fun before _ hgoes => ⟨before.2.reply refused, hgoes⟩
  have hsteps := ReflTransGen.mono hmoves _ _ hrun
  refine ⟨after, next, hrun, hdone, (hsafe _ hsteps).once, htried, fun hash hhash haccepts => ?_⟩
  simp [hhanded.claims, hhash, haccepts, hne.symm]

def threeClaims : Shared ℕ ℕ where
  clock := 0
  store := { claims := [(2, 5), (2, 6), (2, 7)], blobs := [5, 6, 7] }
  db := { moves := [], ownerWrites := fun _ _ => none }
  own := []
  drops := []

theorem transfer_tries_each_claim_once_of_three :
    ∃ after next, ReflTransGen (Transfer.Goes (fun hash => decide (hash = 6)))
        (threeClaims, { key := 2, owner := 1, now := 0, paid := [7] }) (after, next) ∧
      next.pc = .done ∧ (1, 5) ∈ after.store.claims ∧ (2, 5) ∉ after.store.claims := by
  obtain ⟨after, next, hrun, hdone, -, htried, hmoved⟩ :=
    (transfer_tries_each_claim_once (fun hash => decide (hash = 6)) 0 [7]
      (⟨by decide, by decide⟩ : threeClaims.Tidy) (by decide : 1 ≠ 2)).1
  exact ⟨after, next, hrun, hdone, hmoved 5 ((htried 5).mpr (by decide)) (by decide)⟩

end OwnerClaims
end Wildbloom
