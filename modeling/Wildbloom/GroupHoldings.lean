import Wildbloom.GroupGateModel
import Mathlib.Algebra.BigOperators.Group.Finset.Basic
import Mathlib.Algebra.Order.BigOperators.Group.Finset
import Mathlib.Tactic

/-!
# The store and the holdings of a group

Lemmas about the two data structures the gate works on.  A `Holdings` that was
built by insertions and removals lists the blobs of a finite set with their
sizes, and its total is the sum of those sizes.  A listing of a key's claims,
page after page, finds every claim that stays in the store while it runs.
-/

namespace Wildbloom
namespace GroupGate

variable {Key Hash : Type} [DecidableEq Key] [DecidableEq Hash] {other : Key}

/-! ## Claims in the store -/

namespace Store

variable (store : Store Key Hash) (key : Key) (hash : Hash) (claim : Key × Hash)

omit [DecidableEq Hash] in
theorem mem_claimsOf : hash ∈ store.claimsOf key ↔ (key, hash) ∈ store.claims := by
  unfold claimsOf
  simp

theorem holdsClaim_iff : store.holdsClaim key hash = true ↔ (key, hash) ∈ store.claims := by
  unfold holdsClaim listClaims
  rw [← mem_claimsOf]
  by_cases hmem : hash ∈ store.claimsOf key <;> simp [hmem]

theorem mem_addClaim : claim ∈ (store.addClaim key hash).claims ↔
    claim = (key, hash) ∨ claim ∈ store.claims := by
  unfold addClaim
  by_cases hmem : (key, hash) ∈ store.claims
  · rw [if_pos hmem]
    constructor
    · exact Or.inr
    · intro hcase
      rcases hcase with hnew | hold
      · rw [hnew]
        exact hmem
      · exact hold
  · rw [if_neg hmem]
    simp [or_comm]

theorem mem_commit : claim ∈ (store.commit key hash).claims ↔
    claim = (key, hash) ∨ claim ∈ store.claims :=
  store.mem_addClaim key hash claim

theorem claims_deleteClaim :
    (store.deleteClaim key hash).1.claims =
      store.claims.filter fun claim => claim ≠ (key, hash) := by
  unfold deleteClaim
  by_cases hmem : (key, hash) ∈ store.claims
  · rw [if_pos hmem]
    dsimp only
    split <;> rfl
  · rw [if_neg hmem]
    symm
    rw [List.filter_eq_self]
    intro claim hclaim
    have hne : claim ≠ (key, hash) := by
      intro heq
      rw [heq] at hclaim
      exact hmem hclaim
    simpa using hne

theorem mem_deleteClaim : claim ∈ (store.deleteClaim key hash).1.claims ↔
    claim ∈ store.claims ∧ claim ≠ (key, hash) := by
  rw [claims_deleteClaim]
  simp

theorem claimsOf_addClaim_of_ne {key : Key} (hash : Hash) (hne : other ≠ key) :
    (store.addClaim other hash).claimsOf key = store.claimsOf key := by
  unfold addClaim claimsOf
  split
  · rfl
  · simp [hne]

theorem claimsOf_commit_of_ne {key : Key} (hash : Hash) (hne : other ≠ key) :
    (store.commit other hash).claimsOf key = store.claimsOf key :=
  store.claimsOf_addClaim_of_ne hash hne

theorem claimsOf_deleteClaim (key other : Key) (hash : Hash) :
    (store.deleteClaim other hash).1.claimsOf key =
      (store.claimsOf key).filter fun claimed =>
        (key, claimed) ≠ (other, hash) := by
  unfold claimsOf
  rw [claims_deleteClaim, List.filter_map]
  rw [List.filter_filter, List.filter_filter]
  congr 1
  apply List.filter_congr
  intro claim _
  by_cases hkey : claim.1 = key
  · simp [← hkey, Prod.ext_iff]
  · simp [hkey]

end Store

variable {seen : Hash → Prop} {cursor : Option Hash} {store : Store Key Hash}
  {key : Key} {limit : ℕ} {page : List Hash}

/-! ## Listing page by page -/

def SeenUpTo (seen : Hash → Prop) (hashes : List Hash) (cursor : Hash) : Prop :=
  cursor ∈ hashes → ∃ before after, hashes = before ++ cursor :: after ∧
      cursor ∉ before ∧ seen cursor ∧ ∀ hash ∈ before, seen hash

omit [DecidableEq Hash] in
theorem SeenUpTo.filter {hashes : List Hash} {cursor : Hash}
    (hseen : SeenUpTo seen hashes cursor) (keep : Hash → Bool) :
    SeenUpTo seen (hashes.filter keep) cursor := by
  intro hmem
  rw [List.mem_filter] at hmem
  obtain ⟨before, after, hhashes, hfirst, hcursor, hbefore⟩ := hseen hmem.1
  refine ⟨before.filter keep, after.filter keep, ?_, ?_, hcursor, ?_⟩
  · rw [hhashes, List.filter_append, List.filter_cons_of_pos hmem.2]
  · intro hfound
    exact hfirst (List.mem_filter.mp hfound).1
  · intro hash hhash
    exact hbefore hash (List.mem_filter.mp hhash).1

theorem Store.listClaims_none (store : Store Key Hash) (key : Key) (limit : ℕ) :
    store.listClaims key none limit = some ((store.claimsOf key).take limit) := rfl

theorem Store.listClaims_some {cursor : Hash} {before after : List Hash}
    (limit : ℕ) (hclaims : store.claimsOf key = before ++ cursor :: after)
    (hfirst : cursor ∉ before) :
    store.listClaims key (some cursor) limit = some (after.take limit) := by
  unfold listClaims
  have hskip : (before ++ cursor :: after).dropWhile (· ≠ cursor) = cursor :: after := by
    rw [List.dropWhile_append_of_pos]
    · simp
    · intro hash hhash
      have hne : hash ≠ cursor := by
        intro heq
        rw [heq] at hhash
        exact hfirst hhash
      simpa using hne
  rw [hclaims]
  dsimp only
  rw [hskip]
  simp

theorem Store.mem_of_listClaims
    (hpage : store.listClaims key cursor limit = some page) {hash : Hash}
    (hhash : hash ∈ page) : (key, hash) ∈ store.claims := by
  rw [← mem_claimsOf]
  cases cursor with
  | none =>
    rw [listClaims_none, Option.some.injEq] at hpage
    rw [← hpage] at hhash
    exact List.mem_of_mem_take hhash
  | some cursor =>
    simp only [listClaims] at hpage
    split at hpage
    · rw [Option.some.injEq] at hpage
      rw [← hpage] at hhash
      have hdrop := List.mem_of_mem_drop (List.mem_of_mem_take hhash)
      exact (List.dropWhile_sublist _).subset hdrop
    · cases hpage

/-- What a listing that stands at `cursor` has seen of the key's claims. -/
def Store.ListedUpTo (store : Store Key Hash) (key : Key)
    (cursor : Option Hash) (seen : Hash → Prop) : Prop :=
  match cursor with
  | none => True
  | some cursor => SeenUpTo seen (store.claimsOf key) cursor

section

variable (hlisted : store.ListedUpTo key cursor seen)
  (hpage : store.listClaims key cursor limit = some page)
include hlisted hpage

/-- The claims of the key are those listed so far, the page and what is left,
which is nothing when the page is not full. -/
theorem Store.ListedUpTo.split :
    ∃ before after, store.claimsOf key = before ++ (page ++ after) ∧ (∀ hash ∈ before, seen hash) ∧
      (page.length ≠ limit → after = []) := by
  have hleft : ∀ rest : List Hash, (rest.take limit).length ≠ limit → rest.drop limit = [] := by
    intro rest hlength
    rw [List.length_take] at hlength
    apply List.drop_eq_nil_of_le
    omega
  cases cursor with
  | none =>
    rw [listClaims_none, Option.some.injEq] at hpage
    refine ⟨[], (store.claimsOf key).drop limit, ?_, ?_, ?_⟩
    · rw [← hpage, List.take_append_drop, List.nil_append]
    · simp
    · rw [← hpage]
      exact hleft _
  | some cursor =>
    have hmem : cursor ∈ store.claimsOf key := by
      by_contra hmem
      simp [listClaims, hmem] at hpage
    obtain ⟨before, after, hclaims, hfirst, hcursor, hbefore⟩ :=
      hlisted hmem
    rw [store.listClaims_some limit hclaims hfirst, Option.some.injEq] at hpage
    refine ⟨before ++ [cursor], after.drop limit, ?_, ?_, ?_⟩
    · rw [hclaims, ← hpage, List.take_append_drop, List.append_assoc]
      rfl
    · intro hash hhash
      rcases List.mem_append.mp hhash with hold | hnew
      · exact hbefore hash hold
      · rw [List.mem_singleton.mp hnew]
        exact hcursor
    · rw [← hpage]
      exact hleft _

theorem Store.ListedUpTo.last (hshort : page.length ≠ limit) {hash : Hash}
    (hclaim : (key, hash) ∈ store.claims) : seen hash ∨ hash ∈ page := by
  obtain ⟨before, after, hclaims, hbefore, hafter⟩ := hlisted.split hpage
  rw [← mem_claimsOf, hclaims, hafter hshort, List.append_nil, List.mem_append] at hclaim
  rcases hclaim with hold | hnew
  · exact Or.inl (hbefore hash hold)
  · exact Or.inr hnew

/-- A page which is not the last one moves the cursor to its end. -/
theorem Store.ListedUpTo.next :
    store.ListedUpTo key page.getLast? (fun hash => seen hash ∨ hash ∈ page) := by
  obtain ⟨before, after, hclaims, hbefore, _⟩ := hlisted.split hpage
  cases hlast : page.getLast? with
  | none => trivial
  | some last =>
    intro _
    have hmem : last ∈ page := List.mem_of_getLast? hlast
    obtain ⟨early, late, hsplit, hfirst⟩ :=
      List.eq_append_cons_of_mem (List.mem_append_right before hmem)
    refine ⟨early, late ++ after, ?_, hfirst, Or.inr hmem, ?_⟩
    · rw [hclaims, ← List.append_assoc, hsplit, List.append_assoc, List.cons_append]
    · intro hash hhash
      have hlist : hash ∈ before ++ page := by
        rw [hsplit]
        exact List.mem_append_left _ hhash
      rcases List.mem_append.mp hlist with hold | hnew
      · exact Or.inl (hbefore hash hold)
      · exact Or.inr hnew

end

/-- Other keys' claims, and deletions, leave a listing where it stands. -/
theorem Store.ListedUpTo.deleteClaim
    (hlisted : store.ListedUpTo key cursor seen) (other : Key) (hash : Hash) :
    (store.deleteClaim other hash).1.ListedUpTo key cursor seen := by
  cases cursor with
  | none => trivial
  | some cursor =>
    unfold ListedUpTo
    rw [claimsOf_deleteClaim]
    exact SeenUpTo.filter hlisted _

theorem Store.ListedUpTo.commit (hlisted : store.ListedUpTo key cursor seen) (hash : Hash)
    (hne : other ≠ key) : (store.commit other hash).ListedUpTo key cursor seen := by
  cases cursor with
  | none => trivial
  | some cursor =>
    unfold ListedUpTo
    rw [claimsOf_commit_of_ne store hash hne]
    exact hlisted

/-! ## What a holdings value lists -/

/-- The holdings are the blobs of a finite set with their sizes. -/
structure Holdings.Lists (size : Hash → ℕ) (holdings : Holdings Hash)
    (hashes : Finset Hash) : Prop where
  blobs : ∀ hash, holdings.blobs hash = if hash ∈ hashes then some (size hash) else none
  total : holdings.total = ∑ hash ∈ hashes, size hash

namespace Holdings

variable {size : Hash → ℕ} {holdings : Holdings Hash} {hashes : Finset Hash}

theorem Lists.contains_iff (hlists : holdings.Lists size hashes) (hash : Hash) :
    holdings.contains hash = true ↔ hash ∈ hashes := by
  unfold contains
  rw [hlists.blobs hash]
  by_cases hmem : hash ∈ hashes <;> simp [hmem]

theorem lists_empty : (empty : Holdings Hash).Lists size ∅ := by
  constructor
  · intro hash
    simp [empty]
  · simp [empty]

theorem Lists.insert (hlists : holdings.Lists size hashes) (hash : Hash) :
    (holdings.insert hash (size hash)).Lists size (Insert.insert hash hashes) := by
  constructor
  · intro other
    by_cases heq : other = hash
    · simp [Holdings.insert, heq]
    · simp [Holdings.insert, heq, hlists.blobs other]
  · unfold Holdings.insert
    rw [hlists.blobs hash, hlists.total]
    by_cases hmem : hash ∈ hashes
    · have hle : size hash ≤ ∑ other ∈ hashes, size other :=
        Finset.single_le_sum (fun _ _ => Nat.zero_le _) hmem
      rw [if_pos hmem, Finset.insert_eq_of_mem hmem]
      dsimp only
      omega
    · rw [if_neg hmem, Finset.sum_insert hmem]
      dsimp only
      omega

theorem Lists.remove (hlists : holdings.Lists size hashes) (hash : Hash) :
    (holdings.remove hash).Lists size (hashes.erase hash) := by
  constructor
  · intro other
    by_cases heq : other = hash
    · simp [Holdings.remove, heq]
    · simp [Holdings.remove, heq, hlists.blobs other]
  · unfold Holdings.remove
    rw [hlists.blobs hash, hlists.total]
    by_cases hmem : hash ∈ hashes
    · have hsum := Finset.sum_erase_add hashes size hmem
      rw [if_pos hmem]
      dsimp only
      omega
    · rw [if_neg hmem, Finset.erase_eq_of_notMem hmem]

omit [DecidableEq Key] in
theorem Lists.insertPage {config : Config Key Hash}
    (hlists : holdings.Lists config.size hashes) (page : List Hash) :
    (config.insertPage holdings page).Lists config.size (hashes ∪ page.toFinset) := by
  induction page generalizing holdings hashes with
  | nil =>
    rw [List.toFinset_nil, Finset.union_empty]
    exact hlists
  | cons hash rest ih =>
    have hnext := ih (hlists.insert hash)
    rw [List.toFinset_cons, Finset.union_insert, ← Finset.insert_union]
    exact hnext

@[simp] theorem contains_insert (holdings : Holdings Hash) (hash other : Hash) (size : ℕ) :
    (holdings.insert hash size).contains other =
      (decide (other = hash) || holdings.contains other) := by
  unfold contains Holdings.insert
  by_cases heq : other = hash <;> simp [heq]

@[simp] theorem contains_remove (holdings : Holdings Hash) (hash other : Hash) :
    (holdings.remove hash).contains other = (decide (other ≠ hash) && holdings.contains other) := by
  unfold contains Holdings.remove
  by_cases heq : other = hash <;> simp [heq]

omit [DecidableEq Key] in
@[simp] theorem contains_insertPage (config : Config Key Hash)
    (holdings : Holdings Hash) (page : List Hash) (other : Hash) :
    (config.insertPage holdings page).contains other =
      (decide (other ∈ page) || holdings.contains other) := by
  induction page generalizing holdings with
  | nil => simp [Config.insertPage]
  | cons hash rest ih =>
    have hnext := ih (holdings.insert hash (config.size hash))
    unfold Config.insertPage at hnext ⊢
    rw [List.foldl_cons, hnext, contains_insert]
    by_cases heq : other = hash <;> simp [heq]

end Holdings

end GroupGate
end Wildbloom
