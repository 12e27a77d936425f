import Wildbloom.AuthorityGateModel
import Wildbloom.GroupHoldings
import Wildbloom.GuardedRuns

/-!
# What an authority key may read

What the gate forwards for an authority key rests on a claim that was made with
bytes read and hashed.  The invariant says what the marks are for: a claim that
nobody vouches for is one a mirror in progress made, and that mirror has its
mark on the pair.

The gate looks at the marks before it looks at the claims, so a mirror that
marks the pair and lands between the two looks is let through.
-/

namespace Wildbloom
namespace AuthorityGate

open GroupGate (Store)
open Runs

variable {Key Hash : Type} [DecidableEq Key] [DecidableEq Hash] {hash : Hash}

/-! ## The condition -/

namespace Request

/-- What a step of the request needs: the pair is not marked when its claim is
looked up, and the core makes no claim on a stored blob for a request that has
neither proven the bytes nor marked the pair, unless the claim is there. -/
def Undisturbed (shared : Shared Key Hash) : Request Key Hash → Prop
  | .read work => work.pc = .lookUp → shared.marks work.signer work.hash = 0
  | .upload work =>
    (work.pc = .probeClaim → shared.marks work.signer work.hash = 0) ∧
      (work.pc = .begin → work.proven = false → shared.store.get work.hash = true →
          (work.signer, work.hash) ∈ shared.store.claims)
  | .mirror work =>
    work.pc = .forward → work.marked = false → shared.store.get work.hash = true →
        (work.signer, work.hash) ∈ shared.store.claims

end Request

def UndisturbedStep (state : State Key Hash) : Action Key Hash → Prop
  | .advance id _ => ∀ request, state.requests id = some request → request.Undisturbed state.shared
  | _ => True

/-! ## The invariant -/

namespace Request

omit [DecidableEq Key] [DecidableEq Hash] in
def OnTrial (key : Key) (hash : Hash) : Request Key Hash → Prop
  | .mirror work =>
    work.signer = key ∧ work.hash = hash ∧ work.marked = true ∧
      work.held = false ∧ work.pc = .verdict false
  | .read _ | .upload _ => False

def marks (key : Key) (hash : Hash) : Request Key Hash → ℕ
  | .mirror work =>
    if work.signer = key ∧ work.hash = hash ∧ work.marked = true then 1
    else 0
  | .read _ | .upload _ => 0

omit [DecidableEq Key] [DecidableEq Hash] in
/-- Only a mirror that did not find its blob held makes a mark, and it keeps
it until its last step. -/
def MarksRightly : Request Key Hash → Prop
  | .mirror work => work.marked = true →
      work.held = false ∧ work.pc ≠ .probeMark ∧ work.pc ≠ .probeClaim ∧ work.pc ≠ .mark
  | .read _ | .upload _ => True

theorem marks_of_onTrial {request : Request Key Hash} {key : Key}
    (htrial : request.OnTrial key hash) : request.marks key hash = 1 := by
  cases request with
  | read | upload => cases htrial
  | mirror work =>
    obtain ⟨hsigner, hhash, hmarked, _⟩ := htrial
    simp [marks, hsigner, hhash, hmarked]

end Request

structure Vouching (config : Config Key Hash) (state : State Key Hash) : Prop where
  fresh : state.Fresh
  signer : ∀ id request, state.requests id = some request → request.signer ∈ config.authorities
  rightly : ∀ id request, state.requests id = some request → request.MarksRightly
  marks : ∀ key hash, state.sum (Request.marks key hash) ≤ state.shared.marks key hash
  claims : ∀ key ∈ config.authorities, ∀ hash, (key, hash) ∈ state.shared.store.claims →
      (key, hash) ∈ state.shared.vouched ∨ ∃ id request, state.requests id = some request ∧
          request.OnTrial key hash
  passes : ∀ pass ∈ state.shared.passes, pass.vouched = true

theorem vouching_initial (config : Config Key Hash) (store : Store Key Hash) :
    Vouching config (State.initial store) := by
  constructor
  · exact fun _ _ => rfl
  · simp [State.initial]
  · simp [State.initial]
  · exact fun _ _ => Nat.zero_le _
  · exact fun _ _ _ => Or.inl
  · simp [State.initial]

variable {config : Config Key Hash} {state : State Key Hash} {id : ℕ} {request : Request Key Hash}
  {next : Shared Key Hash × Request Key Hash} {shared : Shared Key Hash} {action : Action Key Hash}

section

variable (hgood : Vouching config state)
include hgood

theorem Vouching.vouched_of_unmarked {key : Key} (hkey : key ∈ config.authorities)
    (hclaim : (key, hash) ∈ state.shared.store.claims) (hmarks : state.shared.marks key hash = 0) :
    (key, hash) ∈ state.shared.vouched := by
  rcases hgood.claims key hkey hash hclaim with hvouched | htrial
  · exact hvouched
  · obtain ⟨other, found, hfound, htrial⟩ := htrial
    have hone := Request.marks_of_onTrial htrial
    have hsum := Pool.le_sum hgood.fresh hfound (Request.marks key hash)
    have hbound := hgood.marks key hash
    omega

theorem Vouching.put (hrequest : state.requests id = some request)
    (hsigner : next.2.signer = request.signer) (hrightly : next.2.MarksRightly)
    (hmarks : ∀ key hash,
      next.2.marks key hash + state.shared.marks key hash ≤
        request.marks key hash + next.1.marks key hash)
    (hclaims : ∀ key ∈ config.authorities, ∀ hash, (key, hash) ∈ next.1.store.claims →
        (key, hash) ∈ next.1.vouched ∨ next.2.OnTrial key hash ∨
          (key, hash) ∈ state.shared.store.claims ∧ ((key, hash) ∈ state.shared.vouched →
              (key, hash) ∈ next.1.vouched) ∧
            ¬ request.OnTrial key hash) (hpasses : ∀ pass ∈ next.1.passes, pass.vouched = true) :
    Vouching config (state.put id next) := by
  have hself : (state.put id next).requests id = some next.2 :=
    Function.update_self id _ state.requests
  constructor
  · exact hgood.fresh.put hrequest next
  · apply Pool.forall_put
    · rw [hsigner]
      exact hgood.signer id request hrequest
    · intro other found _ hfound
      exact hgood.signer other found hfound
  · apply Pool.forall_put
    · exact hrightly
    · intro other found _ hfound
      exact hgood.rightly other found hfound
  · intro key hash
    have hsum := Pool.sum_put hgood.fresh hrequest next (Request.marks key hash)
    have hbefore := hgood.marks key hash
    have hnext := hmarks key hash
    rw [Pool.shared_put]
    omega
  · intro key hkey hash hclaim
    rcases hclaims key hkey hash hclaim with hnew | htrial | hkept
    · exact Or.inl hnew
    · exact Or.inr ⟨id, next.2, hself, htrial⟩
    · obtain ⟨hold, hvouched, hnot⟩ := hkept
      rcases hgood.claims key hkey hash hold with hbefore | hother
      · exact Or.inl (hvouched hbefore)
      · obtain ⟨other, found, hfound, htrial⟩ := hother
        have hne : other ≠ id := by
          intro heq
          rw [heq, hrequest, Option.some.injEq] at hfound
          rw [← hfound] at htrial
          exact hnot htrial
        refine Or.inr ⟨other, found, ?_, htrial⟩
        simp only [Pool.put, Function.update_of_ne hne]
        exact hfound
  · exact hpasses

/-- A step that changes at most the marks of the shared state. -/
theorem Vouching.put_quiet (hrequest : state.requests id = some request)
    (hshared : next.1 = { state.shared with marks := next.1.marks })
    (hsigner : next.2.signer = request.signer) (hrightly : next.2.MarksRightly)
    (hmarks : ∀ key hash,
      next.2.marks key hash + state.shared.marks key hash ≤
        request.marks key hash + next.1.marks key hash)
    (hnot : ∀ key hash, ¬ request.OnTrial key hash) : Vouching config (state.put id next) := by
  apply hgood.put hrequest hsigner hrightly hmarks
  · intro key _ hash hclaim
    rw [hshared] at hclaim ⊢
    exact Or.inr (Or.inr ⟨hclaim, fun hvouched => hvouched, hnot key hash⟩)
  · rw [hshared]
    exact hgood.passes

theorem Vouching.put_pass (hrequest : state.requests id = some request)
    (hshared : next.1 = state.shared.pass request.signer hash)
    (hclaim : state.shared.store.holdsClaim request.signer hash = true)
    (hunmarked : state.shared.marks request.signer hash = 0)
    (hsigner : next.2.signer = request.signer) (hrightly : next.2.MarksRightly)
    (hmarks : ∀ key hash, next.2.marks key hash = request.marks key hash)
    (hnot : ∀ key hash, ¬ request.OnTrial key hash) : Vouching config (state.put id next) := by
  have hvouched := hgood.vouched_of_unmarked (hgood.signer id request hrequest)
    ((Store.holdsClaim_iff _ _ _).mp hclaim) hunmarked
  apply hgood.put hrequest hsigner hrightly
  · intro key other
    rw [hshared, hmarks]
    exact le_rfl
  · intro key _ other hother
    rw [hshared] at hother ⊢
    exact Or.inr (Or.inr ⟨hother, fun hbefore => hbefore, hnot key other⟩)
  · intro pass hpass
    rw [hshared] at hpass
    rcases List.mem_cons.mp hpass with hnew | hold
    · rw [hnew]
      exact decide_eq_true hvouched
    · exact hgood.passes pass hold

end

/-! ## The steps -/

theorem Vouching.read {work : Read Key Hash}
    {next : Shared Key Hash × Read Key Hash} (hgood : Vouching config state)
    (hrequest : state.requests id = some (.read work))
    (hguard : (Request.read work).Undisturbed state.shared)
    (hstep : work.step state.shared = some next) :
    Vouching config (state.put id (next.1, .read next.2)) := by
  unfold Read.step at hstep
  cases hpc : work.pc with simp only [hpc] at hstep
  | checkMark =>
    cases hstep
    exact hgood.put_quiet hrequest rfl rfl trivial (fun _ _ => le_rfl) (fun _ _ => not_false)
  | lookUp =>
    split at hstep
    next hclaim =>
      cases hstep
      exact hgood.put_pass hrequest rfl hclaim (hguard hpc) rfl trivial
        (fun _ _ => rfl) (fun _ _ => not_false)
    · cases hstep
      exact hgood.put_quiet hrequest rfl rfl trivial (fun _ _ => le_rfl) (fun _ _ => not_false)
  | answered answer =>
    cases hstep

/-- An upload makes its claim with bytes read and hashed, or the claim was
there before. -/
theorem Vouching.put_upload {work found : Upload Key Hash} (hgood : Vouching config state)
    (hrequest : state.requests id = some (.upload work)) (hsigner : found.signer = work.signer)
    (hmarks : shared.marks = state.shared.marks) (hpasses : shared.passes = state.shared.passes)
    (hvouched : ∀ claim ∈ state.shared.vouched, claim ∈ shared.vouched)
    (hclaims : ∀ claim ∈ shared.store.claims,
      claim ∈ state.shared.store.claims ∨ claim ∈ shared.vouched) :
    Vouching config (state.put id (shared, .upload found)) := by
  refine hgood.put hrequest ?_ trivial ?_ ?_ ?_
  · exact hsigner
  · intro key hash
    rw [hmarks]
    exact le_rfl
  · intro key _ hash hclaim
    rcases hclaims (key, hash) hclaim with hold | hnew
    · exact Or.inr (Or.inr ⟨hold, hvouched (key, hash), not_false⟩)
    · exact Or.inl hnew
  · rw [hpasses]
    exact hgood.passes

theorem Vouching.upload {work : Upload Key Hash} {ok : Bool}
    {next : Shared Key Hash × Upload Key Hash} (hgood : Vouching config state)
    (hrequest : state.requests id = some (.upload work))
    (hguard : (Request.upload work).Undisturbed state.shared)
    (hstep : work.step config state.shared ok = some next) :
    Vouching config (state.put id (next.1, .upload next.2)) := by
  have hquiet : ∀ found : Upload Key Hash, found.signer = work.signer →
      Vouching config (state.put id (state.shared, .upload found)) := by
    intro found hsigner
    exact hgood.put_quiet hrequest rfl hsigner trivial (fun _ _ => le_rfl) (fun _ _ => not_false)
  unfold Upload.step at hstep
  cases hpc : work.pc with simp only [hpc] at hstep
  | probeClaim =>
    split at hstep
    next hclaim =>
      cases hstep
      exact hgood.put_pass hrequest rfl hclaim (hguard.1 hpc) rfl trivial
        (fun _ _ => rfl) (fun _ _ => not_false)
    · cases hstep
      exact hquiet _ rfl
  | prove =>
    split at hstep
    all_goals
      cases hstep
      exact hquiet _ rfl
  | begin =>
    split at hstep
    · unfold Store.beginClaimedUpload at hstep
      by_cases hstored : state.shared.store.get work.hash = true
      · simp only [hstored, if_true, Option.some.injEq] at hstep
        rw [← hstep]
        cases hproven : work.proven with
        | true =>
          refine hgood.put_upload hrequest ?_ ?_ ?_ ?_ ?_
          · rfl
          · rfl
          · rfl
          · intro claim hclaim
            exact List.mem_cons_of_mem _ hclaim
          · intro claim hclaim
            rcases (Store.mem_addClaim _ _ _ claim).mp hclaim with
              hnew | hold
            · rw [hnew]
              exact Or.inr List.mem_cons_self
            · exact Or.inl hold
        | false =>
          refine hgood.put_upload hrequest ?_ ?_ ?_ ?_ ?_
          · rfl
          · rfl
          · rfl
          · intro claim hclaim
            exact hclaim
          · intro claim hclaim
            rcases (Store.mem_addClaim _ _ _ claim).mp hclaim with
              hnew | hold
            · rw [hnew]
              exact Or.inl (hguard.2 hpc hproven hstored)
            · exact Or.inl hold
      · simp only [hstored, Bool.false_eq_true, if_false, Option.some.injEq] at hstep
        rw [← hstep]
        exact hquiet _ rfl
    · cases hstep
      exact hquiet _ rfl
  | stream =>
    split at hstep
    · cases hstep
      refine hgood.put_upload hrequest ?_ ?_ ?_ ?_ ?_
      · rfl
      · rfl
      · rfl
      · intro claim hclaim
        exact List.mem_cons_of_mem _ hclaim
      · intro claim hclaim
        rcases (Store.mem_commit _ _ _ claim).mp hclaim with hnew | hold
        · rw [hnew]
          exact Or.inr List.mem_cons_self
        · exact Or.inl hold
    · cases hstep
      exact hquiet _ rfl
  | answered answer =>
    cases hstep
  | _ =>
    cases hstep
    exact hquiet _ rfl

omit [DecidableEq Key] [DecidableEq Hash] in
theorem Mirror.not_onTrial {work : Mirror Key Hash}
    (hpc : work.pc ≠ .verdict false ∨ work.held = true) (key : Key)
    (hash : Hash) : ¬ (Request.mirror work).OnTrial key hash := by
  intro htrial
  obtain ⟨_, _, _, hheld, htrialPc⟩ := htrial
  rcases hpc with hpc | hpc
  · exact hpc htrialPc
  · rw [hpc] at hheld
    cases hheld

/-- A mirror's claim lands: it is new and vouched for, or was there before, or
the mirror has its mark on it. -/
theorem Vouching.forward {work : Mirror Key Hash} (hgood : Vouching config state)
    (hrequest : state.requests id = some (.mirror work))
    (hguard : (Request.mirror work).Undisturbed state.shared) (hpc : work.pc = .forward)
    (hstored : state.shared.store.get work.hash = true) :
    Vouching config (state.put id
      ({ state.shared with store := state.shared.store.commit work.signer work.hash },
        .mirror (work.goto (.verdict false)))) := by
  have hrightly := hgood.rightly id _ hrequest
  have hnot : ∀ key hash, ¬ (Request.mirror work).OnTrial key hash :=
    Mirror.not_onTrial (Or.inl (by simp [hpc]))
  apply hgood.put hrequest rfl
  · intro hmarked
    exact ⟨(hrightly hmarked).1, by simp [Mirror.goto]⟩
  · intro key hash
    exact le_rfl
  · intro key _ hash hclaim
    rcases (Store.mem_commit _ _ _ (key, hash)).mp hclaim with hnew | hold
    · rw [Prod.mk.injEq] at hnew
      cases hmarked : work.marked with
      | true =>
        right
        left
        exact ⟨hnew.1.symm, hnew.2.symm, hmarked, (hrightly hmarked).1, rfl⟩
      | false =>
        have hbefore := hguard hpc hmarked hstored
        rw [← hnew.1, ← hnew.2] at hbefore
        exact Or.inr (Or.inr ⟨hbefore, fun hvouched => hvouched, hnot key hash⟩)
    · exact Or.inr (Or.inr ⟨hold, fun hvouched => hvouched, hnot key hash⟩)
  · exact hgood.passes

theorem Vouching.takeBack {work : Mirror Key Hash} {answer : Answer} (hgood : Vouching config state)
    (hrequest : state.requests id = some (.mirror work)) :
    Vouching config (state.put id (state.shared.deleteClaim work.signer work.hash,
        .mirror (work.goto (.unmark answer)))) := by
  have hrightly := hgood.rightly id _ hrequest
  apply hgood.put hrequest rfl
  · intro hmarked
    exact ⟨(hrightly hmarked).1, by simp [Mirror.goto]⟩
  · intro key hash
    exact le_rfl
  · intro key _ hash hclaim
    obtain ⟨hold, hne⟩ := (Store.mem_deleteClaim _ _ _ (key, hash)).mp hclaim
    refine Or.inr (Or.inr ⟨hold, ?_, ?_⟩)
    · intro hvouched
      exact List.mem_filter.mpr ⟨hvouched, decide_eq_true hne⟩
    · intro htrial
      apply hne
      rw [htrial.1, htrial.2.1]
  · exact hgood.passes

theorem Request.marks_markUnproven (shared : Shared Key Hash)
    (work : Mirror Key Hash) (key : Key) (hash : Hash) :
    (Request.mirror { work with marked := true, pc := .forward }).marks key
        hash + shared.marks key hash =
      (shared.markUnproven work.signer work.hash).marks key hash := by
  simp only [Request.marks, Shared.markUnproven, Shared.setMarks]
  by_cases hkey : work.signer = key
  · by_cases hhash : work.hash = hash
    · simp [hkey, hhash, Nat.add_comm]
    · simp [hkey, hhash, Function.update_of_ne (Ne.symm hhash)]
  · simp [hkey, Function.update_of_ne (Ne.symm hkey)]

theorem Request.marks_dropMark (shared : Shared Key Hash)
    (work : Mirror Key Hash) (hmarked : work.marked = true) (key : Key) (hash : Hash) :
    shared.marks key hash ≤ (Request.mirror work).marks key hash +
        (shared.dropMark work.signer work.hash).marks key hash := by
  simp only [Request.marks, Shared.dropMark, Shared.setMarks]
  by_cases hkey : work.signer = key
  · by_cases hhash : work.hash = hash
    · simp only [hkey, hhash, hmarked, and_self, if_true, Function.update_self]
      omega
    · simp [hkey, hhash, Function.update_of_ne (Ne.symm hhash)]
  · simp [hkey, Function.update_of_ne (Ne.symm hkey)]

section

variable (hgood : Vouching config state)
include hgood

theorem Vouching.mirror {work : Mirror Key Hash} {ok : Bool}
    {next : Shared Key Hash × Mirror Key Hash} (hrequest : state.requests id = some (.mirror work))
    (hguard : (Request.mirror work).Undisturbed state.shared)
    (hstep : work.step state.shared ok = some next) :
    Vouching config (state.put id (next.1, .mirror next.2)) := by
  have hrightly := hgood.rightly id _ hrequest
  -- A step to `pc` that changes nothing else.
  have hgoto : ∀ pc : MirrorPc, (work.pc ≠ .verdict false ∨ work.held = true) →
      (work.marked = true → pc ≠ .probeMark ∧ pc ≠ .probeClaim ∧ pc ≠ .mark) →
      Vouching config (state.put id (state.shared, .mirror (work.goto pc))) := by
    intro pc htrial hpc
    refine hgood.put_quiet hrequest rfl rfl ?_ (fun _ _ => le_rfl) (Mirror.not_onTrial htrial)
    intro hmarked
    exact ⟨(hrightly hmarked).1, hpc hmarked⟩
  unfold Mirror.step at hstep
  cases hpc : work.pc with simp only [hpc] at hstep
  | probeMark =>
    cases hstep
    apply hgoto _ (Or.inl (by simp [hpc]))
    intro hmarked
    exact absurd hpc (hrightly hmarked).2.1
  | probeClaim =>
    simp only [Option.some.injEq] at hstep
    have hmarked : work.marked ≠ true := by
      intro hmarked
      exact (hrightly hmarked).2.2.1 hpc
    rw [← hstep]
    refine hgood.put_quiet hrequest rfl rfl ?_ (fun _ _ => le_rfl)
      (Mirror.not_onTrial (Or.inl (by simp [hpc])))
    intro hmark
    exact absurd hmark hmarked
  | mark =>
    split at hstep
    next hnamed =>
      cases hstep
      refine hgood.put_quiet hrequest rfl rfl (fun _ => ⟨hnamed.2, by simp⟩) ?_
        (Mirror.not_onTrial (Or.inl (by simp [hpc])))
      intro key hash
      rw [Request.marks_markUnproven state.shared work]
      exact Nat.le_add_left _ _
    · cases hstep
      exact hgoto _ (Or.inl (by simp [hpc])) (by simp)
  | forward =>
    split at hstep
    · split at hstep
      next hstored =>
        cases hstep
        exact hgood.forward hrequest hguard hpc hstored
      · cases hstep
        apply hgood.put hrequest rfl
        · intro hmarked
          exact ⟨(hrightly hmarked).1, by simp [Mirror.goto]⟩
        · intro key hash
          exact le_rfl
        · intro key _ hash hclaim
          rcases (Store.mem_commit _ _ _ (key, hash)).mp hclaim with
            hnew | hold
          · left
            rw [hnew]
            exact List.mem_cons_self
          · exact Or.inr (Or.inr ⟨hold,
              fun hvouched => List.mem_cons_of_mem _ hvouched,
              Mirror.not_onTrial (Or.inl (by simp [hpc])) key hash⟩)
        · exact hgood.passes
    · cases hstep
      exact hgoto _ (Or.inl (by simp [hpc])) (by simp)
  | verdict created =>
    split at hstep
    · cases hstep
      exact hgood.takeBack hrequest
    next hproven =>
      cases hstep
      apply hgoto _ _ (by simp)
      cases created with
      | true => exact Or.inl (by simp [hpc])
      | false =>
        right
        simpa using hproven
  | unmark answer =>
    split at hstep
    next hmarked =>
      cases hstep
      refine hgood.put_quiet hrequest rfl rfl (fun hmark => by cases hmark) ?_
        (Mirror.not_onTrial (Or.inl (by simp [hpc])))
      intro key hash
      have hdrop := Request.marks_dropMark state.shared work hmarked key hash
      simpa [Request.marks] using hdrop
    · cases hstep
      exact hgoto _ (Or.inl (by simp [hpc])) (by simp)
  | answered answer =>
    cases hstep

theorem Vouching.hangUp {found : Request Key Hash} (hrequest : state.requests id = some request)
    (hstep : request.hangUp = some found) :
    Vouching config (state.put id (state.shared, found)) := by
  cases request with
  | read | upload =>
    cases hstep
    exact hgood.put_quiet hrequest rfl rfl trivial (fun _ _ => le_rfl) (fun _ _ => not_false)
  | mirror work =>
    have hrightly := hgood.rightly id _ hrequest
    have hwait : work.pc = .probeMark ∨ work.pc = .probeClaim := by
      unfold Request.hangUp at hstep
      cases hpc : work.pc <;> simp_all
    have hfound : found = .mirror (work.goto (.answered .hungUp)) := by
      rcases hwait with hpc | hpc
      all_goals
        simp only [Request.hangUp, hpc, Option.some.injEq] at hstep
        exact hstep.symm
    have hnot : ∀ key hash, ¬ (Request.mirror work).OnTrial key hash := by
      apply Mirror.not_onTrial
      rcases hwait with hpc | hpc <;> simp [hpc]
    rw [hfound]
    refine hgood.put_quiet hrequest rfl rfl ?_ (fun _ _ => le_rfl) hnot
    intro hmarked
    rcases hwait with hpc | hpc
    · exact absurd hpc (hrightly hmarked).2.1
    · exact absurd hpc (hrightly hmarked).2.2.1

/-- Claims of other keys come and go, and an authority's claim may go. -/
theorem Vouching.outside (hmarks : shared.marks = state.shared.marks)
    (hpasses : shared.passes = state.shared.passes)
    (hclaims : ∀ key ∈ config.authorities, ∀ hash, (key, hash) ∈ shared.store.claims →
        (key, hash) ∈ state.shared.store.claims ∧ ((key, hash) ∈ state.shared.vouched →
            (key, hash) ∈ shared.vouched)) : Vouching config { state with shared := shared } := by
  constructor
  · exact hgood.fresh
  · exact hgood.signer
  · exact hgood.rightly
  · intro key hash
    simp only [hmarks]
    exact hgood.marks key hash
  · intro key hkey hash hclaim
    obtain ⟨hold, hvouched⟩ := hclaims key hkey hash hclaim
    rcases hgood.claims key hkey hash hold with hbefore | htrial
    · exact Or.inl (hvouched hbefore)
    · exact Or.inr htrial
  · simp only [hpasses]
    exact hgood.passes

theorem Vouching.step {after : State Key Hash} (hguard : UndisturbedStep state action)
    (hstep : config.step state action = some after) : Vouching config after := by
  cases action with
  | start order =>
    simp only [Config.step, Option.ite_none_right_eq_some, Option.some.injEq] at hstep
    obtain ⟨hsigner, hafter⟩ := hstep
    have hnew : order.request.MarksRightly ∧ ∀ key hash, order.request.marks key hash = 0 := by
      cases order with
      | read | upload => exact ⟨trivial, fun _ _ => rfl⟩
      | mirror signer hash named =>
        constructor
        · intro hmarked
          cases hmarked
        · intro key other
          simp [Order.request, Request.marks]
    rw [← hafter]
    constructor
    · exact hgood.fresh.start order.request
    · exact Pool.forall_start hsigner hgood.signer
    · exact Pool.forall_start hnew.1 hgood.rightly
    · intro key hash
      rw [Pool.sum_start, hnew.2, Pool.shared_start]
      exact hgood.marks key hash
    · intro key hkey hash hclaim
      rcases hgood.claims key hkey hash hclaim with hvouched | htrial
      · exact Or.inl hvouched
      · obtain ⟨other, found, hfound, htrial⟩ := htrial
        have hne := (hgood.fresh.lt_started hfound).ne
        refine Or.inr ⟨other, found, ?_, htrial⟩
        simp only [Pool.start, Function.update_of_ne hne]
        exact hfound
    · exact hgood.passes
  | advance id ok =>
    simp only [Config.step, Option.bind_eq_some_iff, Option.map_eq_some_iff] at hstep
    obtain ⟨request, hrequest, result, hresult, hafter⟩ := hstep
    have hundisturbed := hguard request hrequest
    rw [← hafter]
    cases request with obtain ⟨next, hnext, hresult⟩ := Option.map_eq_some_iff.mp hresult
    | read work =>
      rw [← hresult]
      exact hgood.read hrequest hundisturbed hnext
    | upload work =>
      rw [← hresult]
      exact hgood.upload hrequest hundisturbed hnext
    | mirror work =>
      rw [← hresult]
      exact hgood.mirror hrequest hundisturbed hnext
  | hangUp id =>
    simp only [Config.step, Option.bind_eq_some_iff, Option.map_eq_some_iff] at hstep
    obtain ⟨request, hrequest, found, hfound, hafter⟩ := hstep
    rw [← hafter]
    exact hgood.hangUp hrequest hfound
  | delete key hash =>
    cases hstep
    refine hgood.outside ?_ ?_ ?_
    · rfl
    · rfl
    intro other _ otherHash hclaim
    obtain ⟨hold, hne⟩ := (Store.mem_deleteClaim _ _ _ _).mp hclaim
    refine ⟨hold, ?_⟩
    intro hvouched
    exact List.mem_filter.mpr ⟨hvouched, decide_eq_true hne⟩
  | otherClaim key hash =>
    simp only [Config.step, Option.ite_none_left_eq_some, Option.some.injEq] at hstep
    rw [← hstep.2]
    refine hgood.outside ?_ ?_ ?_
    · rfl
    · rfl
    intro other hother otherHash hclaim
    rcases (Store.mem_commit _ _ _ _).mp hclaim with hnew | hold
    · rw [Prod.mk.injEq] at hnew
      rw [hnew.1] at hother
      exact absurd hother hstep.1
    · exact ⟨hold, fun hvouched => hvouched⟩
  | otherDrop key hash =>
    simp only [Config.step, Option.ite_none_left_eq_some, Option.some.injEq] at hstep
    rw [← hstep.2]
    refine hgood.outside ?_ ?_ ?_
    · rfl
    · rfl
    intro other _ otherHash hclaim
    have hold := (Store.mem_deleteClaim _ _ _ _).mp hclaim
    exact ⟨hold.1, fun hvouched => hvouched⟩

end

/-- In every run that meets the condition, whatever the gate lets through for
an authority key rests on a claim that was made with bytes read and hashed, or
that was there at the start. -/
theorem authority_passes_are_vouched (config : Config Key Hash) (store : Store Key Hash)
    (state : State Key Hash)
    (hreach : Reaches config.step UndisturbedStep (State.initial store) state) :
    ∀ pass ∈ state.shared.passes, pass.vouched = true := by
  have hgood : Vouching config state :=
    hreach.invariant (vouching_initial config store)
      (fun _ _ _ hgood hguard hstep => hgood.step hguard hstep)
  exact hgood.passes

/-! ## Runs -/

def Request.undisturbedCheck (shared : Shared Key Hash) : Request Key Hash → Bool
  | .read work =>
    decide (work.pc ≠ .lookUp) || decide (shared.marks work.signer work.hash = 0)
  | .upload work =>
    (decide (work.pc ≠ .probeClaim) || decide (shared.marks work.signer work.hash = 0)) &&
    (decide (work.pc ≠ .begin) || work.proven || !shared.store.get work.hash ||
      decide ((work.signer, work.hash) ∈ shared.store.claims))
  | .mirror work =>
    decide (work.pc ≠ .forward) || work.marked || !shared.store.get work.hash ||
      decide ((work.signer, work.hash) ∈ shared.store.claims)

def undisturbedCheck (state : State Key Hash) : Action Key Hash → Bool
  | .advance id _ =>
    (state.requests id).all (Request.undisturbedCheck state.shared)
  | _ => true

theorem undisturbedStep_of_check (hcheck : undisturbedCheck state action = true) :
    UndisturbedStep state action := by
  cases action with
  | advance id ok =>
    intro request hrequest
    simp only [undisturbedCheck, hrequest, Option.all_some] at hcheck
    cases request with
    | read work | mirror work =>
      simp only [Request.undisturbedCheck, Bool.or_eq_true,
        decide_eq_true_eq, Bool.not_eq_true'] at hcheck
      simp only [Request.Undisturbed]
      grind
    | upload work =>
      simp only [Request.undisturbedCheck, Bool.or_eq_true,
        Bool.and_eq_true, decide_eq_true_eq, Bool.not_eq_true'] at hcheck
      simp only [Request.Undisturbed]
      grind
  | _ => trivial

def oneAuthority : Config ℕ ℕ where
  authorities := [1]
  size := fun _ => 4

def advances (id count : ℕ) : List (Action ℕ ℕ) :=
  List.replicate count (.advance id true)

theorem authority_passes_are_vouched_after_proof : ∃ state : State ℕ ℕ,
      Reaches oneAuthority.step UndisturbedStep (State.initial ⟨[7], [(2, 7)]⟩) state ∧
      state.shared.passes.length = 1 ∧
      ∀ pass ∈ state.shared.passes, pass.vouched = true := by
  have hrun : (checkedRun oneAuthority.step undisturbedCheck (State.initial ⟨[7], [(2, 7)]⟩)
      (.start (.upload 1 7 4) :: advances 0 9 ++ .start (.read 1 7) :: advances 1 2)).any
        (fun state => decide (state.shared.passes.length = 1)) = true := by
    decide
  obtain ⟨state, hreach, htest⟩ := exists_reaches_of_check undisturbedStep_of_check hrun
  exact ⟨state, hreach, of_decide_eq_true htest,
    authority_passes_are_vouched oneAuthority _ state hreach⟩

/-- A read looks at the marks; a mirror of the same key marks the blob of
another key and lands; the read then finds the claim. -/
theorem authority_reads_unproven_blob : ∃ (state : State ℕ ℕ) (pass : Pass ℕ ℕ),
      Reaches oneAuthority.step everyStep (State.initial ⟨[7], [(2, 7)]⟩) state ∧
      pass ∈ state.shared.passes ∧ pass.vouched = false := by
  have hrun : (runActions oneAuthority.step (State.initial ⟨[7], [(2, 7)]⟩)
      (.start (.read 1 7) :: .start (.mirror 1 7 true) ::
        (advances 0 1 ++ advances 1 4 ++ advances 0 1))).any
      (fun state => state.shared.passes.any fun pass => !pass.vouched) = true := by
    decide
  obtain ⟨state, hreach, htest⟩ := exists_reaches_of_runActions hrun
  rw [List.any_eq_true] at htest
  obtain ⟨pass, hpass, hunproven⟩ := htest
  exact ⟨state, pass, hreach, hpass, by simpa using hunproven⟩

end AuthorityGate
end Wildbloom
