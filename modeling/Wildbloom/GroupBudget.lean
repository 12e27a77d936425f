import Wildbloom.GroupLedger

/-!
# The budget of a group

What the ledger needs of a step, and that every step of the gate which meets
it keeps the ledger balanced.  Apart from the coherence of the holdings, the
conditions say what a claim rests on.  An upload that makes a claim to keep
still holds its reservation, or its blob is in the holdings and no DELETE of the
blob has looked past its device.  A mirror that is accepted was weighed with the
bytes that are reserved now.
-/

namespace Wildbloom
namespace GroupGate

open ClaimCache Runs

variable {Key Hash : Type}

/-! ## The conditions -/

def State.covered (config : Config Key Hash) (state : State Key Hash) : Set ℕ :=
  {id | ∃ upload, state.requests id = some (.upload upload) ∧
    upload.bytes = config.size upload.hash}

variable {config : Config Key Hash} {state : State Key Hash} {id : ℕ}
variable {request : Request Key Hash} {shared : Shared Key Hash}
  {next : State Key Hash} {action : Action Key Hash} {held : Finset Hash}
  {upload : Upload Key Hash} {label : Label Key Hash ℕ}
  {mirror : Mirror Key Hash} {key : Key} {hash : Hash}

theorem Request.unrecorded_of_early (hearly : request.Early) :
    request.unrecorded = 0 ∧ ¬ request.Locks := by
  cases request with
  | mirror | delete => exact ⟨rfl, not_false⟩
  | upload work =>
    simp only [Request.Early] at hearly
    simp only [Request.unrecorded, Request.Locks, Upload.unrecorded, Upload.Locks]
    cases hpc : work.pc <;> simp_all

theorem Request.device_of_owes (request : Request Key Hash) (hdevice : request.ByDevice config)
    (howes : request.task config = .owes key hash) : key ∈ config.devices := by
  cases request with
  | upload work =>
    simp only [Request.task, Upload.task] at howes
    split at howes
    all_goals grind [Request.ByDevice, Task.riskUnless_ne_owes]
  | mirror work =>
    simp only [Request.task, Mirror.task] at howes
    split at howes
    all_goals grind [Request.ByDevice, Task.riskUnless_ne_owes]
  | delete work =>
    simp only [Request.task, Delete.task] at howes
    split at howes
    all_goals cases howes

theorem State.covered_put {after : Upload Key Hash} {other : ℕ}
    (hrequest : state.requests id = some (.upload upload))
    (hkeep : other = id → upload.bytes = config.size upload.hash →
      after.bytes = config.size after.hash)
    (hcovered : other ∈ state.covered config) :
    other ∈ (state.put id (shared, .upload after)).covered config := by
  obtain ⟨found, hfound, hbytes⟩ := hcovered
  by_cases heq : other = id
  · rw [heq, hrequest, Option.some.injEq, Request.upload.injEq] at hfound
    rw [← hfound] at hbytes
    refine ⟨after, ?_, hkeep heq hbytes⟩
    simp only [State.put, heq, Function.update_self]
  · refine ⟨found, ?_, hbytes⟩
    simp only [State.put, Function.update_of_ne heq]
    exact hfound

theorem State.covered_put_other {found : Request Key Hash} {other : ℕ}
    (hrequest : state.requests id = some request) (hother : ∀ upload, request ≠ .upload upload)
    (hcovered : other ∈ state.covered config) :
    other ∈ (state.put id (shared, found)).covered config := by
  obtain ⟨upload, hupload, hbytes⟩ := hcovered
  have hne : other ≠ id := by
    intro heq
    rw [heq, hrequest, Option.some.injEq] at hupload
    exact hother upload hupload
  refine ⟨upload, ?_, hbytes⟩
  simp only [State.put, Function.update_of_ne hne]
  exact hupload

variable [DecidableEq Key] [DecidableEq Hash]

def WeighedStep (config : Config Key Hash) (state : State Key Hash) : Action Key Hash → Prop
  | .hangUp id => ∀ upload created,
      state.requests id = some (.upload upload) → upload.pc = .record created → upload.bytes = 0
  | .advance id ok => ∀ mirror,
      state.requests id = some (.mirror mirror) → mirror.held = false →
        state.label config (.advance id ok) = .record id mirror.signer mirror.hash →
        state.shared.reservedBy = none ∧ state.shared.reserved ≤ mirror.reserved
  | _ => True

structure CeilingStep (config : Config Key Hash) (state : State Key Hash)
    (action : Action Key Hash) : Prop where
  coherent : CoherentStep config state action
  backed : BackedGuard (state.covered config) (state.view config) (state.label config action)
  weighed : WeighedStep config state action

/-! ## While the holdings are not built -/

theorem Sound.sum_of_unbuilt (hsound : Sound config state) (hunbuilt : state.shared.cell.Unbuilt) :
    state.sum Request.unrecorded = 0 := by
  apply tableSum_eq_zero
  intro other request hrequest
  exact (Request.unrecorded_of_early (hsound.early hunbuilt other request hrequest)).1

theorem Request.label_of_early {ok : Bool} (hearly : request.Early) :
    (∀ other key hash kept counted, request.label config shared id ok ≠
        .claim other key hash kept counted) ∧
      ∀ other key hash, request.label config shared id ok ≠ .record other key hash := by
  have haccess : ∀ label : Holdings Hash → Label Key Hash ℕ,
      (∀ holdings other key hash kept counted,
        label holdings ≠ .claim other key hash kept counted) →
      (∀ holdings other key hash, label holdings ≠ .record other key hash) →
      (∀ other key hash kept counted,
        accessLabel shared id label ≠ .claim other key hash kept counted) ∧
        ∀ other key hash, accessLabel shared id label ≠ .record other key hash := by
    intro label hclaim hrecord
    unfold accessLabel
    split
    · exact ⟨hclaim _, hrecord _⟩
    · split
      · split <;> simp
      · simp
  cases request with
  | upload work =>
    simp only [Request.Early] at hearly
    simp only [Request.label, Upload.label]
    cases hpc : work.pc with
    | check => exact haccess _ (by simp) (by simp)
    | acquire | release | answered => simp
    | _ => simp [hpc] at hearly
  | mirror work =>
    simp only [Request.Early] at hearly
    simp only [Request.label, Mirror.label]
    cases hpc : work.pc with
    | check => exact haccess _ (by simp) (by simp)
    | readReserved | answered => simp
    | _ => simp [hpc] at hearly
  | delete work =>
    simp only [Request.label, Delete.label]
    split
    · simp
    · exact haccess _ (by simp) (by simp)
    · simp

theorem Sound.label_of_unbuilt (hsound : Sound config state)
    (hunbuilt : state.shared.cell.Unbuilt) (action : Action Key Hash) :
    (∀ other key hash kept counted,
      state.label config action ≠ .claim other key hash kept counted) ∧
      ∀ other key hash, state.label config action ≠ .record other key hash := by
  cases action with
  | advance id ok =>
    simp only [State.label]
    cases hrequest : state.requests id with
    | none => simp
    | some request =>
      exact Request.label_of_early (hsound.early hunbuilt id request hrequest)
  | _ => simp [State.label]

theorem Sound.unbuilt_of_step (hsound : Sound config state)
    (hstep : config.step state action = some next)
    (hunbuilt : next.shared.cell.Unbuilt) : state.shared.cell.Unbuilt := by
  cases Config.step_cases hstep with
  | upload hrequest hwork | mirror hrequest hwork =>
    exact (hwork.early (fun hbefore => hsound.early hbefore _ _ hrequest) hunbuilt).1
  | delete hrequest hwork => exact hwork.early hunbuilt
  | uploadHangUp hrequest hwork =>
    cases hwork with
    | _ => exact hunbuilt
  | _ => exact hunbuilt

/-- Until they are built, the holdings and the claims of the group stay within
what the group held at the start. -/
structure Confined (config : Config Key Hash) (held : Finset Hash)
    (state : State Key Hash) : Prop where
  claims : ∀ key ∈ config.devices, ∀ hash, (key, hash) ∈ state.shared.store.claims → hash ∈ held
  known : ∀ hash ∈ state.shared.cell.known, hash ∈ held

theorem Confined.step (hconfined : Confined config held state)
    (hsound : Sound config state) (hunbuilt : state.shared.cell.Unbuilt)
    (hstep : config.step state action = some next) : Confined config held next := by
  have hmove := hsound.move hstep
  obtain ⟨hclaim, hrecord⟩ := hsound.label_of_unbuilt hunbuilt action
  constructor
  · intro key hkey hash hnext
    rcases hmove.claims_subset hkey hnext with hold | hnew
    · exact hconfined.claims key hkey hash hold
    · obtain ⟨other, kept, counted, hlabel⟩ := hnew
      exact absurd hlabel (hclaim other key hash kept counted)
  · intro hash hnext
    rcases hmove.known_subset hnext with hold | hnew | hlisted
    · exact hconfined.known hash hold
    · obtain ⟨other, key, hlabel⟩ := hnew
      exact absurd hlabel (hrecord other key hash)
    · obtain ⟨key, hkey, hclaimed, _⟩ := hlisted
      exact hconfined.claims key hkey hash hclaimed

/-! ## The ledger along a step -/

theorem Ledger.put_unbuilt {next : Shared Key Hash × Request Key Hash}
    (hledger : Ledger config state) (hsound : Sound config state)
    (hrequest : state.requests id = some request) (hunbuilt : state.shared.cell.Unbuilt)
    (htotal : next.1.cell.total ≤ config.ceiling) (hnext : next.1.reserved = state.shared.reserved ∧
      next.2.bytes = request.bytes ∧ next.2.unrecorded = 0 ∧
      ¬ next.2.Locks) : Ledger config (state.put id next) := by
  obtain ⟨hreserved, hbytes, hzero, hlocks⟩ := hnext
  have hsum := hsound.sum_of_unbuilt hunbuilt
  refine hledger.put_alone hsound hrequest ?_ (by omega) (by omega) hlocks
  intro other found _ hfound
  exact (Request.unrecorded_of_early (hsound.early hunbuilt other found hfound)).2

section

variable (hledger : Ledger config state) (hsound : Sound config state) {holdings : Holdings Hash}
include hledger hsound

section

variable (hrequest : state.requests id = some (.upload upload))
include hrequest

/-- An upload that records its blob moves its charge to the holdings, or the
blob is among them already. -/
theorem Ledger.record {created : Bool} {answer : Answer} (hpc : upload.pc = .record created)
    (hready : state.shared.cell.ready id = some holdings)
    (hbacked : upload.bytes = config.size upload.hash ∨ upload.hash ∈ state.shared.cell.known) :
    Ledger config (state.put id
      ({ state.shared with
          cell := .idle (some (holdings.insert upload.hash
            (config.size upload.hash))) },
        .upload (upload.finish answer))) := by
  obtain ⟨hashes, hlists⟩ := hsound.shared.lists.of_ready hready
  have htotal := Cell.total_of_ready hready
  have hbefore : (Request.upload upload).unrecorded = upload.bytes := by
    simp only [Request.unrecorded, Upload.unrecorded, hpc]
  have hafter : (Request.upload (upload.finish answer)).unrecorded = 0 := rfl
  have hcell : (Cell.idle (some (holdings.insert upload.hash
      (config.size upload.hash))) : Cell Key Hash).total =
      (holdings.insert upload.hash (config.size upload.hash)).total := rfl
  refine hledger.put_quiet hsound hrequest ?_ le_rfl rfl rfl not_false
  dsimp only
  rcases hbacked with hcovered | hknown
  · have hinsert := hlists.total_insert_le upload.hash
    omega
  · rw [Cell.known_of_ready hready, Set.mem_ofPred_eq] at hknown
    have hinsert := hlists.total_insert_of_contains hknown
    omega

theorem Upload.Step.ledger {next : Shared Key Hash × Upload Key Hash}
    (hbacked : Backed (state.covered config) (state.view config))
    (hguard : CoherentGuard (state.view config) label) (htotal : state.shared.cell.Unbuilt →
      next.1.cell.total ≤ config.ceiling)
    (hstep : Upload.Step config state.shared id upload label next) :
    Ledger config (state.put id (next.1, .upload next.2)) := by
  have hbuilt : ¬ (Request.upload upload).Early →
      ¬ state.shared.cell.Unbuilt := fun hlate hunbuilt =>
    hlate (hsound.early hunbuilt id _ hrequest)
  have hholder : upload.Locks → state.shared.reservedBy = some id :=
    hledger.locks id _ hrequest
  have hcharged := hledger.charged
  have hbytes := Request.unrecorded_le_bytes (Request.upload upload)
  cases hstep with
  | check hpc haccess =>
    by_cases hunbuilt : state.shared.cell.Unbuilt
    · refine hledger.put_unbuilt hsound hrequest hunbuilt (htotal hunbuilt) ?_
      refine haccess.rule
        (P := fun next => next.1.reserved = state.shared.reserved ∧
          (Request.upload next.2).bytes = (Request.upload upload).bytes ∧
          (Request.upload next.2).unrecorded = 0 ∧
          ¬ (Request.upload next.2).Locks) ?_ ?_ ?_
      · intro cell
        simp [Request.unrecorded, Upload.unrecorded, Request.Locks, Upload.Locks, hpc]
      · intro cell
        exact ⟨rfl, rfl, rfl, not_false⟩
      · intro cell held
        exact ⟨rfl, rfl, rfl, not_false⟩
    · obtain ⟨holdings, hready, hnext⟩ := haccess.of_built hunbuilt
      rw [hnext]
      refine hledger.put_quiet hsound hrequest ?_ le_rfl rfl rfl not_false
      rw [Cell.total_of_ready hready]
      exact Nat.le_add_right _ _
  | lockReserved hpc hfree =>
    refine hledger.put_holder hsound hrequest (hledger.alone (Or.inl hfree)) rfl ?_ le_rfl ?_
    · exact Nat.le_add_right _ _
    · intro other total hnext hread
      rw [← Request.upload.inj hnext] at hread
      cases hread
  | readTotal hpc haccess =>
    have hlock := hholder (by simp [Upload.Locks, hpc])
    obtain ⟨holdings, hready, hnext⟩ :=
      haccess.of_built (hbuilt (by simp [Request.Early, hpc]))
    rw [hnext]
    refine hledger.put_holder hsound hrequest (hledger.alone (Or.inr hlock)) hlock ?_ le_rfl ?_
    · rw [Cell.total_of_ready hready]
      exact Nat.le_add_right _ _
    · intro other total hnext hread
      rw [← Request.upload.inj hnext] at hread
      exact UploadPc.admitting.inj hread
  | full hpc =>
    have hlock := hholder (by simp [Upload.Locks, hpc])
    refine hledger.put_alone hsound hrequest (hledger.alone (Or.inr hlock)) ?_ le_rfl not_false
    have hafter : (Request.upload (upload.finish .groupFull)).unrecorded = 0 :=
      rfl
    unfold State.charged at hcharged
    dsimp only
    omega
  | admitted hpc hfits =>
    rename_i total
    have hlock := hholder (by simp [Upload.Locks, hpc])
    have hread := hledger.admitting id upload total hrequest hpc
    have hbefore : (Request.upload upload).unrecorded = 0 := by
      simp only [Request.unrecorded, Upload.unrecorded, hpc]
    have hafter : ∀ held : Bool, (Request.upload ({ upload with bytes := upload.need }.resume
          (if held then .lookup else .judge))).unrecorded ≤
        upload.need ∧
        (Request.upload ({ upload with bytes := upload.need }.resume
          (if held then .lookup else .judge))).bytes = upload.need ∧
        ¬ (Request.upload ({ upload with bytes := upload.need }.resume
          (if held then .lookup else .judge))).Locks := by
      intro held
      unfold Upload.resume
      split
      · exact ⟨Nat.zero_le _, rfl, not_false⟩
      · cases held with
        | true | false => exact ⟨le_refl _, rfl, not_false⟩
    obtain ⟨hunrecorded, hneed, hlocks⟩ := hafter upload.held
    refine hledger.put_alone hsound hrequest (hledger.alone (Or.inr hlock)) ?_ ?_ hlocks
    · unfold State.charged at hcharged hread
      dsimp only
      omega
    · dsimp only
      omega
  | record hpc haccess =>
    obtain ⟨holdings, hready, hnext⟩ :=
      haccess.of_built (hbuilt (by simp [Request.Early, hpc]))
    have hlabel : accessLabel state.shared id (fun _ =>
        Label.record id upload.signer upload.hash) = .record id upload.signer upload.hash := by
      simp [accessLabel, hready]
    have htask : (state.view config).tasks id = .owes upload.signer upload.hash := by
      rw [State.tasks_of_request hrequest]
      simp only [Request.task, Upload.task, hpc]
    rw [hlabel] at hguard
    rw [hnext]
    apply hledger.record hsound hrequest hpc hready
    rcases hbacked id _ _ htask with hcovered | hknown
    · left
      obtain ⟨other, hother, hbytes⟩ := hcovered
      rw [hrequest, Option.some.injEq, Request.upload.injEq] at hother
      rw [hother]
      exact hbytes
    · exact Or.inr (hknown hguard.1).1
  | release hpc hfree =>
    refine hledger.put_alone hsound hrequest (hledger.alone (Or.inl hfree)) ?_ ?_ not_false
    · unfold State.charged at hcharged
      exact le_trans hcharged (Nat.le_add_right _ _)
    · simp only [Upload.drop, Upload.goto, Request.bytes]
      omega
  | busy | acquire | giveUp | takeBack =>
    exact hledger.put_quiet hsound hrequest (Nat.le_add_right _ _) le_rfl rfl rfl not_false
  | judge hpc | lookupStored hpc | lookupOther hpc | prove hpc
  | claimOnTrial hpc | claim hpc | stream hpc | commit hpc =>
    refine hledger.put_quiet hsound hrequest ?_ le_rfl rfl rfl not_false
    simp only [Request.unrecorded, Upload.unrecorded, Upload.goto, Upload.claimed, hpc]
    exact le_rfl
  | reserve hpc =>
    unfold Upload.resume
    split
    · exact hledger.put_quiet hsound hrequest (Nat.le_add_right _ _) le_rfl rfl rfl not_false
    · refine hledger.put_quiet hsound hrequest ?_ le_rfl rfl rfl not_false
      simp only [Request.unrecorded, Upload.unrecorded, Upload.goto, hpc]
      exact le_rfl

theorem Ledger.withoutClient : Ledger config
      (state.put id (state.shared, .upload upload.withoutClient)) := by
  have hput := Ledger.charged_put hsound hrequest (state.shared, .upload upload.withoutClient)
  have hsame : (Request.upload upload.withoutClient).unrecorded =
      (Request.upload upload).unrecorded := rfl
  simp only [hsame] at hput
  constructor
  · have hcharged := hledger.charged
    omega
  · exact hledger.reserved_put hsound hrequest le_rfl
  · intro other found hfound hlocks
    rcases State.request_put hfound with ⟨hid, hnew⟩ | ⟨_, hold⟩
    · rw [hid]
      rw [hnew] at hlocks
      exact hledger.locks id _ hrequest hlocks
    · exact hledger.locks other found hold hlocks
  · intro other found total hfound hpc
    have hafter : (state.put id (state.shared, .upload upload.withoutClient)).shared.reserved =
          state.shared.reserved := rfl
    rcases State.request_put hfound with ⟨_, hnew⟩ | ⟨_, hold⟩
    · rw [Request.upload.inj hnew] at hpc
      have hbefore := hledger.admitting id upload total hrequest hpc
      omega
    · have hbefore := hledger.admitting other found total hold hpc
      omega

theorem Upload.HangUp.ledger {next : Shared Key Hash × Upload Key Hash}
    (hstep : Upload.HangUp state.shared upload next) :
    Ledger config (state.put id (next.1, .upload next.2)) := by
  cases hstep with
  | wait hpc => exact hledger.withoutClient hsound hrequest
  | leave hpc =>
    exact hledger.put_quiet hsound hrequest (Nat.le_add_right _ _) le_rfl rfl rfl not_false
  | drop hpc hfree =>
    have hdropped : (Request.upload (upload.withoutClient.drop state.shared).2).unrecorded = 0 := by
      rcases hpc with hpc | hpc | hpc | ⟨created, hpc⟩
      all_goals
        simp [Request.unrecorded, Upload.unrecorded, Upload.drop, Upload.withoutClient, hpc]
    refine hledger.put_alone hsound hrequest (hledger.alone (Or.inl hfree)) ?_ ?_ ?_
    · have hcharged := hledger.charged
      unfold State.charged at hcharged
      rw [hdropped]
      exact le_trans hcharged (Nat.le_add_right _ _)
    · simp only [Upload.drop, Upload.withoutClient, Request.bytes]
      omega
    · rcases hpc with hpc | hpc | hpc | ⟨created, hpc⟩
      all_goals
        simp [Request.Locks, Upload.Locks, Upload.drop, Upload.withoutClient, hpc]

end

/-- A mirror of a blob the group held finds it in the holdings still; one of a
new blob was weighed with all that is reserved. -/
theorem Ledger.verdict {created : Bool} (hrequest : state.requests id = some (.mirror mirror))
    (hready : state.shared.cell.ready id = some holdings)
    (hheld : mirror.held = true → mirror.hash ∈ state.shared.cell.known)
    (hweighed : (mirror.judged config id holdings).2 = false →
      mirror.held = false → state.shared.reservedBy = none ∧
        state.shared.reserved ≤ mirror.reserved) : Ledger config (state.put id
      ({ state.shared with cell := (mirror.judged config id holdings).1 }, .mirror (mirror.goto
          (if (mirror.judged config id holdings).2 then .overTakeBack
            else .answered (.mirrored created))))) := by
  obtain ⟨hashes, hlists⟩ := hsound.shared.lists.of_ready hready
  have htotal := Cell.total_of_ready hready
  have hcharged := hledger.charged
  have hsum : state.sum Request.unrecorded ≤ state.sum Request.bytes :=
    tableSum_le Request.unrecorded_le_bytes
  have hreserved := hledger.reserved
  unfold Mirror.judged at hweighed ⊢
  dsimp only at hweighed ⊢
  split
  next hfull =>
    refine hledger.put_quiet hsound hrequest ?_ le_rfl rfl rfl not_false
    apply Nat.add_le_add_right
    have hremove := ((hlists.insert mirror.hash).remove mirror.hash).total
    have hsub : (insert mirror.hash hashes).erase mirror.hash ⊆ hashes :=
      Finset.erase_insert_subset mirror.hash hashes
    have hle := Finset.sum_le_sum_of_subset (f := config.size) hsub
    have hold := hlists.total
    change ((holdings.insert mirror.hash (config.size mirror.hash)).remove
      mirror.hash).total ≤ state.shared.cell.total
    omega
  next hfits =>
    cases hcase : mirror.held with
    | true =>
      have hknown := hheld hcase
      rw [Cell.known_of_ready hready, Set.mem_ofPred_eq] at hknown
      have hinsert := hlists.total_insert_of_contains hknown
      refine hledger.put_quiet hsound hrequest ?_ le_rfl rfl rfl not_false
      apply Nat.add_le_add_right
      change (holdings.insert mirror.hash (config.size mirror.hash)).total ≤ state.shared.cell.total
      omega
    | false =>
      rw [if_neg hfits] at hweighed
      obtain ⟨hfree, hless⟩ := hweighed rfl hcase
      refine hledger.put_alone hsound hrequest
        (hledger.alone (Or.inl hfree)) ?_ le_rfl not_false
      have hroom : (holdings.insert mirror.hash (config.size mirror.hash)).total + mirror.reserved ≤
            config.ceiling := by
        by_contra hover
        exact hfits ⟨hcase, Nat.lt_of_not_le hover⟩
      change (holdings.insert mirror.hash (config.size mirror.hash)).total +
        state.sum Request.unrecorded + 0 ≤ config.ceiling + 0
      omega

theorem Mirror.Step.ledger {next : Shared Key Hash × Mirror Key Hash}
    (hbacked : Backed (state.covered config) (state.view config))
    (hrequest : state.requests id = some (.mirror mirror))
    (hguard : CoherentGuard (state.view config) label)
    (hweighed : mirror.held = false → label = .record id mirror.signer mirror.hash →
        state.shared.reservedBy = none ∧ state.shared.reserved ≤ mirror.reserved)
    (htotal : state.shared.cell.Unbuilt → next.1.cell.total ≤ config.ceiling)
    (hstep : Mirror.Step config state.shared id mirror label next) :
    Ledger config (state.put id (next.1, .mirror next.2)) := by
  cases hstep with
  | check hpc haccess =>
    have hproceed : ∀ (shared : Shared Key Hash) (result : Bool × ℕ),
        ((if mirror.gone then (shared, mirror.goto (.answered .hungUp))
        else if result.1 = false ∧ config.ceiling ≤ result.2 + mirror.reserved then
          (shared, mirror.goto (.answered .groupFull))
        else (shared, { mirror with held := result.1, pc := .forward }) :
          Shared Key Hash × Mirror Key Hash)).1 = shared := by
      intro shared result
      split
      · rfl
      · split <;> rfl
    by_cases hunbuilt : state.shared.cell.Unbuilt
    · refine hledger.put_unbuilt hsound hrequest hunbuilt (htotal hunbuilt) ?_
      refine ⟨?_, rfl, rfl, not_false⟩
      refine haccess.rule
        (P := fun next => next.1.reserved = state.shared.reserved) (fun _ => rfl) (fun _ => rfl) ?_
      intro cell result
      rw [hproceed]
    · obtain ⟨holdings, hready, hnext⟩ := haccess.of_built hunbuilt
      have hshared : next.1 = { state.shared with cell := .idle (some holdings) } := by
        rw [hnext, hproceed]
        rfl
      refine hledger.put_quiet hsound hrequest ?_ le_rfl ?_ ?_ not_false
      · rw [hshared, Cell.total_of_ready hready]
        exact le_rfl
      · rw [hshared]
      · rw [hshared]
  | verdict hpc haccess =>
    rename_i created
    have hbuilt : ¬ state.shared.cell.Unbuilt := by
      intro hunbuilt
      have hearly := hsound.early hunbuilt id _ hrequest
      simp [Request.Early, hpc] at hearly
    obtain ⟨holdings, hready, hnext⟩ := haccess.of_built hbuilt
    have hlabel : accessLabel state.shared id (fun holdings =>
        if (mirror.judged config id holdings).2 = true then
          Label.overrun mirror.hash
        else .record id mirror.signer mirror.hash) =
        if (mirror.judged config id holdings).2 = true then
          Label.overrun mirror.hash
        else .record id mirror.signer mirror.hash := by
      simp [accessLabel, hready]
    rw [hlabel] at hguard hweighed
    rw [hnext]
    apply hledger.verdict hsound hrequest hready
    · intro hheld
      have hfits : (mirror.judged config id holdings).2 = false := by
        simp [Mirror.judged, hheld]
      have htask : (state.view config).tasks id = .owes mirror.signer mirror.hash := by
        rw [State.tasks_of_request hrequest]
        simp [Request.task, Mirror.task, hpc, hheld]
      rw [hfits] at hguard
      rcases hbacked id _ _ htask with hcovered | hknown
      · obtain ⟨other, hother, _⟩ := hcovered
        rw [hrequest] at hother
        cases hother
      · exact (hknown hguard.1).1
    · intro hfits hheld
      apply hweighed hheld
      rw [hfits]
      rfl
  | overRemove hpc hcell =>
    refine hledger.put_quiet hsound hrequest ?_ le_rfl rfl rfl not_false
    rw [hcell]
    exact le_rfl
  | _ =>
    exact hledger.put_quiet hsound hrequest le_rfl le_rfl rfl rfl not_false

theorem Delete.Step.ledger {delete : Delete Key Hash} {next : Shared Key Hash × Delete Key Hash}
    (hrequest : state.requests id = some (.delete delete)) (htotal : state.shared.cell.Unbuilt →
      next.1.cell.total ≤ config.ceiling)
    (hstep : Delete.Step config state.shared id delete label next) :
    Ledger config (state.put id (next.1, .delete next.2)) := by
  cases hstep with
  | remove hpc haccess =>
    by_cases hunbuilt : state.shared.cell.Unbuilt
    · refine hledger.put_unbuilt hsound hrequest hunbuilt (htotal hunbuilt) ?_
      refine ⟨?_, rfl, rfl, not_false⟩
      exact haccess.rule
        (P := fun next => next.1.reserved = state.shared.reserved)
        (fun _ => rfl) (fun _ => rfl) (fun _ _ => rfl)
    · obtain ⟨holdings, hready, hnext⟩ := haccess.of_built hunbuilt
      obtain ⟨hashes, hlists⟩ := hsound.shared.lists.of_ready hready
      rw [hnext]
      refine hledger.put_quiet hsound hrequest ?_ le_rfl rfl rfl not_false
      apply Nat.add_le_add_right
      rw [Cell.total_of_ready hready, hlists.total]
      change (holdings.remove delete.hash).total ≤ _
      rw [(hlists.remove delete.hash).total]
      exact Finset.sum_le_sum_of_subset (Finset.erase_subset _ _)
  | _ =>
    exact hledger.put_quiet hsound hrequest le_rfl le_rfl rfl rfl not_false

end

/-! ## The budget of every reachable state -/

structure Budget (config : Config Key Hash) (held : Finset Hash)
    (state : State Key Hash) : Prop where
  agreeing : Agreeing config state
  backed : Backed (state.covered config) (state.view config)
  ledger : Ledger config state
  confined : state.shared.cell.Unbuilt → Confined config held state

omit [DecidableEq Key] in
theorem Ledger.start {order : Order Key Hash} (hledger : Ledger config state) : Ledger config
      { state with
        requests :=
          Function.update state.requests state.started (some order.request)
        started := state.started + 1 } := by
  have hnew : order.request.unrecorded = 0 ∧ order.request.bytes = 0 ∧ ¬ order.request.Locks := by
    cases order <;> exact ⟨rfl, rfl, not_false⟩
  have hcharged : ({ state with
          requests :=
            Function.update state.requests state.started (some order.request)
          started := state.started + 1 } : State Key Hash).charged =
        state.charged := by
    unfold State.charged
    rw [State.sum_start order hnew.1]
  constructor
  · rw [hcharged]
    exact hledger.charged
  · rw [State.sum_start order hnew.2.1]
    exact hledger.reserved
  · intro id request hrequest hlocks
    rcases entry_of_update hrequest with ⟨_, rfl⟩ | ⟨_, hold⟩
    · exact absurd hlocks hnew.2.2
    · exact hledger.locks id request hold hlocks
  · intro id upload total hrequest hpc
    rw [hcharged]
    rcases entry_of_update hrequest with ⟨_, hsame⟩ | ⟨_, hold⟩
    · have hlocks : order.request.Locks := by
        rw [← hsame]
        simp [Request.Locks, Upload.Locks, hpc]
      exact absurd hlocks hnew.2.2
    · exact hledger.admitting id upload total hold hpc

/-- An upload that owes its claim after a step has the bytes it had before. -/
theorem Upload.Step.bytes {next : Shared Key Hash × Upload Key Hash}
    (hstep : Upload.Step config shared id upload label next)
    (howes : next.2.task = .owes key hash) : next.2.bytes = upload.bytes := by
  revert howes
  cases hstep with
  | check hpc haccess | readTotal hpc haccess | record hpc haccess =>
    exact haccess.rule
      (P := fun next => next.2.task = .owes key hash → next.2.bytes = upload.bytes)
      (fun _ _ => rfl) (fun _ _ => rfl) (fun _ _ _ => rfl)
  | admitted hpc hfits =>
    intro howes
    unfold Upload.resume at howes
    split at howes
    · cases howes
    · by_cases hheld : upload.held = true
      · simp only [if_pos hheld] at howes
        exact absurd howes (Task.riskUnless_ne_owes _ _ _ _ _)
      · simp only [if_neg hheld] at howes
        exact absurd howes (Task.riskUnless_ne_owes _ _ _ _ _)
  | reserve hpc hproven =>
    intro _
    unfold Upload.resume
    split <;> rfl
  | release hpc hfree =>
    intro howes
    cases howes
  | _ =>
    intro _
    rfl

theorem State.covered_step (hsound : Sound config state)
    (hweighed : WeighedStep config state action) (hstep : config.step state action = some next)
    (howes : (next.view config).tasks id = .owes key hash)
    (hcovered : id ∈ state.covered config) : id ∈ next.covered config := by
  cases Config.step_cases hstep with
  | start hsigner =>
    obtain ⟨upload, hupload, hbytes⟩ := hcovered
    have hne : id ≠ state.started := by
      intro heq
      rw [heq, hsound.fresh _ le_rfl] at hupload
      cases hupload
    refine ⟨upload, ?_, hbytes⟩
    simp only [Function.update_of_ne hne]
    exact hupload
  | otherClaim | otherDrop => exact hcovered
  | mirror hrequest | delete hrequest | mirrorHangUp hrequest =>
    exact State.covered_put_other hrequest (by simp) hcovered
  | upload hrequest hwork =>
    rename_i mover ok work after
    apply State.covered_put hrequest _ hcovered
    intro heq hbytes
    rw [heq, State.tasks_of_request (Function.update_self mover _ state.requests)] at howes
    rw [hwork.bytes howes, hwork.kept.2.2.1]
    exact hbytes
  | uploadHangUp hrequest hwork =>
    apply State.covered_put hrequest _ hcovered
    intro heq hbytes
    cases hwork with
    | wait | leave => exact hbytes
    | drop hpc hfree =>
      rw [heq, State.tasks_of_request (Function.update_self _ _ state.requests)] at howes
      rcases hpc with hpc | hpc | hpc | ⟨created, hpc⟩
      · simp only [Request.task, Upload.task, Upload.drop, Upload.withoutClient, hpc] at howes
        exact absurd howes (Task.riskUnless_ne_owes _ _ _ _ _)
      · simp [Request.task, Upload.task, Upload.drop, Upload.withoutClient, hpc] at howes
      · simp [Request.task, Upload.task, Upload.drop, Upload.withoutClient, hpc] at howes
      · have hzero := hweighed _ created hrequest hpc
        rw [hzero] at hbytes
        exact hbytes

section

variable (hbudget : Budget config held state)
  (hheld : ∑ hash ∈ held, config.size hash ≤ config.ceiling)
  (hstep : config.step state action = some next)
include hbudget hheld hstep

theorem Budget.total_le (hunbuilt : state.shared.cell.Unbuilt) :
    next.shared.cell.total ≤ config.ceiling := by
  have hsound := hbudget.agreeing.sound
  have hconfined :=
    (hbudget.confined hunbuilt).step hsound hunbuilt hstep
  have htotal := (hsound.step hstep).shared.lists.total_le_held hconfined.known
  exact le_trans htotal hheld

theorem Budget.ledger_step (hguard : CeilingStep config state action) : Ledger config next := by
  have hledger := hbudget.ledger
  have hsound := hbudget.agreeing.sound
  have htotal := hbudget.total_le hheld hstep
  cases Config.step_cases hstep with
  | start hsigner => exact hledger.start
  | upload hrequest hwork =>
    exact hwork.ledger hledger hsound hrequest hbudget.backed hguard.coherent htotal
  | mirror hrequest hwork =>
    exact hwork.ledger hledger hsound hbudget.backed hrequest
      hguard.coherent (hguard.weighed _ hrequest) htotal
  | delete hrequest hwork => exact hwork.ledger hledger hsound hrequest htotal
  | uploadHangUp hrequest hwork => exact hwork.ledger hledger hsound hrequest
  | mirrorHangUp hrequest hpc =>
    exact hledger.put_quiet hsound hrequest le_rfl le_rfl rfl rfl not_false
  | otherClaim | otherDrop =>
    exact ⟨hledger.charged, hledger.reserved, hledger.locks, hledger.admitting⟩

theorem Budget.step (hguard : CeilingStep config state action) : Budget config held next := by
  have hsound := hbudget.agreeing.sound
  constructor
  · exact hbudget.agreeing.step hguard.coherent hstep
  · have hdevice : ∀ id key hash, (state.view config).tasks id = .owes key hash →
          key ∈ config.deviceSet := by
      intro id key hash howes
      cases hrequest : state.requests id with
      | none => simp [State.view, State.tasks, hrequest] at howes
      | some request =>
        rw [State.tasks_of_request hrequest] at howes
        exact request.device_of_owes (hsound.device id request hrequest) howes
    have hmoved := hbudget.backed.move hbudget.agreeing.coherent hdevice
      hguard.coherent hguard.backed (hsound.move hstep)
    intro id key hash howes
    rcases hmoved id key hash howes with hcovered | hrest
    · exact Or.inl (State.covered_step hsound hguard.weighed hstep howes hcovered)
    · exact Or.inr hrest
  · exact hbudget.ledger_step hheld hstep hguard
  · intro hunbuilt
    have hbefore := hsound.unbuilt_of_step hstep hunbuilt
    exact (hbudget.confined hbefore).step hsound hbefore hstep

end

end GroupGate
end Wildbloom
