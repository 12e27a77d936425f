import Wildbloom.GroupGateGuards

/-!
# Acknowledged uploads of a group

An upload that is answered with success made a claim to keep, and that claim
stands until a DELETE of its key, or a purge of the group.

The condition is needed.  Two uploads of one device for one blob that neither
the group nor the node has can both get past their checks.  One of them stores
the blob and is answered; the other then finds the blob stored, cannot tell
that its own device has proven it, and takes the claim of both back.
-/

namespace Wildbloom
namespace GroupGate

open ClaimCache Runs

variable {Key Hash : Type} [DecidableEq Key] [DecidableEq Hash] {upload : Upload Key Hash}

/-! ## Who made a claim to keep -/

/-- An upload past its claim, if it is going to be answered with success, has
counted the deletions of its claim. -/
def Upload.Claimed (upload : Upload Key Hash) : Prop :=
  match upload.pc with
  | .record _ => upload.claimedAt ≠ none
  | .release (.stored _) => upload.claimedAt ≠ none
  | .answered (.stored _) => upload.claimedAt ≠ none
  | _ => True

omit [DecidableEq Key] [DecidableEq Hash] in
theorem Upload.claimed_finish (upload : Upload Key Hash) {answer : Answer}
    (hanswer : ∀ created, answer ≠ .stored created) : (upload.finish answer).Claimed := by
  unfold Upload.finish Upload.Claimed Upload.goto
  cases upload.gone with
  | true => trivial
  | false =>
    cases answer with
    | stored created => exact absurd rfl (hanswer created)
    | _ => trivial

omit [DecidableEq Key] [DecidableEq Hash] in
theorem Upload.claimed_finish_of_some (hclaimed : upload.claimedAt ≠ none) (answer : Answer) :
    (upload.finish answer).Claimed := by
  unfold Upload.finish Upload.Claimed Upload.goto
  cases upload.gone with
  | true => trivial
  | false =>
    cases answer with
    | stored created => exact hclaimed
    | _ => trivial

variable {config : Config Key Hash} {shared : Shared Key Hash} {id : ℕ} {state : State Key Hash}
  {action : Action Key Hash}

theorem Upload.Step.claimed {label : Label Key Hash ℕ} {next : Shared Key Hash × Upload Key Hash}
    (hclaimed : upload.Claimed) (hstep : Upload.Step config shared id upload label next) :
    next.2.Claimed := by
  have hunavailable : (upload.finish .unavailable).Claimed :=
    upload.claimed_finish (by simp)
  cases hstep with
  | check hpc haccess | readTotal hpc haccess =>
    exact haccess.rule (P := fun next => next.2.Claimed)
      (fun _ => hclaimed) (fun _ => hunavailable) (fun _ _ => trivial)
  | record hpc haccess =>
    have hsome : upload.claimedAt ≠ none := by
      simp only [Upload.Claimed, hpc] at hclaimed
      exact hclaimed
    exact haccess.rule (P := fun next => next.2.Claimed)
      (fun _ => hclaimed) (fun _ => hunavailable) (fun _ _ => Upload.claimed_finish_of_some hsome _)
  | full => exact upload.claimed_finish (by simp)
  | giveUp answer hpc hanswer => exact upload.claimed_finish hanswer
  | admitted =>
    unfold Upload.resume
    split
    · exact Upload.claimed_finish _ (by simp)
    · cases upload.held <;> trivial
  | reserve =>
    unfold Upload.resume
    split
    · exact Upload.claimed_finish _ (by simp)
    · trivial
  | claim | commit => exact Option.some_ne_none _
  | takeBack => exact hunavailable
  | release hpc hfree =>
    rename_i answer
    simp only [Upload.Claimed, hpc] at hclaimed
    cases answer with
    | stored created => exact hclaimed
    | _ => trivial
  | _ => trivial

omit [DecidableEq Key] [DecidableEq Hash] in
theorem Upload.HangUp.claimed {next : Shared Key Hash × Upload Key Hash} (hclaimed : upload.Claimed)
    (hstep : Upload.HangUp shared upload next) : next.2.Claimed := by
  cases hstep with
  | wait | drop => exact hclaimed
  | leave hpc => exact Upload.claimed_finish _ (by simp)

/-- What a new upload satisfies and every step of an upload keeps holds of
all uploads. -/
def State.EachUpload (state : State Key Hash) (P : Upload Key Hash → Prop) : Prop :=
  ∀ id upload, state.requests id = some (.upload upload) → P upload

theorem State.EachUpload.step {P : Upload Key Hash → Prop} {next : State Key Hash}
    (heach : state.EachUpload P)
    (hnew : ∀ signer hash length, P { signer := signer, hash := hash, length := length })
    (hkeep : ∀ shared id upload label next, P upload →
      Upload.Step config shared id upload label next → P next.2)
    (hhangUp : ∀ shared upload next, P upload → Upload.HangUp shared upload next → P next.2)
    (hstep : config.step state action = some next) : next.EachUpload P := by
  have hput : ∀ id result, (∀ upload, result.2 = .upload upload → P upload) →
      (state.put id result).EachUpload P := by
    intro id result hresult other upload hupload
    rcases entry_of_update hupload with ⟨_, hsame⟩ | ⟨_, hold⟩
    · exact hresult upload hsame.symm
    · exact heach other upload hold
  cases Config.step_cases hstep with
  | start hsigner =>
    rename_i order
    intro other upload hupload
    rcases entry_of_update hupload with ⟨_, hsame⟩ | ⟨_, hold⟩
    · cases order with
      | upload signer hash length =>
        cases hsame
        exact hnew signer hash length
      | mirror | delete => cases hsame
    · exact heach other upload hold
  | upload hrequest hwork =>
    apply hput
    intro upload hupload
    rw [← Request.upload.inj hupload]
    exact hkeep _ _ _ _ _ (heach _ _ hrequest) hwork
  | uploadHangUp hrequest hwork =>
    apply hput
    intro upload hupload
    rw [← Request.upload.inj hupload]
    exact hhangUp _ _ _ (heach _ _ hrequest) hwork
  | otherClaim | otherDrop => exact heach
  | _ =>
    apply hput
    intro upload hupload
    cases hupload

/-! ## Claims stand -/

structure Acknowledged (config : Config Key Hash) (state : State Key Hash) : Prop where
  sound : Sound config state
  standing : Standing config.deviceSet (state.view config)
  claimed : state.EachUpload Upload.Claimed

theorem acknowledged_initial (config : Config Key Hash)
    (store : Store Key Hash) (permits : ℕ) (spent : List ℕ) :
    Acknowledged config (State.initial store permits spent) := by
  refine ⟨sound_initial config store permits spent, ⟨?_, ?_, ?_⟩, ?_⟩
  · exact fun _ _ _ hkept => by cases hkept
  · exact fun _ _ _ hkept => by cases hkept
  · exact fun _ _ _ _ _ htask => by cases htask
  · exact fun _ _ hupload => by cases hupload

theorem Acknowledged.step {next : State Key Hash} (hgood : Acknowledged config state)
    (hguard : StandingStep config state action) (hstep : config.step state action = some next) :
    Acknowledged config next where
  sound := hgood.sound.step hstep
  standing := hgood.standing.move hguard (hgood.sound.move hstep)
  claimed := hgood.claimed.step (fun _ _ _ => trivial)
    (fun _ _ _ _ _ hclaimed hcases => hcases.claimed hclaimed)
    (fun _ _ _ hclaimed hcases => hcases.claimed hclaimed) hstep

/-- In every run that meets the standing condition, the claim of an upload
that was answered with success is in the store, unless a DELETE has deleted it
since the upload made it. -/
theorem acknowledged_upload_claim_stands
    (config : Config Key Hash) (store : Store Key Hash) (permits : ℕ)
    (spent : List ℕ) (state : State Key Hash)
    (hreach : Reaches config.step (StandingStep config) (State.initial store permits spent) state)
    (id : ℕ) (upload : Upload Key Hash) (created : Bool)
    (hrequest : state.requests id = some (.upload upload))
    (hanswer : upload.pc = .answered (.stored created)) :
    (upload.signer, upload.hash) ∈ state.shared.store.claims ∨
      ∃ count, upload.claimedAt = some count ∧
        count < state.shared.deletions upload.signer upload.hash := by
  have hgood : Acknowledged config state :=
    hreach.invariant (acknowledged_initial config store permits spent)
      (fun _ _ _ hgood hguard hstep => hgood.step hguard hstep)
  have hclaimed := hgood.claimed id upload hrequest
  simp only [Upload.Claimed, hanswer] at hclaimed
  obtain ⟨count, hcount⟩ := Option.ne_none_iff_exists'.mp hclaimed
  have hkept : (Request.upload upload).kept = some (upload.signer, upload.hash, count) := by
    simp [Request.kept, hcount]
  have hle := hgood.sound.counted id _ hrequest _ _ _ hkept
  rcases Nat.lt_or_eq_of_le hle with hlt | heq
  · exact Or.inr ⟨count, hcount, hlt⟩
  · left
    apply hgood.standing.held id upload.signer upload.hash
    simp only [State.view, State.standing, Set.mem_ofPred_eq, hrequest,
      Option.bind_some, hkept, heq]

/-- Uploads of one blob by two devices overlap; the second takes its own claim
back.  One more by the first device starts before its first upload is
answered. -/
def overlappingUploads : List (Action ℕ ℕ) :=
  [.start (.upload 1 7 4), .start (.upload 2 7 4)] ++ advances 0 12 ++ advances 1 7 ++
    advances 0 2 ++ [.start (.upload 1 7 4)] ++ advances 2 5 ++ advances 1 3 ++ advances 0 1 ++
    advances 2 4

theorem acknowledged_upload_claim_stands_beside_others :
    ∃ (state : State ℕ ℕ) (first third : Upload ℕ ℕ),
      Reaches twoDevices.step (StandingStep twoDevices) (State.initial ⟨[], []⟩ 8 []) state ∧
      state.uploadAnswered 1 .unavailable = true ∧
      (state.requests 0 = some (.upload first) ∧ first.pc = .answered (.stored true) ∧
        ((first.signer, first.hash) ∈ state.shared.store.claims ∨
          ∃ count, first.claimedAt = some count ∧
            count < state.shared.deletions first.signer first.hash)) ∧
      state.requests 2 = some (.upload third) ∧ third.pc = .answered (.stored false) ∧
        ((third.signer, third.hash) ∈ state.shared.store.claims ∨
          ∃ count, third.claimedAt = some count ∧
            count < state.shared.deletions third.signer third.hash) := by
  have hrun : (checkedRun twoDevices.step (standingCheck twoDevices) (State.initial ⟨[], []⟩ 8 [])
      overlappingUploads).any (fun state => state.uploadAnswered 0 (.stored true) &&
        state.uploadAnswered 1 .unavailable && state.uploadAnswered 2 (.stored false)) = true := by
    decide
  obtain ⟨state, hreach, htest⟩ := exists_checked_run (fun _ _ hsound => hsound.standingStep) hrun
  simp only [Bool.and_eq_true] at htest
  obtain ⟨⟨hzero, hone⟩, htwo⟩ := htest
  obtain ⟨first, hfirst, hstored⟩ := State.exists_of_uploadAnswered hzero
  obtain ⟨third, hthird, hkept⟩ := State.exists_of_uploadAnswered htwo
  have hstands := acknowledged_upload_claim_stands twoDevices ⟨[], []⟩ 8 [] state hreach
  exact ⟨state, first, third, hreach, hone,
    ⟨hfirst, hstored, hstands 0 first true hfirst hstored⟩,
    hthird, hkept, hstands 2 third false hthird hkept⟩

def oneDevice : Config ℕ ℕ where
  devices := [1]
  ceiling := 100
  size := fun _ => 4

/-- Two uploads of one device for one new blob look it up before either stores
it.  The second takes back the claim of the first, which was answered, and no
DELETE has run. -/
theorem acknowledged_upload_claim_lost : ∃ state, Reaches oneDevice.step everyStep
        (State.initial ⟨[], []⟩ 8 []) state ∧
      state.uploadAnswered 0 (.stored true) = true ∧
      state.uploadAnswered 1 .unavailable = true ∧
      state.shared.deletions 1 7 = 0 ∧ state.shared.store.claims = [] := by
  have hrun : (runActions oneDevice.step (State.initial ⟨[], []⟩ 8 [])
      (.start (.upload 1 7 4) :: .start (.upload 1 7 4) ::
        (advances 0 9 ++ advances 1 7 ++ advances 0 5 ++ advances 1 3))).any
      (fun state => state.uploadAnswered 0 (.stored true) && state.uploadAnswered 1 .unavailable &&
        decide (state.shared.deletions 1 7 = 0) &&
        decide (state.shared.store.claims = [])) = true := by
    decide
  obtain ⟨state, hreach, htest⟩ := exists_reaches_of_runActions hrun
  simp only [Bool.and_eq_true, decide_eq_true_eq] at htest
  obtain ⟨⟨⟨hfirst, hsecond⟩, hdeletions⟩, hclaims⟩ := htest
  exact ⟨state, hreach, hfirst, hsecond, hdeletions, hclaims⟩

end GroupGate
end Wildbloom
