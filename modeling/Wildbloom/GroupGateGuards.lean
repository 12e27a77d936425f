import Wildbloom.GroupGateMoves

/-!
# The conditions on the steps of the gate

The results about the gate hold in runs whose delicate steps meet the
conditions of `ClaimCache`.  Here the conditions are stated for the steps of
the gate, together with checks that evaluate them on a given run.
-/

namespace Wildbloom
namespace GroupGate

open ClaimCache Runs

variable {Key Hash : Type} [DecidableEq Key] [DecidableEq Hash]

variable (config : Config Key Hash) (state : State Key Hash) (action : Action Key Hash)

/-- No upload makes a claim to keep while another request of its signer may
still take back its claim on the blob, and a request of a device that claims
its blob finds it in the holdings. -/
def StandingStep : Prop :=
  StandingGuard (state.view config) (state.label config action)

/-- The steps on claims and on the holdings do not overlap in a way that
separates the two. -/
def CoherentStep : Prop :=
  CoherentGuard (state.view config) (state.label config action)

def State.AtRest : Prop :=
  ∀ id request, state.requests id = some request → request.answer ≠ none

/-! ## Checks -/

def Cell.knows : Cell Key Hash → Hash → Bool
  | .idle none, _ => false
  | .idle (some holdings), hash => holdings.contains hash
  | .rebuilding _ _ _ found, hash => found.contains hash
  | .judging _ hash holdings, other =>
    holdings.contains other && decide (other ≠ hash)

def State.others (id : ℕ) (test : Task Key Hash → Bool) : Bool :=
  (List.range state.started).all fun other =>
    decide (other = id) || test (state.tasks config other)

def standingCheck : Bool :=
  match state.label config action with
  | .check _ key hash looked =>
    !decide ((key, hash) ∈ state.shared.store.claims) || looked && state.shared.cell.knows hash
  | .claim id key hash _ true =>
    state.others config id fun task =>
      decide (task ≠ .risk key hash false) && decide (task ≠ .risk key hash true)
  | _ => true

variable {config state action} {id : ℕ} {test : Task Key Hash → Bool}
  {store : Store Key Hash} {permits : ℕ} {spent : List ℕ}
  {actions : List (Action Key Hash)}

omit [DecidableEq Key] in
theorem Cell.knows_iff (cell : Cell Key Hash) (hash : Hash) :
    cell.knows hash = true ↔ hash ∈ cell.known := by
  cases cell with
  | idle holdings =>
    cases holdings with
    | none => simp [Cell.knows, Cell.known]
    | some holdings => rfl
  | rebuilding owner todo cursor found => rfl
  | judging owner other holdings => simp [Cell.knows, Cell.known]

section

variable (hsound : Sound config state)
include hsound

theorem Sound.others (hothers : state.others config id test = true) (hnone : test .none = true)
    {other : ℕ} (hne : other ≠ id) : test ((state.view config).tasks other) = true := by
  by_cases hstarted : other < state.started
  · unfold State.others at hothers
    rw [List.all_eq_true] at hothers
    have hother := hothers other (List.mem_range.mpr hstarted)
    simp only [hne, decide_false, Bool.false_or] at hother
    exact hother
  · have hrequest := hsound.fresh other (Nat.le_of_not_lt hstarted)
    have htask : (state.view config).tasks other = .none := by
      simp [State.view, State.tasks, hrequest]
    rw [htask]
    exact hnone

/-- As above, where no request is exempt: the id after the last one is free. -/
theorem Sound.all (hothers : state.others config state.started test = true)
    (hnone : test .none = true) (other : ℕ) : test ((state.view config).tasks other) = true := by
  by_cases hne : other = state.started
  · have htask : (state.view config).tasks other = .none := by
      rw [hne]
      simp [State.view, State.tasks, hsound.fresh _ (le_refl _)]
    rw [htask]
    exact hnone
  · exact hsound.others hothers hnone hne

theorem Sound.standingStep (hcheck : standingCheck config state action = true) :
    StandingStep config state action := by
  unfold standingCheck at hcheck
  unfold StandingStep
  cases hlabel : state.label config action with
  | check other key hash looked =>
    simp only [hlabel] at hcheck
    intro hclaim
    have hmem : (key, hash) ∈ state.shared.store.claims := hclaim
    simp only [hmem, decide_true, Bool.not_true, Bool.false_or, Bool.and_eq_true] at hcheck
    exact ⟨hcheck.1, (Cell.knows_iff _ hash).mp hcheck.2⟩
  | claim owner key hash kept counted =>
    cases counted with
    | false => trivial
    | true =>
      simp only [hlabel] at hcheck
      intro other landed hne
      have hother := hsound.others hcheck (by simp) hne
      simp only [Bool.and_eq_true, decide_eq_true_eq] at hother
      cases landed with
      | false => exact hother.1
      | true => exact hother.2
  | _ => trivial

end

theorem exists_checked_run {guard : State Key Hash → Action Key Hash → Prop}
    {check : State Key Hash → Action Key Hash → Bool} {test : State Key Hash → Bool}
    (hcheck : ∀ state action, Sound config state → check state action = true → guard state action)
    (hrun : (checkedRun config.step check (State.initial store permits spent)
      actions).any test = true) :
    ∃ state, Reaches config.step guard (State.initial store permits spent) state ∧
      test state = true :=
  exists_reaches_of_checkedRun (Sound config) hcheck
    (fun _ _ _ hsound hstep => Sound.step hsound hstep)
    (sound_initial config store permits spent) hrun

/-! ## Runs on fixed devices -/

def twoDevices : Config ℕ ℕ where
  devices := [1, 2]
  ceiling := 100
  size := fun _ => 4

def advances (id count : ℕ) : List (Action ℕ ℕ) :=
  List.replicate count (.advance id true)

def State.uploadAnswered (state : State Key Hash) (id : ℕ) (answer : Answer) : Bool :=
  match state.requests id with
  | some (.upload work) => decide (work.pc = .answered answer)
  | _ => false

omit [DecidableEq Key] [DecidableEq Hash] in
theorem State.exists_of_uploadAnswered {answer : Answer}
    (hanswered : state.uploadAnswered id answer = true) :
    ∃ upload, state.requests id = some (.upload upload) ∧ upload.pc = .answered answer := by
  unfold State.uploadAnswered at hanswered
  split at hanswered
  next upload hrequest =>
    exact ⟨upload, hrequest, of_decide_eq_true hanswered⟩
  · cases hanswered

end GroupGate
end Wildbloom
