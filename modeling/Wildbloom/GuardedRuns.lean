import Mathlib

/-!
# Runs of a partial step function

A concurrent component is given by one executable step function.  An action
names which party moves and how the outside world answers it; a refused
action gives `none`.  A run is any finite sequence of accepted actions, so a
statement about every run covers every interleaving of the parties' steps.

A guard restricts the steps a run may take by looking at the state before the
step.  The unguarded runs are those of `everyStep`.
-/

namespace Wildbloom
namespace Runs

variable {State Action : Type*} (step : State → Action → Option State)

def everyStep (_ : State) (_ : Action) : Prop := True

/-- The states reached from `start` by accepted steps that all meet `guard`. -/
inductive Reaches (guard : State → Action → Prop) (start : State) : State → Prop
  | refl : Reaches guard start start
  | step {before after : State} {action : Action} (hreach : Reaches guard start before)
      (hguard : guard before action) (hstep : step before action = some after) :
      Reaches guard start after

def runActions : State → List Action → Option State
  | state, [] => some state
  | state, action :: rest => (step state action).bind (runActions · rest)

variable {step} {guard : State → Action → Prop} {start : State}

/-- What holds at the start and is kept by every guarded step holds in every
state reached. -/
theorem Reaches.invariant {Inv : State → Prop} {state : State}
    (hreach : Reaches step guard start state) (hstart : Inv start)
    (hkeep : ∀ before after action, Inv before → guard before action →
      step before action = some after → Inv after) : Inv state := by
  induction hreach with
  | refl => exact hstart
  | step _ hguard hstep ih => exact hkeep _ _ _ ih hguard hstep

theorem Reaches.mono {weaker : State → Action → Prop} {state : State}
    (hreach : Reaches step guard start state)
    (hguards : ∀ state action, guard state action → weaker state action) :
    Reaches step weaker start state := by
  induction hreach with
  | refl => exact .refl
  | step _ hguard hstep ih => exact .step ih (hguards _ _ hguard) hstep

variable {actions : List Action}

theorem reaches_runActions {before after : State} (hreach : Reaches step everyStep start before)
    (hrun : runActions step before actions = some after) : Reaches step everyStep start after := by
  induction actions generalizing before with
  | nil =>
    simp only [runActions, Option.some.injEq] at hrun
    exact hrun ▸ hreach
  | cons action rest ih =>
    obtain ⟨next, hstep, hrest⟩ := Option.bind_eq_some_iff.mp hrun
    exact ih (.step hreach trivial hstep) hrest

variable {test : State → Bool}

/-- A listed run whose last state passes a test reaches such a state. -/
theorem exists_reaches_of_runActions (hrun : (runActions step start actions).any test = true) :
    ∃ state, Reaches step everyStep start state ∧ test state = true := by
  cases hend : runActions step start actions with
  | none => simp [hend] at hrun
  | some state =>
    refine ⟨state, reaches_runActions .refl hend, ?_⟩
    simpa [hend] using hrun

def checkedRun (step : State → Action → Option State) (check : State → Action → Bool) :
    State → List Action → Option State
  | state, [] => some state
  | state, action :: rest =>
    if check state action then
      (step state action).bind (checkedRun step check · rest)
    else none

variable {check : State → Action → Bool}

theorem reaches_checkedRun (Inv : State → Prop)
    (hcheck : ∀ state action, Inv state → check state action = true → guard state action)
    (hkeep : ∀ before after action, Inv before → step before action = some after → Inv after)
    {before after : State} (hinv : Inv before) (hreach : Reaches step guard start before)
    (hrun : checkedRun step check before actions = some after) :
    Reaches step guard start after := by
  induction actions generalizing before with
  | nil =>
    simp only [checkedRun, Option.some.injEq] at hrun
    exact hrun ▸ hreach
  | cons action rest ih =>
    simp only [checkedRun, Option.ite_none_right_eq_some, Option.bind_eq_some_iff] at hrun
    obtain ⟨hgood, next, hstep, hrest⟩ := hrun
    exact ih (hkeep _ _ _ hinv hstep) (.step hreach (hcheck _ _ hinv hgood) hstep) hrest

/-- A listed run whose steps pass a check that implies the guard reaches a
state that passes the test at its end. -/
theorem exists_reaches_of_checkedRun (Inv : State → Prop)
    (hcheck : ∀ state action, Inv state → check state action = true → guard state action)
    (hkeep : ∀ before after action, Inv before → step before action = some after → Inv after)
    (hstart : Inv start) (hrun : (checkedRun step check start actions).any test = true) :
    ∃ state, Reaches step guard start state ∧ test state = true := by
  cases hend : checkedRun step check start actions with
  | none => simp [hend] at hrun
  | some state =>
    refine ⟨state, reaches_checkedRun Inv hcheck hkeep hstart .refl hend, ?_⟩
    simpa [hend] using hrun

theorem exists_reaches_of_check
    (hcheck : ∀ {state action}, check state action = true → guard state action)
    (hrun : (checkedRun step check start actions).any test = true) :
    ∃ state, Reaches step guard start state ∧ test state = true :=
  exists_reaches_of_checkedRun (fun _ => True) (fun _ _ _ hgood => hcheck hgood)
    (fun _ _ _ _ _ => trivial) trivial hrun

end Runs
end Wildbloom
