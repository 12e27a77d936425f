import Wildbloom.GroupGrantSteps

/-!
# What holds of the tables in every run

`TableRule.reaches`: a property of tables that time, pruning and admitted events
keep holds of the snapshot and of the database in every state reached by a run in
which the reload after a commit does not fail.

`AcceptRule.reaches`: a property that an event's acceptance gives to the tables,
and that is kept from then on, holds in every state in which a post of the event
has been accepted, whether or not reloads failed.
-/

namespace Wildbloom
namespace GroupGrants

open Runs

variable {Key : Type} [DecidableEq Key] {allowed : GroupEvent Key → Prop}
  {P : ℕ → GroupRows Key → Prop} {Q : GroupEvent Key → ℕ → GroupRows Key → Prop}
  {state stepped : State Key} {action : Action Key} {rows : GroupRows Key} {id : ℕ}
  {work : Post Key} {plan : Plan Key} {settings : Settings Key} {devices : Devices Key}
  {events : List (GroupEvent ℕ)}

structure OnTables (P : ℕ → GroupRows Key → Prop) (shared : Shared Key) : Prop where
  snapshot : P shared.clock shared.snapshot
  db : P shared.clock shared.db

theorem OnTables.step (htables : OnTables P state.shared)
    (htick : ∀ {now later rows}, P now rows → now ≤ later → P later rows)
    (hforget : ∀ {now part full}, P now full → Kept now part full → P now part)
    (hcommit : ∀ id work plan, state.requests id = some (.post work) → work.pc = .commit plan →
      P state.shared.clock (state.shared.db.write plan))
    (hstep : GroupGrants.step state action = some stepped) : OnTables P stepped.shared := by
  generalize hnext : stepped.shared = next
  have hmove : TableMove state action next := hnext ▸ tableMove_of_step hstep
  cases hmove with
  | tick seconds =>
    exact ⟨htick htables.snapshot (Nat.le_add_right _ _), htick htables.db (Nat.le_add_right _ _)⟩
  | prune => exact ⟨htables.snapshot, hforget htables.db (Kept.refl _ _).prune⟩
  | restart | reload => exact ⟨htables.db, htables.db⟩
  | commit id devices outcome work plan hrequest hpc =>
    exact ⟨htables.snapshot, hcommit id work plan hrequest hpc⟩
  | keep action next hclock _ hdb hsnapshot =>
    constructor
    · rw [hclock, hsnapshot]
      exact htables.snapshot
    · rw [hclock, hdb]
      exact htables.db

namespace TableRule

section

variable (hrule : TableRule allowed P)
include hrule

/-- A commit writes what was planned on the snapshot to the database, which may
have lost entries since. -/
theorem commit (horderly : Orderly allowed state) (htables : OnTables P state.shared)
    (hrequest : state.requests id = some (.post work)) (hpc : work.pc = .commit plan) :
    P state.shared.clock (state.shared.db.write plan) := by
  have hinOrder := horderly.posts id _ hrequest work rfl
  obtain ⟨hlock, authority, earlier, hle, hdecides⟩ :=
    hinOrder.writing plan (by rw [hpc]; rfl)
  have hadmitted := hinOrder.screened (by rw [hpc]; rfl)
  exact hrule.forget (hrule.write htables.snapshot hadmitted hle hdecides)
    ((horderly.synced (horderly.settled_of_commit hrequest hpc)).write hdecides)

theorem reaches (hempty : ∀ now, P now {}) {clock : ℕ}
    (hreach : Reaches GroupGrants.step
      (fun state action => Allowing allowed state action ∧ Loads state action)
      (State.initial clock settings devices) state) : OnTables P state.shared := by
  have hboth : Orderly allowed state ∧ OnTables P state.shared := by
    apply hreach.invariant
    · exact ⟨Orderly.initial clock settings devices, hempty _, hempty _⟩
    · rintro before after action ⟨horderly, htables⟩ ⟨hallowed, hloads⟩ hstep
      exact ⟨horderly.step hallowed hloads hstep, htables.step hrule.tick hrule.forget
        (fun _ _ _ => hrule.commit horderly htables) hstep⟩
  exact hboth.2

end

end TableRule

theorem PairRule.step (hrule : PairRule allowed P) (hordered : Ordered allowed state)
    (htables : OnTables P state.shared) (hstep : GroupGrants.step state action = some stepped) :
    OnTables P stepped.shared := by
  refine htables.step hrule.tick hrule.forget (fun id work plan hrequest hpc => ?_) hstep
  have hinOrder := hordered.posts id _ hrequest work rfl
  obtain ⟨-, authority, earlier, -, hdecides⟩ := hinOrder.writing plan (by rw [hpc]; rfl)
  exact hrule.write htables.snapshot htables.db (hinOrder.screened (by rw [hpc]; rfl)) hdecides

/-! ## Accepted events -/

def HasAccepted (state : State Key) (event : GroupEvent Key) : Prop :=
  ∃ id accepted, state.requests id = some (.post ⟨event, .answered (.ok accepted)⟩)

def Request.accepts (event : GroupEvent Key) : Request Key → Bool
  | .post ⟨found, .answered (.ok _)⟩ => decide (found = event)
  | _ => false

theorem hasAccepted_of_accepts {event : GroupEvent Key}
    (haccepts : (state.requests id).any (Request.accepts event) = true) :
    HasAccepted state event := by
  cases hrequest : state.requests id with
  | none => simp [hrequest] at haccepts
  | some request =>
    rw [hrequest, Option.any_some] at haccepts
    unfold Request.accepts at haccepts
    split at haccepts
    · exact ⟨id, _, by rw [hrequest, ← of_decide_eq_true haccepts]⟩
    · cases haccepts

/-- What the acceptance of an event gives and every later step keeps.  What time
alone does not give, a table has from its rows. -/
structure AcceptRule (allowed : GroupEvent Key → Prop) (P : ℕ → GroupRows Key → Prop)
    (Q : GroupEvent Key → ℕ → GroupRows Key → Prop) : Prop where
  table : PairRule allowed P
  keeps : ∀ event, allowed event → PairRule allowed fun now rows => P now rows ∧ Q event now rows
  lapse : ∀ {event later rows} now, Q event later rows →
    Q event now rows ∨ ∀ other, Q event later other
  hold : ∀ {now rows event}, P now rows → allowed event → rows.Holds event → Q event now rows
  accept : ∀ {earlier now event plan} {seen rows : GroupRows Key} {enrolled authority : Key → Bool},
    Decides enrolled authority seen event earlier plan → plan.writesNothing = false →
      Q event now (rows.write plan)

/-- A post that is due to reload has given the database what its acceptance gives. -/
structure Post.Given (Q : GroupEvent Key → ℕ → GroupRows Key → Prop) (shared : Shared Key)
    (post : Post Key) : Prop where
  reloading : ∀ plan, post.pc = .reload plan → Q post.event shared.clock shared.db
  accepted : ∀ accepted, post.pc = .answered (.ok accepted) → OnTables (Q post.event) shared

/-- What is given to the snapshot is given to the database, even where the reload
after a commit failed. -/
structure Given (allowed : GroupEvent Key → Prop) (P : ℕ → GroupRows Key → Prop)
    (Q : GroupEvent Key → ℕ → GroupRows Key → Prop) (state : State Key) : Prop where
  tables : OnTables P state.shared
  ahead : ∀ event, allowed event → Q event state.shared.clock state.shared.snapshot →
    Q event state.shared.clock state.shared.db
  posts : ∀ id request, state.requests id = some request → ∀ post,
    request = .post post → post.Given Q state.shared

theorem holds_of_writesNothing {enrolled authority : Key → Bool} {now : ℕ} {event : GroupEvent Key}
    (hdecides : Decides enrolled authority rows event now plan)
    (hnothing : plan.writesNothing = true) : rows.Holds event := by
  cases hdecides with
  | held _ hholds => exact hholds
  | reset | grant => cases hnothing

namespace AcceptRule

section

variable (hrule : AcceptRule allowed P Q)
  (hordered : Ordered allowed state)
  (hgiven : Given allowed P Q state)
include hrule hordered hgiven

theorem committed (hrequest : state.requests id = some (.post work))
    (hpc : work.pc = .commit plan) :
    Q work.event state.shared.clock (state.shared.db.write plan) := by
  have hinOrder := hordered.posts id _ hrequest work rfl
  obtain ⟨-, authority, earlier, -, hdecides⟩ := hinOrder.writing plan (by rw [hpc]; rfl)
  cases hnothing : plan.writesNothing with
  | false => exact hrule.accept hdecides hnothing
  | true =>
    have hholds := holds_of_writesNothing hdecides hnothing
    have hsnapshot := hrule.hold hgiven.tables.snapshot hinOrder.posted hholds
    have hdb := hgiven.ahead work.event hinOrder.posted hsnapshot
    cases hdecides with
    | held => exact hdb
    | reset | grant => cases hnothing

theorem own {after : Post Key} {next : Shared Key}
    (hrequest : state.requests id = some (.post work))
    (hmove : Post.Move state.shared devices id work next after) : after.Given Q next := by
  have hinOrder := hordered.posts id _ hrequest work rfl
  cases hmove with
  | commit plan hcommit =>
    have hdb := hrule.committed hordered hgiven hrequest hcommit
    exact ⟨fun _ _ => hdb, by simp [Post.goto]⟩
  | reload plan hreload =>
    have hdb := (hgiven.posts id _ hrequest work rfl).reloading plan hreload
    exact ⟨by simp [Post.goto], fun _ _ => ⟨hdb, hdb⟩⟩
  | held plan hplanning hunlocked hplan hnothing =>
    have hholds := holds_of_writesNothing (decides_of_evaluate hplan) hnothing
    have hsnapshot := hrule.hold hgiven.tables.snapshot hinOrder.posted hholds
    exact ⟨by simp [Post.goto], fun _ _ =>
      ⟨hsnapshot, hgiven.ahead work.event hinOrder.posted hsnapshot⟩⟩
  | _ => exact ⟨by simp [Post.goto], by simp [Post.goto]⟩

theorem accepted_step {event : GroupEvent Key} (hallowed : allowed event)
    (hq : OnTables (Q event) state.shared) (hstep : GroupGrants.step state action = some stepped) :
    OnTables (Q event) stepped.shared := by
  have hboth := (hrule.keeps event hallowed).step hordered
    ⟨⟨hgiven.tables.snapshot, hq.snapshot⟩, ⟨hgiven.tables.db, hq.db⟩⟩ hstep
  exact ⟨hboth.snapshot.2, hboth.db.2⟩

theorem ahead_step (hstep : GroupGrants.step state action = some stepped)
    {event : GroupEvent Key} (hallowed : allowed event)
    (hq : Q event stepped.shared.clock stepped.shared.snapshot) :
    Q event stepped.shared.clock stepped.shared.db := by
  -- Given to the snapshot before, it is given to both tables, and they keep it.
  have hstays : Q event state.shared.clock state.shared.snapshot →
      Q event stepped.shared.clock stepped.shared.db := fun hsnapshot =>
    (hrule.accepted_step hordered hgiven hallowed
      ⟨hsnapshot, hgiven.ahead event hallowed hsnapshot⟩ hstep).db
  generalize hnext : stepped.shared = next at hq hstays ⊢
  have hmove : TableMove state action next := hnext ▸ tableMove_of_step hstep
  cases hmove with
  | tick seconds =>
    exact (hrule.lapse state.shared.clock hq).elim hstays fun hlapsed => hlapsed _
  | restart | reload => exact hq
  | prune | commit => exact hstays hq
  | keep action next hclock _ hdb hsnapshot =>
    rw [hclock, hsnapshot] at hq
    exact hstays hq

theorem posts_step (hstep : GroupGrants.step state action = some stepped) {request : Request Key}
    (hrequest : state.requests id = some request) (post : Post Key) (hpost : request = .post post) :
    post.Given Q stepped.shared := by
  have hposted := (hordered.posts id request hrequest post hpost).posted
  have hold := hgiven.posts id request hrequest post hpost
  refine ⟨fun plan hpc => ?_, fun accepted hpc =>
    hrule.accepted_step hordered hgiven hposted (hold.accepted accepted hpc) hstep⟩
  have hdb := hold.reloading plan hpc
  have hkeeps := hrule.keeps post.event hposted
  generalize hnext : stepped.shared = next
  have hmove : TableMove state action next := hnext ▸ tableMove_of_step hstep
  cases hmove with
  | tick seconds => exact (hkeeps.tick ⟨hgiven.tables.db, hdb⟩ (Nat.le_add_right _ _)).2
  | prune => exact (hkeeps.forget ⟨hgiven.tables.db, hdb⟩ (Kept.refl _ _).prune).2
  | restart | reload => exact hdb
  | commit other devices outcome work pending hother hcommit =>
    exact absurd hpc (hordered.settled_of_commit hother hcommit id request hrequest post hpost plan)
  | keep action next hclock _ hsame _ =>
    rw [hclock, hsame]
    exact hdb

theorem step (hstep : GroupGrants.step state action = some stepped) :
    Given allowed P Q stepped := by
  refine ⟨hrule.table.step hordered hgiven.tables hstep,
    fun event => hrule.ahead_step hordered hgiven hstep, ?_⟩
  have hstays : ∀ id request, state.requests id = some request → ∀ post, request = .post post →
      post.Given Q stepped.shared :=
    fun _ _ hrequest => hrule.posts_step hordered hgiven hstep hrequest
  cases action with
  | tick | prune =>
    cases hstep
    exact hstays
  | post event =>
    cases hstep
    refine Pool.forall_start ?_ hstays
    rintro _ ⟨⟩
    exact ⟨by simp, by simp⟩
  | pushPolicy =>
    cases hstep
    exact Pool.forall_start (by simp) hstays
  | restart settings devices =>
    have hstopped := hstays
    simp only [GroupGrants.step] at hstep
    split_ifs at hstep
    cases hstep
    intro id request hrequest post hpost
    obtain ⟨before, hbefore, rfl⟩ := Option.map_eq_some_iff.mp hrequest
    obtain ⟨old, hold, hevent, answer, hanswer, hsame⟩ := Request.stop_post hpost
    refine ⟨by simp [hanswer], fun accepted hpc => ?_⟩
    rw [hanswer, PostPc.answered.injEq] at hpc
    rw [hevent]
    exact (hstopped id before hbefore old hold).accepted accepted (hsame accepted hpc)
  | advance id devices outcome =>
    rcases step_advance hstep with
      ⟨work, next, after, hrequest, hmove, rfl⟩ |
      ⟨pc, next, later, hrequest, hpolicy, rfl⟩
    · refine Pool.forall_put ?_ fun other request _ => hstays other request
      rintro _ ⟨⟩
      exact hrule.own hordered hgiven hrequest hmove
    · exact Pool.forall_put (by simp) fun other request _ => hstays other request

end

/-- Once an event is accepted, the tables have what it gave in every later
state. -/
theorem reaches (hrule : AcceptRule allowed P Q) (hempty : ∀ now, P now {}) {clock : ℕ}
    (hreach : Reaches GroupGrants.step (Allowing allowed)
      (State.initial clock settings devices) state) {event : GroupEvent Key}
    (haccepted : HasAccepted state event) {later : State Key}
    (hlater : Reaches GroupGrants.step (Allowing allowed) state later) :
    allowed event ∧ OnTables P later.shared ∧ OnTables (Q event) later.shared := by
  have hall : Ordered allowed state ∧ Given allowed P Q state := by
    apply hreach.invariant
    · exact ⟨Ordered.initial clock settings devices, ⟨hempty _, hempty _⟩, fun _ _ hq => hq,
        fun _ _ hrequest => (by cases hrequest)⟩
    · rintro before after action ⟨hordered, hgiven⟩ hallowed hstep
      exact ⟨hordered.step hallowed hstep, hrule.step hordered hgiven hstep⟩
  obtain ⟨hordered, hgiven⟩ := hall
  obtain ⟨id, accepted, hpost⟩ := haccepted
  have hposted : allowed event := (hordered.posts id _ hpost _ rfl).posted
  have hgave := (hgiven.posts id _ hpost _ rfl).accepted accepted rfl
  have hend : (Ordered allowed later ∧ Given allowed P Q later) ∧
      OnTables (Q event) later.shared := by
    apply hlater.invariant
    · exact ⟨⟨hordered, hgiven⟩, hgave⟩
    · rintro before after action ⟨⟨hordered, hgiven⟩, hq⟩ hallowed hstep
      exact ⟨⟨hordered.step hallowed hstep, hrule.step hordered hgiven hstep⟩,
        hrule.accepted_step hordered hgiven hposted hq hstep⟩
  exact ⟨hposted, hend.1.2.tables, hend.2⟩

end AcceptRule

def Action.isCutOff : Action Key → Bool
  | .advance _ _ .gone => true
  | _ => false

omit [DecidableEq Key] in
theorem loads_of_check (hcheck : action.isCutOff = false) : Loads state action := by
  rintro id devices work plan rfl
  cases hcheck

/-! ## A small node -/

def smallNode : Settings ℕ where
  enrolments := (∅ : AList fun _ : ℕ => List ℕ).insert 1 []
  hosts := [9]

def noDevices : Devices ℕ where
  authority := fun _ => false
  friends := []
  named := by simp

def smallTerms : Terms ℕ where
  grantId := 5
  room := 2
  device := 3
  server := 9
  scopes := [.get]
  bytes := none
  revoked := false

def postThrough (event : GroupEvent ℕ) (id : ℕ) : List (Action ℕ) :=
  [.post event, .advance id noDevices .ok, .advance id noDevices .ok,
    .advance id noDevices .ok, .advance id noDevices .ok]

def allowingOf (events : List (GroupEvent ℕ)) (_ : State ℕ) : Action ℕ → Bool
  | .post event => decide (event ∈ events)
  | _ => true

theorem allowing_of_check {state : State ℕ} {action : Action ℕ}
    (hcheck : allowingOf events state action = true) : Allowing (· ∈ events) state action := by
  rintro event rfl
  simpa [allowingOf] using hcheck

theorem exists_reaches_smallNode {actions : List (Action ℕ)} {test : State ℕ → Bool}
    (hrun : (checkedRun GroupGrants.step (allowingOf events)
      (State.initial 100 smallNode noDevices) actions).any test = true) :
    ∃ state, Reaches GroupGrants.step (Allowing (· ∈ events))
      (State.initial 100 smallNode noDevices) state ∧ test state = true :=
  exists_reaches_of_check allowing_of_check hrun

end GroupGrants
end Wildbloom
