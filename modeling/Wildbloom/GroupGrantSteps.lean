import Wildbloom.GroupGrantModel
import Wildbloom.GroupGrantTables
import Wildbloom.GuardedRuns

/-!
# What the steps of a post can do

`Post.Move` lists every step of a post.  The invariant `Ordered` says what a
post that is past its screen knows: its event was admitted, and a post that
writes holds the `updates` lock and a plan made on the snapshot as it still is.
In runs in which the reload after a commit does not fail, `Orderly` says besides
that the database has what the snapshot has, up to what was pruned.
-/

namespace Wildbloom
namespace GroupGrants

open Runs KeyedTables

variable {Key : Type} [DecidableEq Key] {shared next : Shared Key} {devices : Devices Key} {id : ℕ}
  {post after : Post Key} {outcome : Outcome} {other : ℕ} {request : Request Key}

/-! ## The moves of a post -/

namespace PostPc

def isScreened : PostPc Key → Bool
  | .screen | .answered _ => false
  | _ => true

def writing : PostPc Key → Option (Plan Key)
  | .commit pending | .reload pending => some pending
  | _ => none

def isPlanning : PostPc Key → Bool
  | .plan | .project | .replan _ => true
  | _ => false

end PostPc

namespace Post

variable (shared devices id post)

inductive Move : Shared Key → Post Key → Prop
  | refuse (refusal : Refusal) (hpc : ∀ plan, post.pc ≠ .reload plan)
      (hopen : ∀ answer, post.pc ≠ .answered answer) :
      Move (shared.release id) (post.goto (.answered (.error refusal)))
  | screen (hpc : post.pc = .screen)
      (hscreen : screenGroupEvent (shared.settings.enrolments.lookup ·)
        shared.settings.hosts shared.clock post.event = none) : Move shared (post.goto .plan)
  | held (plan : Plan Key) (hpc : post.pc.isPlanning = true)
      (hunlocked : shared.updates = none) (hplan : post.evaluate shared devices = .ok plan)
      (hnothing : plan.writesNothing = true) :
      Move (shared.release id) (post.goto (.answered (.ok plan.accepted)))
  | wait (plan : Plan Key) (hpc : post.pc = .plan)
      (hunlocked : shared.updates = none) (hplan : post.evaluate shared devices = .ok plan)
      (hchanges : shared.changesFriends plan = true) : Move shared (post.goto .waitPush)
  | lock (plan : Plan Key)
      (hpc : post.pc = .plan ∧ shared.changesFriends plan = false ∨
        ∃ pushed, post.pc = .replan pushed)
      (hunlocked : shared.updates = none) (hplan : post.evaluate shared devices = .ok plan)
      (hwrites : plan.writesNothing = false) :
      Move { shared with updates := some id } (post.goto (.commit plan))
  | commit (plan : Plan Key) (hpc : post.pc = .commit plan) :
      Move { shared with db := shared.db.write plan } (post.goto (.reload plan))
  | reload (plan : Plan Key) (hpc : post.pc = .reload plan) :
      Move (Shared.release { shared with snapshot := shared.db } id)
        (post.goto (.answered (.ok plan.accepted)))
  | unloaded (plan : Plan Key) (hpc : post.pc = .reload plan) :
      Move (shared.release id) (post.goto (.answered (.error .unavailable)))
  | takePush (hpc : post.pc = .waitPush) (hfree : shared.policyPush = none) :
      Move { shared with policyPush := some id } (post.goto .project)
  | project (plan : Plan Key) (hpc : post.pc = .project)
      (hunlocked : shared.updates = none) (hplan : post.evaluate shared devices = .ok plan)
      (hwrites : plan.writesNothing = false) :
      Move shared
        (post.goto (.push (plan.key.map fun change =>
          devices.friends ++ shared.snapshot.projectedFriendGrants change)))
  | skip (hpc : post.pc = .push none) : Move shared (post.goto (.replan none))
  | pushed (grants : List (FriendGrant Key))
      (hpc : post.pc = .push (some grants)) :
      Move { shared with core := grants } (post.goto (.replan (some grants)))

variable {shared devices id post}

/-- What planning can come to: an answer, or what `proceed` does. -/
theorem planned_cases {proceed : Plan Key → Shared Key × Post Key} (hpc : post.pc.isPlanning = true)
    (hplanned : post.planned shared devices id proceed = some (next, after)) :
    Move shared devices id post next after ∨ shared.updates = none ∧ ∃ plan,
        post.evaluate shared devices = .ok plan ∧
          plan.writesNothing = false ∧ proceed plan = (next, after) := by
  unfold planned at hplanned
  split_ifs at hplanned with hlocked
  rw [ne_eq, not_not] at hlocked
  rw [Option.some.injEq] at hplanned
  cases hplan : post.evaluate shared devices with
  | error refusal =>
    simp only [hplan, answer, Prod.mk.injEq] at hplanned
    obtain ⟨rfl, rfl⟩ := hplanned
    refine .inl (.refuse refusal ?_ ?_) <;>
      rintro _ hother <;> simp [hother, PostPc.isPlanning] at hpc
  | ok plan =>
    simp only [hplan] at hplanned
    split_ifs at hplanned with hnothing
    · simp only [answer, Prod.mk.injEq] at hplanned
      obtain ⟨rfl, rfl⟩ := hplanned
      exact .inl (.held plan hpc hlocked hplan hnothing)
    · exact .inr ⟨hlocked, plan, rfl, by simpa using hnothing, hplanned⟩

theorem move_refuse {refusal : Refusal}
    (hanswer : post.answer shared id (.error refusal) = (next, after))
    (hpc : ∀ plan, post.pc ≠ .reload plan) (hopen : ∀ answer, post.pc ≠ .answered answer) :
    Move shared devices id post next after := by
  simp only [answer, Prod.mk.injEq] at hanswer
  obtain ⟨rfl, rfl⟩ := hanswer
  exact .refuse refusal hpc hopen

theorem move_plan (hpc : post.pc = .plan) (hplanned : post.planned shared devices id (fun plan =>
      if plan.grant.any (·.active) ∧ outcome = .limited then
        post.answer shared id (.error .rate)
      else if shared.changesFriends plan then (shared, post.goto .waitPush)
      else post.lockCommit shared id plan) = some (next, after)) :
    Move shared devices id post next after := by
  have hplanning : post.pc.isPlanning = true := by rw [hpc]; rfl
  rcases planned_cases hplanning hplanned with
    hmove | ⟨hunlocked, plan, hplan, hwrites, hproceed⟩
  · exact hmove
  · split_ifs at hproceed with hlimited hchanges
    · exact move_refuse hproceed (by simp [hpc]) (by simp [hpc])
    · cases hproceed
      exact .wait plan hpc hunlocked hplan hchanges
    · cases hproceed
      exact .lock plan (.inl ⟨hpc, by simpa using hchanges⟩) hunlocked hplan
        hwrites

theorem move_screen (hpc : post.pc = .screen)
    (hstep : (match screenGroupEvent (shared.settings.enrolments.lookup ·)
        shared.settings.hosts shared.clock post.event with
      | some refusal =>
        some (post.answer shared id (.error (if outcome = .limited then .rate else refusal)))
      | none => some (shared, post.goto .plan)) = some (next, after)) :
    Move shared devices id post next after := by
  cases hscreen : screenGroupEvent (shared.settings.enrolments.lookup ·)
      shared.settings.hosts shared.clock post.event with
  | some refusal =>
    simp only [hscreen, Option.some.injEq] at hstep
    exact move_refuse hstep (by simp [hpc]) (by simp [hpc])
  | none =>
    simp only [hscreen, Option.some.injEq, Prod.mk.injEq] at hstep
    obtain ⟨rfl, rfl⟩ := hstep
    exact .screen hpc hscreen

theorem move_push {grants : Option (List (FriendGrant Key))}
    (hpc : post.pc = .push grants) (hgone : outcome ≠ .gone)
    (hstep : post.step shared devices id outcome = some (next, after)) :
    Move shared devices id post next after := by
  unfold step at hstep
  cases grants with
  | none =>
    simp only [hpc, Option.some.injEq, Prod.mk.injEq] at hstep
    obtain ⟨rfl, rfl⟩ := hstep
    exact .skip hpc
  | some grants =>
    cases outcome with
    | gone => exact absurd rfl hgone
    | ok =>
      simp only [hpc, Option.some.injEq, Prod.mk.injEq] at hstep
      obtain ⟨rfl, rfl⟩ := hstep
      exact .pushed grants hpc
    | refused | limited =>
      simp only [hpc, Option.some.injEq] at hstep
      exact move_refuse hstep (by simp [hpc]) (by simp [hpc])

theorem move_of_step (hstep : post.step shared devices id outcome = some (next, after)) :
    Move shared devices id post next after := by
  by_cases hreload : ∃ plan, post.pc = .reload plan
  · obtain ⟨plan, hpc⟩ := hreload
    cases outcome with
    | gone =>
      simp only [step, hpc, answer, Option.some.injEq, Prod.mk.injEq] at hstep
      obtain ⟨rfl, rfl⟩ := hstep
      exact .unloaded plan hpc
    | _ =>
      simp only [step, hpc, answer, Option.some.injEq, Prod.mk.injEq] at hstep
      obtain ⟨rfl, rfl⟩ := hstep
      exact .reload plan hpc
  by_cases hanswered : ∃ answer, post.pc = .answered answer
  · obtain ⟨answer, hpc⟩ := hanswered
    simp [step, hpc] at hstep
  have hreload : ∀ plan, post.pc ≠ .reload plan := by simpa using hreload
  have hopen : ∀ answer, post.pc ≠ .answered answer := by simpa using hanswered
  by_cases hgone : outcome = .gone
  · have hanswer : post.answer shared id (.error .unavailable) = (next, after) := by
      unfold step at hstep
      cases hpc : post.pc <;> simp_all
    exact move_refuse hanswer hreload hopen
  cases hpc : post.pc with
  | answered answer => exact absurd hpc (hopen answer)
  | reload plan => exact absurd hpc (hreload plan)
  | push grants => exact move_push hpc hgone hstep
  | screen =>
    simp only [step, hpc] at hstep
    exact move_screen hpc hstep
  | plan =>
    simp only [step, hpc] at hstep
    exact move_plan hpc hstep
  | commit plan =>
    simp only [step, hpc, Option.some.injEq, Prod.mk.injEq] at hstep
    obtain ⟨rfl, rfl⟩ := hstep
    exact .commit plan hpc
  | waitPush =>
    simp only [step, hpc] at hstep
    split_ifs at hstep with hfree
    cases hstep
    exact .takePush hpc (not_not.mp hfree)
  | project =>
    simp only [step, hpc] at hstep
    rcases planned_cases (by rw [hpc]; rfl) hstep with
      hmove | ⟨hunlocked, plan, hplan, hwrites, hproceed⟩
    · exact hmove
    · cases hproceed
      exact .project plan hpc hunlocked hplan hwrites
  | replan pushed =>
    simp only [step, hpc] at hstep
    rcases planned_cases (by rw [hpc]; rfl) hstep with
      hmove | ⟨hunlocked, plan, hplan, hwrites, hproceed⟩
    · exact hmove
    · cases hproceed
      exact .lock plan (.inr ⟨pushed, hpc⟩) hunlocked hplan hwrites

end Post

/-! ## Posts in order -/

def Allowing (allowed : GroupEvent Key → Prop) (_ : State Key) (action : Action Key) : Prop :=
  ∀ event, action = .post event → allowed event

structure InOrder (allowed : GroupEvent Key → Prop) (shared : Shared Key)
    (id : ℕ) (post : Post Key) : Prop where
  posted : allowed post.event
  screened : post.pc.isScreened = true → Admitted allowed shared.settings.enrolled post.event
  writing : ∀ plan, post.pc.writing = some plan → shared.updates = some id ∧
      ∃ authority earlier, earlier ≤ shared.clock ∧
        Decides shared.settings.enrolled authority shared.snapshot post.event earlier plan

def Settled (state : State Key) : Prop :=
  ∀ id request, state.requests id = some request → ∀ post,
    request = .post post → ∀ plan, post.pc ≠ .reload plan

/-- The reload after a commit does not fail. -/
def Loads (state : State Key) (action : Action Key) : Prop :=
  ∀ id devices work plan, action = .advance id devices .gone →
    state.requests id = some (.post work) → work.pc ≠ .reload plan

structure Ordered (allowed : GroupEvent Key → Prop) (state : State Key) : Prop where
  fresh : state.Fresh
  posts : ∀ id request, state.requests id = some request → ∀ post,
    request = .post post → InOrder allowed state.shared id post

structure Orderly (allowed : GroupEvent Key → Prop) (state : State Key) : Prop
    extends Ordered allowed state where
  synced : Settled state → Kept state.shared.clock state.shared.db state.shared.snapshot
  reloading : ∀ id request, state.requests id = some request → ∀ post,
    request = .post post → ∀ plan, post.pc = .reload plan →
      Kept state.shared.clock state.shared.db (state.shared.snapshot.write plan)

theorem enrolled_of_screen {event : GroupEvent Key}
    (hscreen : screenGroupEvent (shared.settings.enrolments.lookup ·)
      shared.settings.hosts shared.clock event = none) :
    event.parse = none ∧ shared.settings.enrolled event.keeper = true := by
  unfold screenGroupEvent at hscreen
  cases hparse : event.parse with
  | some refusal => simp [hparse] at hscreen
  | none =>
    refine ⟨rfl, ?_⟩
    simp only [hparse, Option.orElse_none] at hscreen
    split_ifs at hscreen with hkeeper
    rw [Settings.enrolled]
    cases hrooms : shared.settings.enrolments.lookup event.keeper with
    | none => simp [hrooms] at hkeeper
    | some rooms => rfl

omit [DecidableEq Key] in
theorem Shared.updates_release_of_ne (hne : other ≠ id) (hupdates : shared.updates = some other) :
    (shared.release id).updates = some other := by
  have hkeep : some other ≠ some id := by simpa using hne
  simp only [release, hupdates, if_neg hkeep]

namespace Post.Move

section

variable (hmove : Move shared devices id post next after)
include hmove

theorem event_eq : after.event = post.event := by
  cases hmove <;> rfl

theorem clock_eq : next.clock = shared.clock := by
  cases hmove <;> rfl

theorem settings_eq : next.settings = shared.settings := by
  cases hmove <;> rfl

theorem others_locked (hne : other ≠ id) (hupdates : shared.updates = some other)
    (hwriting : ∀ plan, post.pc.writing = some plan → shared.updates = some id) :
    next.updates = some other ∧ next.snapshot = shared.snapshot ∧ next.db = shared.db := by
  have hnot : ∀ plan, post.pc.writing ≠ some plan := by
    intro plan hplan
    have hboth := hwriting plan hplan
    rw [hupdates, Option.some.injEq] at hboth
    exact hne hboth
  cases hmove with
  | refuse | held | unloaded =>
    exact ⟨Shared.updates_release_of_ne hne hupdates, rfl, rfl⟩
  | lock plan hpc hunlocked => simp [hupdates] at hunlocked
  | commit plan hpc | reload plan hpc =>
    exact absurd (by rw [hpc]; rfl) (hnot plan)
  | _ =>
    exact ⟨hupdates, rfl, rfl⟩

theorem tables : (∃ plan, post.pc = .commit plan ∧ after.pc = .reload plan ∧
        next.db = shared.db.write plan ∧ next.snapshot = shared.snapshot) ∨
      (∃ plan, post.pc = .reload plan ∧ after.pc = .answered (.ok plan.accepted) ∧
        next.db = shared.db ∧ next.snapshot = shared.db) ∨
      (∀ plan, post.pc = .reload plan → after.pc = .answered (.error .unavailable)) ∧
        (∀ plan, after.pc ≠ .reload plan) ∧
        next.db = shared.db ∧ next.snapshot = shared.snapshot := by
  cases hmove with
  | commit plan hpc => exact .inl ⟨plan, hpc, rfl, rfl, rfl⟩
  | reload plan hpc => exact .inr (.inl ⟨plan, hpc, rfl, rfl, rfl⟩)
  | unloaded plan hpc => exact .inr (.inr ⟨fun _ _ => rfl, by simp [Post.goto], rfl, rfl⟩)
  | refuse refusal hpc =>
    exact .inr (.inr ⟨fun plan hplan => absurd hplan (hpc plan), by simp [Post.goto], rfl, rfl⟩)
  | held plan hpc | lock plan hpc =>
    refine .inr (.inr ⟨?_, by simp [Post.goto], rfl, rfl⟩)
    rintro other hother
    simp [hother, PostPc.isPlanning] at hpc
  | screen hpc | wait plan hpc | takePush hpc | project plan hpc | skip hpc
  | pushed grants hpc =>
    exact .inr (.inr ⟨by simp [hpc], by simp [Post.goto], rfl, rfl⟩)

end

end Post.Move

namespace Post.Move

theorem decides (hmove : Move shared devices id post next after)
    {plan : Plan Key} (hwriting : after.pc.writing = some plan) :
    post.pc.writing = some plan ∧ next.updates = shared.updates ∧ next.snapshot = shared.snapshot ∨
      next.updates = some id ∧ next.snapshot = shared.snapshot ∧
        Decides shared.settings.enrolled devices.authority shared.snapshot
          post.event shared.clock plan := by
  cases hmove with
  | commit pending hpc =>
    cases hwriting
    exact .inl ⟨by rw [hpc]; rfl, rfl, rfl⟩
  | lock pending _ _ hplan =>
    cases hwriting
    exact .inr ⟨rfl, rfl, decides_of_evaluate hplan⟩
  | _ => cases hwriting

theorem screened (hmove : Move shared devices id post next after)
    (hscreened : after.pc.isScreened = true) :
    post.pc.isScreened = true ∨ post.event.parse = none ∧
      shared.settings.enrolled post.event.keeper = true := by
  cases hmove with
  | refuse | held | reload | unloaded => cases hscreened
  | screen _ hscreen => exact .inr (enrolled_of_screen hscreen)
  | lock _ hpc =>
    rcases hpc with ⟨hpc, _⟩ | ⟨_, hpc⟩ <;> exact .inl (by rw [hpc]; rfl)
  | wait _ hpc | commit _ hpc | takePush hpc | project _ hpc | skip hpc
  | pushed _ hpc => exact .inl (by rw [hpc]; rfl)

end Post.Move

/-! ## The other steps -/

omit [DecidableEq Key] in
theorem policyStep_tables {pc later : PolicyPc Key}
    (hstep : policyStep shared devices id outcome pc = some (next, later)) :
    next.clock = shared.clock ∧ next.settings = shared.settings ∧
      next.db = shared.db ∧ next.snapshot = shared.snapshot ∧
      ∀ other, other ≠ id → shared.updates = some other → next.updates = some other := by
  cases pc with
  | done => cases hstep
  | wait =>
    simp only [policyStep] at hstep
    split_ifs at hstep
    cases hstep
    exact ⟨rfl, rfl, rfl, rfl, fun _ _ hlock => hlock⟩
  | pushing grants =>
    simp only [policyStep] at hstep
    split_ifs at hstep <;> cases hstep <;>
      exact ⟨rfl, rfl, rfl, rfl, fun _ hne hlock => Shared.updates_release_of_ne hne hlock⟩

omit [DecidableEq Key] in
/-- A stopped post has its answer, and an accepted one had it before. -/
theorem Request.stop_post {stopped : Post Key} (hstop : request.stop = .post stopped) :
    ∃ post, request = .post post ∧ stopped.event = post.event ∧
      ∃ answer, stopped.pc = .answered answer ∧ ∀ accepted, answer = .ok accepted →
          post.pc = .answered (.ok accepted) := by
  cases request with
  | policy pc => cases hstop
  | post post =>
    obtain ⟨event, pc⟩ := post
    cases pc with
    | answered answer =>
      cases hstop
      exact ⟨_, rfl, rfl, answer, rfl, fun _ heq => congrArg _ heq⟩
    | _ =>
      cases hstop
      exact ⟨_, rfl, rfl, _, rfl, fun _ heq => by cases heq⟩

theorem step_advance {state stepped : State Key}
    (hstep : step state (.advance id devices outcome) = some stepped) :
    (∃ work next after, state.requests id = some (.post work) ∧
        Post.Move state.shared devices id work next after ∧
        stepped = state.put id (next, .post after)) ∨
      ∃ pc next later, state.requests id = some (.policy pc) ∧
        policyStep state.shared devices id outcome pc = some (next, later) ∧
        stepped = state.put id (next, .policy later) := by
  simp only [step, Option.bind_eq_some_iff, Option.map_eq_some_iff] at hstep
  obtain ⟨request, hrequest, result, hresult, rfl⟩ := hstep
  cases request with
  | post work =>
    obtain ⟨⟨next, after⟩, hmove, rfl⟩ := Option.map_eq_some_iff.mp hresult
    exact .inl ⟨work, next, after, hrequest, Post.move_of_step hmove, rfl⟩
  | policy pc =>
    obtain ⟨⟨next, later⟩, hpolicy, rfl⟩ := Option.map_eq_some_iff.mp hresult
    exact .inr ⟨pc, next, later, hrequest, hpolicy, rfl⟩

inductive TableMove (state : State Key) : Action Key → Shared Key → Prop
  | tick (seconds : ℕ) :
      TableMove state (.tick seconds) { state.shared with clock := state.shared.clock + seconds }
  | prune :
      TableMove state .prune { state.shared with db := state.shared.db.prune state.shared.clock }
  | restart (settings : Settings Key) (devices : Devices Key) :
      TableMove state (.restart settings devices) (state.shared.restart settings devices)
  | commit (id : ℕ) (devices : Devices Key) (outcome : Outcome)
      (work : Post Key) (plan : Plan Key) (hrequest : state.requests id = some (.post work))
      (hpc : work.pc = .commit plan) :
      TableMove state (.advance id devices outcome)
        { state.shared with db := state.shared.db.write plan }
  | reload (id : ℕ) (devices : Devices Key) (outcome : Outcome)
      (work : Post Key) (plan : Plan Key) (hrequest : state.requests id = some (.post work))
      (hpc : work.pc = .reload plan) :
      TableMove state (.advance id devices outcome)
        (Shared.release { state.shared with snapshot := state.shared.db } id)
  | keep (action : Action Key) (next : Shared Key)
      (hclock : next.clock = state.shared.clock) (hsettings : next.settings = state.shared.settings)
      (hdb : next.db = state.shared.db) (hsnapshot : next.snapshot = state.shared.snapshot) :
      TableMove state action next

theorem tableMove_of_move {state : State Key} {work : Post Key}
    (hrequest : state.requests id = some (.post work))
    (hmove : Post.Move state.shared devices id work next after) :
    TableMove state (.advance id devices outcome) next := by
  cases hmove with
  | commit plan hpc => exact .commit id devices outcome work plan hrequest hpc
  | reload plan hpc => exact .reload id devices outcome work plan hrequest hpc
  | _ => exact .keep _ _ rfl rfl rfl rfl

theorem tableMove_of_step {state stepped : State Key} {action : Action Key}
    (hstep : step state action = some stepped) : TableMove state action stepped.shared := by
  cases action with
  | tick seconds =>
    cases hstep
    exact .tick seconds
  | post event | pushPolicy =>
    cases hstep
    exact .keep _ _ rfl rfl rfl rfl
  | prune =>
    cases hstep
    exact .prune
  | restart settings devices =>
    simp only [step] at hstep
    split_ifs at hstep
    cases hstep
    exact .restart settings devices
  | advance id devices outcome =>
    rcases step_advance hstep with
      ⟨work, next, after, hrequest, hmove, rfl⟩ |
      ⟨pc, next, later, hrequest, hpolicy, rfl⟩
    · exact tableMove_of_move hrequest hmove
    · obtain ⟨hclock, hsettings, hdb, hsnapshot, _⟩ :=
        policyStep_tables hpolicy
      exact .keep _ _ hclock hsettings hdb hsnapshot

namespace InOrder

variable {allowed : GroupEvent Key → Prop}

section

variable (hinOrder : InOrder allowed shared id post)
include hinOrder

theorem later (hclock : shared.clock ≤ next.clock) (hsettings : next.settings = shared.settings)
    (hwriting : ∀ plan, post.pc.writing = some plan →
      next.updates = shared.updates ∧ next.snapshot = shared.snapshot) :
    InOrder allowed next id post := by
  refine ⟨hinOrder.posted, ?_, fun plan hplan => ?_⟩
  · rw [hsettings]
    exact hinOrder.screened
  · obtain ⟨hlock, authority, earlier, hle, hdecides⟩ :=
      hinOrder.writing plan hplan
    obtain ⟨hupdates, hsnapshot⟩ := hwriting plan hplan
    rw [hupdates, hsettings, hsnapshot]
    exact ⟨hlock, authority, earlier, hle.trans hclock, hdecides⟩

theorem locked (plan : Plan Key) (hplan : post.pc.writing = some plan) : shared.updates = some id :=
  (hinOrder.writing plan hplan).1

theorem move (hmove : Post.Move shared devices id post next after) :
    InOrder allowed next id after := by
  refine ⟨?_, fun hscreened => ?_, fun plan hplan => ?_⟩
  · rw [hmove.event_eq]
    exact hinOrder.posted
  · rw [hmove.settings_eq, hmove.event_eq]
    rcases hmove.screened hscreened with hbefore | ⟨hparse, henrolled⟩
    · exact hinOrder.screened hbefore
    · exact ⟨hinOrder.posted, hparse, henrolled⟩
  · rw [hmove.settings_eq, hmove.event_eq, hmove.clock_eq]
    rcases hmove.decides hplan with
      ⟨hbefore, hupdates, hsnapshot⟩ | ⟨hupdates, hsnapshot, hdecides⟩
    · rw [hupdates, hsnapshot]
      exact hinOrder.writing plan hbefore
    · rw [hsnapshot]
      exact ⟨hupdates, _, _, le_refl _, hdecides⟩

end

theorem others {found : Post Key} (hfound : InOrder allowed shared other found)
    (hinOrder : InOrder allowed shared id post) (hne : other ≠ id)
    (hmove : Post.Move shared devices id post next after) : InOrder allowed next other found := by
  refine hfound.later hmove.clock_eq.ge hmove.settings_eq ?_
  intro plan hplan
  have hlock := hfound.locked plan hplan
  obtain ⟨hupdates, hsnapshot, _⟩ :=
    hmove.others_locked hne hlock hinOrder.locked
  exact ⟨hupdates.trans hlock.symm, hsnapshot⟩

end InOrder

namespace Ordered

variable {allowed : GroupEvent Key → Prop} {state stepped : State Key} {action : Action Key}
  {work : Post Key}

theorem initial (clock : ℕ) (settings : Settings Key) (devices : Devices Key) :
    Ordered allowed (State.initial clock settings devices) :=
  ⟨fun _ _ => rfl, fun _ _ hrequest => (by cases hrequest)⟩

section

variable (hordered : Ordered allowed state)
include hordered

theorem settled (hholder : ∀ id post, state.shared.updates = some id →
      state.requests id = some (.post post) → ∀ plan, post.pc ≠ .reload plan) : Settled state := by
  rintro id _ hrequest post rfl plan hpc
  have hlock := (hordered.posts id _ hrequest post rfl).locked plan (by rw [hpc]; rfl)
  exact hholder id post hlock hrequest plan hpc

theorem settled_of_unlocked (hunlocked : state.shared.updates = none) : Settled state := by
  apply hordered.settled
  intro id post hlock
  rw [hunlocked] at hlock
  cases hlock

theorem settled_of_commit {plan : Plan Key} (hrequest : state.requests id = some (.post work))
    (hpc : work.pc = .commit plan) : Settled state := by
  have hlock := (hordered.posts id _ hrequest work rfl).locked plan (by rw [hpc]; rfl)
  apply hordered.settled
  intro other post hother hpost reloaded hreload
  rw [hlock, Option.some.injEq] at hother
  subst hother
  rw [hrequest, Option.some.injEq, Request.post.injEq] at hpost
  subst hpost
  rw [hpc] at hreload
  cases hreload

theorem start (hnew : ∀ post, request = .post post → post.pc = .screen ∧ allowed post.event) :
    Ordered allowed (state.start request) := by
  refine ⟨hordered.fresh.start request, Pool.forall_start (fun post hpost => ?_) hordered.posts⟩
  obtain ⟨hpc, hallowed⟩ := hnew post hpost
  exact ⟨hallowed, by simp [hpc, PostPc.isScreened], by simp [hpc, PostPc.writing]⟩

theorem postMove (hrequest : state.requests id = some (.post work))
    (hmove : Post.Move state.shared devices id work next after) :
    Ordered allowed (state.put id (next, .post after)) := by
  have hinOrder := hordered.posts id _ hrequest work rfl
  refine ⟨hordered.fresh.put hrequest _, Pool.forall_put ?_ ?_⟩
  · rintro _ ⟨⟩
    exact hinOrder.move hmove
  · intro other request hne hother found hfound
    exact (hordered.posts other request hother found hfound).others hinOrder hne hmove

theorem policy {pc later : PolicyPc Key} (hrequest : state.requests id = some (.policy pc))
    (hstep : policyStep state.shared devices id outcome pc = some (next, later)) :
    Ordered allowed (state.put id (next, .policy later)) := by
  obtain ⟨hclock, hsettings, hdb, hsnapshot, hupdates⟩ := policyStep_tables hstep
  refine ⟨hordered.fresh.put hrequest _, Pool.forall_put (by simp) ?_⟩
  intro other request hne hother found hfound
  refine (hordered.posts other request hother found hfound).later hclock.ge
    hsettings fun plan hplan => ⟨?_, hsnapshot⟩
  have hlock := (hordered.posts other request hother found hfound).locked plan hplan
  rw [hlock]
  exact hupdates other hne hlock

theorem restart (settings : Settings Key) (devices : Devices Key) : Ordered allowed { state with
      shared := state.shared.restart settings devices
      requests := fun id => (state.requests id).map Request.stop } := by
  refine ⟨fun id hid => ?_, fun id request hrequest post hpost => ?_⟩
  · simp [hordered.fresh id hid]
  · obtain ⟨before, hbefore, rfl⟩ := Option.map_eq_some_iff.mp hrequest
    obtain ⟨old, hold, hevent, answer, hanswer, _⟩ := Request.stop_post hpost
    refine ⟨?_, by simp [hanswer, PostPc.isScreened], by simp [hanswer, PostPc.writing]⟩
    rw [hevent]
    exact (hordered.posts id before hbefore old hold).posted

theorem step (hallowed : Allowing allowed state action)
    (hstep : GroupGrants.step state action = some stepped) : Ordered allowed stepped := by
  cases action with
  | tick seconds =>
    cases hstep
    exact ⟨hordered.fresh, fun id request hrequest post hpost =>
      (hordered.posts id request hrequest post hpost).later (Nat.le_add_right _ _) rfl
        fun _ _ => ⟨rfl, rfl⟩⟩
  | post event =>
    cases hstep
    refine hordered.start ?_
    rintro _ ⟨⟩
    exact ⟨rfl, hallowed event rfl⟩
  | pushPolicy =>
    cases hstep
    exact hordered.start (by simp)
  | prune =>
    cases hstep
    exact ⟨hordered.fresh, fun id request hrequest post hpost =>
      (hordered.posts id request hrequest post hpost).later (le_refl _) rfl
        fun _ _ => ⟨rfl, rfl⟩⟩
  | restart settings devices =>
    simp only [GroupGrants.step] at hstep
    split_ifs at hstep
    cases hstep
    exact hordered.restart settings devices
  | advance id devices outcome =>
    rcases step_advance hstep with
      ⟨work, next, after, hrequest, hmove, rfl⟩ |
      ⟨pc, next, later, hrequest, hpolicy, rfl⟩
    · exact hordered.postMove hrequest hmove
    · exact hordered.policy hrequest hpolicy

end

end Ordered

/-- A post that is due to reload, and can, is accepted. -/
theorem Post.accepted_of_step {plan : Plan Key} (hpc : post.pc = .reload plan)
    (hgone : outcome ≠ .gone) (hstep : post.step shared devices id outcome = some (next, after)) :
    after.pc = .answered (.ok plan.accepted) := by
  cases outcome with
  | gone => exact absurd rfl hgone
  | _ =>
    simp only [Post.step, hpc, Post.answer, Option.some.injEq, Prod.mk.injEq] at hstep
    rw [← hstep.2]
    rfl

theorem accepted_of_loads {state : State Key} {work : Post Key} {plan : Plan Key}
    (hloads : Loads state (.advance id devices outcome))
    (hrequest : state.requests id = some (.post work)) (hpc : work.pc = .reload plan)
    (hstep : step state (.advance id devices outcome) = some (state.put id (next, .post after))) :
    after.pc = .answered (.ok plan.accepted) := by
  simp only [step, hrequest, Option.bind_some, Request.step, Option.map_eq_some_iff] at hstep
  obtain ⟨_, ⟨⟨shared', post'⟩, hpost, rfl⟩, hput⟩ := hstep
  have hsame : post' = after := by
    have hrequests := congrFun (congrArg Pool.requests hput) id
    simpa [Pool.put] using hrequests
  subst hsame
  refine Post.accepted_of_step hpc ?_ hpost
  rintro rfl
  exact hloads id devices work plan rfl hrequest hpc

namespace Orderly

variable {allowed : GroupEvent Key → Prop} {state stepped : State Key} {action : Action Key}

theorem initial (clock : ℕ) (settings : Settings Key) (devices : Devices Key) :
    Orderly allowed (State.initial clock settings devices) :=
  ⟨Ordered.initial clock settings devices, fun _ => Kept.refl _ _,
    fun _ _ hrequest => (by cases hrequest)⟩

section

variable (horderly : Orderly allowed state)
include horderly

theorem start (hnew : ∀ post, request = .post post → post.pc = .screen ∧ allowed post.event) :
    Orderly allowed (state.start request) := by
  refine ⟨horderly.toOrdered.start hnew, ?_,
    Pool.forall_start (fun post hpost => ?_) horderly.reloading⟩
  · intro hsettled
    apply horderly.synced
    intro id found hfound
    have hne : id ≠ state.started := (horderly.fresh.lt_started hfound).ne
    apply hsettled id found
    simp only [Pool.start, Function.update_of_ne hne]
    exact hfound
  · simp [(hnew post hpost).1]

theorem postMove {work : Post Key} (hrequest : state.requests id = some (.post work))
    (hmove : Post.Move state.shared devices id work next after)
    (hloaded : ∀ plan, work.pc = .reload plan → after.pc = .answered (.ok plan.accepted)) :
    Orderly allowed (state.put id (next, .post after)) := by
  have hinOrder := horderly.posts id _ hrequest work rfl
  refine ⟨horderly.toOrdered.postMove hrequest hmove, ?_, Pool.forall_put ?_ ?_⟩
  · intro hsettled
    simp only [Pool.shared_put, hmove.clock_eq]
    rcases hmove.tables with ⟨plan, _, hreload, _⟩ |
      ⟨plan, _, _, hdb, hsnapshot⟩ | ⟨hbefore, _, hdb, hsnapshot⟩
    · refine absurd hreload (hsettled id _ ?_ after rfl plan)
      simp [Pool.put]
    · rw [hdb, hsnapshot]
      exact Kept.refl _ _
    · rw [hdb, hsnapshot]
      apply horderly.synced
      intro other request hother found hfound plan hpc
      by_cases heq : other = id
      · subst heq hfound
        rw [hrequest, Option.some.injEq, Request.post.injEq] at hother
        subst hother
        have hanswered := (hloaded plan hpc).symm.trans (hbefore plan hpc)
        cases hanswered
      · refine hsettled other request ?_ found hfound plan hpc
        simp only [Pool.put, Function.update_of_ne heq]
        exact hother
  · rintro _ ⟨⟩ plan hreload
    simp only [Pool.shared_put, hmove.clock_eq]
    rcases hmove.tables with ⟨pending, hpc, hpending, hdb, hsnapshot⟩ |
      ⟨_, _, hanswered, _⟩ | ⟨_, hafter, _⟩
    · rw [hreload, PostPc.reload.injEq] at hpending
      subst hpending
      obtain ⟨_, _, _, _, hdecides⟩ :=
        hinOrder.writing plan (by rw [hpc]; rfl)
      rw [hdb, hsnapshot]
      exact (horderly.synced (horderly.settled_of_commit hrequest hpc)).write hdecides
    · rw [hreload] at hanswered
      cases hanswered
    · exact absurd hreload (hafter plan)
  · intro other request hne hother found hfound plan hpc
    have hlock := (horderly.posts other request hother found hfound).locked plan (by rw [hpc]; rfl)
    obtain ⟨_, hsnapshot, hdb⟩ :=
      hmove.others_locked hne hlock hinOrder.locked
    simp only [Pool.shared_put, hmove.clock_eq, hsnapshot, hdb]
    exact horderly.reloading other request hother found hfound plan hpc

theorem policy {pc later : PolicyPc Key} (hrequest : state.requests id = some (.policy pc))
    (hstep : policyStep state.shared devices id outcome pc = some (next, later)) :
    Orderly allowed (state.put id (next, .policy later)) := by
  obtain ⟨hclock, -, hdb, hsnapshot, -⟩ := policyStep_tables hstep
  refine ⟨horderly.toOrdered.policy hrequest hstep, ?_, Pool.forall_put (by simp) ?_⟩
  · intro hsettled
    simp only [Pool.shared_put, hclock, hdb, hsnapshot]
    apply horderly.synced
    intro other request hother found hfound
    have hne : other ≠ id := by
      rintro rfl
      rw [hrequest, hfound, Option.some.injEq] at hother
      cases hother
    apply hsettled other request ?_ found hfound
    simp only [Pool.put, Function.update_of_ne hne]
    exact hother
  · intro other request _ hother found hfound plan hpc
    simp only [Pool.shared_put, hclock, hdb, hsnapshot]
    exact horderly.reloading other request hother found hfound plan hpc

theorem step (hallowed : Allowing allowed state action) (hloads : Loads state action)
    (hstep : GroupGrants.step state action = some stepped) : Orderly allowed stepped := by
  have hordered := horderly.toOrdered.step hallowed hstep
  cases action with
  | tick seconds =>
    cases hstep
    exact ⟨hordered, fun hsettled => (horderly.synced hsettled).tick (Nat.le_add_right _ _),
      fun id request hrequest post hpost plan hpc =>
        (horderly.reloading id request hrequest post hpost plan hpc).tick (Nat.le_add_right _ _)⟩
  | post event =>
    cases hstep
    refine horderly.start ?_
    rintro _ ⟨⟩
    exact ⟨rfl, hallowed event rfl⟩
  | pushPolicy =>
    cases hstep
    exact horderly.start (by simp)
  | prune =>
    cases hstep
    exact ⟨hordered, fun hsettled => (horderly.synced hsettled).prune,
      fun id request hrequest post hpost plan hpc =>
        (horderly.reloading id request hrequest post hpost plan hpc).prune⟩
  | restart settings devices =>
    simp only [GroupGrants.step] at hstep
    split_ifs at hstep
    cases hstep
    refine ⟨hordered, fun _ => Kept.refl _ _, fun id request hrequest post hpost plan hpc => ?_⟩
    obtain ⟨before, hbefore, rfl⟩ := Option.map_eq_some_iff.mp hrequest
    obtain ⟨_, _, _, answer, hanswer, _⟩ := Request.stop_post hpost
    rw [hanswer] at hpc
    cases hpc
  | advance id devices outcome =>
    rcases step_advance hstep with
      ⟨work, next, after, hrequest, hmove, rfl⟩ |
      ⟨pc, next, later, hrequest, hpolicy, rfl⟩
    · exact horderly.postMove hrequest hmove
        fun plan hpc => accepted_of_loads hloads hrequest hpc hstep
    · exact horderly.policy hrequest hpolicy

end

end Orderly

theorem ordered_of_reaches {allowed : GroupEvent Key → Prop} {clock : ℕ} {settings : Settings Key}
    {state : State Key}
    (hreach : Reaches step (Allowing allowed) (State.initial clock settings devices) state) :
    Ordered allowed state :=
  hreach.invariant (Ordered.initial clock settings devices)
    fun _ _ _ hordered hallowed hstep => hordered.step hallowed hstep

end GroupGrants
end Wildbloom
