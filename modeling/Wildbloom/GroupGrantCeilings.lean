import Wildbloom.GroupGrantFriends
import Wildbloom.GroupGrantRuns

/-!
# The core carries the committed ceilings

A post that adds a key or changes its ceiling pushes the friend set to the core
before it commits, under the `policyPush` lock.  `Told` says at each point of a
post what the core carries.  When the last plan of a post refuses what the core
was already told, the core keeps a ceiling that no table has; where every told
ceiling is committed, the core carries the committed ceilings whenever the lock
is free.
-/

namespace Wildbloom
namespace GroupGrants

open Runs KeyedTables

variable {Key : Type} [DecidableEq Key] {shared next : Shared Key} {post after : Post Key}
  {devices : Devices Key} {id : ℕ} {outcome : Outcome} {plan : Plan Key}
  {enrolled authority : Key → Bool} {now : ℕ} {signed : GroupEvent Key → Prop}
  {event : GroupEvent Key} {other : ℕ}

/-! ## Plans and friends -/

/-- The written tables ask the core for what `projectedFriendGrants` has. -/
theorem friendOf_write_eq {rows : GroupRows Key}
    (hdecides : Decides enrolled authority rows event now plan) :
    (rows.write plan).friendOf =
      match plan.key with
      | none => rows.friendOf
      | some change => Function.update rows.friendOf change.1
          (friendGrant change.1 change.2) := by
  cases hdecides with
  | held | reset => rfl
  | grant terms hbody hfits =>
    rw [friendOf_write_grantPlan hfits]
    simp only [grantPlan]
    by_cases hrevoked : terms.revoked = true
    · simp [hrevoked]
    · by_cases hknown : rows.keys.lookup terms.device =
          some (groupKey (rows.keys.lookup terms.device) event terms)
      · rw [if_pos (by simpa using hrevoked), if_neg fun h => h.2 hknown]
        refine Function.update_eq_self_iff.mpr ?_
        conv_rhs => rw [GroupRows.friendOf, hknown]
        rfl
      · rw [if_pos (by simpa using hrevoked), if_pos ⟨hrevoked, hknown⟩]

theorem friendOf_write_of_not_changes
    (hdecides : Decides enrolled authority shared.snapshot event now plan)
    (hsame : shared.changesFriends plan = false) :
    (shared.snapshot.write plan).friendOf = shared.snapshot.friendOf := by
  rw [friendOf_write_eq hdecides]
  cases hkey : plan.key with
  | none => rfl
  | some change =>
    simp only [Shared.changesFriends, hkey, Option.any_some,
      decide_eq_false_iff_not, ne_eq, not_not] at hsame
    funext device
    have hlists : (Function.update shared.snapshot.friendOf change.1
        (friendGrant change.1 change.2) device).toList =
          (shared.snapshot.friendOf device).toList := by
      rw [← filter_projectedFriendGrants, hsame, filter_groupFriendGrants]
    simpa using congrArg List.head? hlists

theorem asks_of_changes (hdecides : Decides enrolled authority shared.snapshot event now plan)
    (hchanges : shared.changesFriends plan = true) : ∃ grant, event.asks = some grant := by
  by_contra hnone
  have hasks : event.asks = none := by
    simpa [← Option.ne_none_iff_exists'] using hnone
  cases hdecides with
  | held | reset => cases hchanges
  | grant terms hbody hfits =>
    have hgroup := (groupKeyConflict_eq_false.mp hfits.free).2.2.1
    simp only [GroupEvent.asks, hbody] at hasks
    by_cases hrevoked : terms.revoked = true
    · simp [Shared.changesFriends, grantPlan, hrevoked] at hchanges
    rw [if_neg hrevoked, Option.map_eq_none_iff] at hasks
    cases hknown : shared.snapshot.keys.lookup terms.device with
    | some known =>
      have hsame := hgroup known hknown
      simp only [GroupKey.group, Prod.mk.injEq] at hsame
      have hkey : groupKey (some known) event terms = known := by
        simp [groupKey, hasks, ← hsame.1, ← hsame.2]
      simp [Shared.changesFriends, grantPlan, hknown, hkey] at hchanges
    | none =>
      have hnil : shared.snapshot.groupFriendGrants.filter
          (fun found => found.pubkey = terms.device) = [] := by
        rw [filter_groupFriendGrants, GroupRows.friendOf, hknown]
        rfl
      rw [List.filter_eq_nil_iff] at hnil
      simp [Shared.changesFriends, grantPlan, hknown, hrevoked, groupKey,
        hasks, GroupRows.projectedFriendGrants, friendGrant] at hchanges
      obtain ⟨found, hfound, hpubkey⟩ := hchanges
      exact hnil found hfound (by simpa using hpubkey)

/-! ## What the core carries at each point -/

def Told (shared : Shared Key) (id : ℕ) (post : Post Key) : Prop :=
  match post.pc with
  | .screen | .plan | .answered _ => shared.policyPush ≠ some id
  | .waitPush =>
    shared.policyPush ≠ some id ∧ ∃ grant, post.event.asks = some grant
  | .project =>
    shared.policyPush = some id ∧ Carries shared.core shared.snapshot.friendOf ∧
      ∃ grant, post.event.asks = some grant
  | .push none | .replan none =>
    -- The ceiling is in the tables already.
    shared.policyPush = some id ∧ Carries shared.core shared.snapshot.friendOf ∧
      ∃ grant, post.event.asks = some grant ∧
        withAsked shared.snapshot.friendOf grant = shared.snapshot.friendOf
  | .push (some grants) =>
    shared.policyPush = some id ∧ Carries shared.core shared.snapshot.friendOf ∧
      ∃ grant, post.event.asks = some grant ∧
        Carries grants (withAsked shared.snapshot.friendOf grant)
  | .replan (some _) =>
    shared.policyPush = some id ∧ ∃ grant, post.event.asks = some grant ∧
        Carries shared.core (withAsked shared.snapshot.friendOf grant)
  | .commit plan =>
    plan.writesNothing = false ∧ (shared.policyPush ≠ some id ∧
          (shared.snapshot.write plan).friendOf = shared.snapshot.friendOf ∨
        shared.policyPush = some id ∧ ∃ grant, post.event.asks = some grant ∧
            Carries shared.core (withAsked shared.snapshot.friendOf grant))
  | .reload _ =>
    shared.policyPush ≠ some id ∧ shared.db.friendOf = shared.snapshot.friendOf ∨
      shared.policyPush = some id ∧ Carries shared.core shared.db.friendOf

def PolicyTold (shared : Shared Key) (id : ℕ) : PolicyPc Key → Prop
  | .wait | .done => shared.policyPush ≠ some id
  | .pushing grants =>
    shared.policyPush = some id ∧ Carries shared.core shared.snapshot.friendOf ∧
      Carries grants shared.snapshot.friendOf

def Request.Told (shared : Shared Key) (id : ℕ) : Request Key → Prop
  | .post work => GroupGrants.Told shared id work
  | .policy pc => PolicyTold shared id pc

structure Undisturbed (shared next : Shared Key) (id : ℕ) : Prop where
  push : next.policyPush = some id ↔ shared.policyPush = some id
  held : shared.policyPush = some id → next.core = shared.core ∧
    next.snapshot.friendOf = shared.snapshot.friendOf
  tables : shared.updates = some id → next.snapshot = shared.snapshot ∧
    next.db.friendOf = shared.db.friendOf

theorem Told.rely (htold : Told shared id post)
    (hlocked : ∀ plan, post.pc.writing = some plan → shared.updates = some id)
    (hrely : Undisturbed shared next id) : Told next id post := by
  obtain ⟨hpush, hheld, htables⟩ := hrely
  unfold Told at htold ⊢
  cases hpc : post.pc with
  | project =>
    simp only [hpc, hpush] at htold ⊢
    obtain ⟨hcore, hview⟩ := hheld htold.1
    rw [hcore, hview]
    exact htold
  | push grants | replan grants =>
    cases grants with
    | none | some grants =>
      simp only [hpc, hpush] at htold ⊢
      obtain ⟨hcore, hview⟩ := hheld htold.1
      rw [hview, hcore]
      exact htold
  | commit plan =>
    simp only [hpc, ne_eq, hpush] at htold ⊢
    obtain ⟨hsnapshot, _⟩ := htables (hlocked plan (by rw [hpc]; rfl))
    rw [hsnapshot]
    refine ⟨htold.1, htold.2.imp_right fun hmine => ⟨hmine.1, ?_⟩⟩
    rw [(hheld hmine.1).1]
    exact hmine.2
  | reload plan =>
    simp only [hpc, ne_eq, hpush] at htold ⊢
    obtain ⟨hsnapshot, hdb⟩ := htables (hlocked plan (by rw [hpc]; rfl))
    rw [hsnapshot, hdb]
    refine htold.imp_right fun hmine => ⟨hmine.1, ?_⟩
    rw [(hheld hmine.1).1]
    exact hmine.2
  | _ =>
    simp only [hpc, ne_eq, hpush] at htold ⊢
    exact htold

/-! ## Steps -/

omit [DecidableEq Key] in
theorem Shared.policyPush_release : (shared.release id).policyPush ≠ some id := by
  simp only [release]
  split_ifs with hmine
  · simp
  · exact hmine

omit [DecidableEq Key] in
theorem Shared.policyPush_release_of_ne (hne : other ≠ id) :
    (shared.release id).policyPush = some other ↔ shared.policyPush = some other := by
  simp only [release]
  split_ifs with hmine
  · simp [hmine, Ne.symm hne]
  · rfl

/-- The tables that a post writes ask for what the core carries. -/
theorem friendOf_commit (hkept : Kept now shared.db shared.snapshot) {earlier : ℕ}
    (hdecides : Decides enrolled authority shared.snapshot event earlier plan) :
    (shared.db.write plan).friendOf = (shared.snapshot.write plan).friendOf := by
  have hkeys := (hkept.write hdecides).keys
  funext device
  rw [GroupRows.friendOf, GroupRows.friendOf, hkeys]

/-- A post that was told a ceiling goes on to commit it, and the reload after a
commit does not fail; friend grants of devices name no group key. -/
def ToldCommitsStep (state : State Key) : Action Key → Prop
  | .advance id devices outcome =>
    (∀ grant ∈ devices.friends, state.shared.snapshot.keys.lookup grant.pubkey = none) ∧
    ∀ post, state.requests id = some (.post post) →
      (∀ grants, post.pc = .replan (some grants) → outcome ≠ .gone ∧
        ∃ plan, post.evaluate state.shared devices = .ok plan ∧ plan.writesNothing = false) ∧
      (∀ plan, post.pc = .commit plan → state.shared.policyPush = some id → outcome ≠ .gone) ∧
      ∀ plan, post.pc = .reload plan → outcome ≠ .gone
  | _ => True

theorem ToldCommitsStep.loads {state : State Key} {action : Action Key}
    (hguard : ToldCommitsStep state action) : Loads state action := by
  rintro id devices work plan rfl hrequest hpc
  exact (hguard.2 work hrequest).2.2 plan hpc rfl

/-- Under the condition a told post does not end before its commit. -/
theorem not_ended_of_told (hstep : post.step shared devices id outcome = some (next, after))
    (hpc : (∃ grants, post.pc = .replan (some grants) ∧ post.evaluate shared devices = .ok plan ∧
      plan.writesNothing = false) ∨ post.pc = .commit plan)
    (hgone : outcome ≠ .gone) (answer : Except Refusal Accepted) : after.pc ≠ .answered answer := by
  rcases hpc with ⟨grants, hpc, hplan, hwrites⟩ | hpc
  · simp only [Post.step, hpc, Post.planned, hplan, hwrites, Bool.false_eq_true, if_false] at hstep
    split_ifs at hstep
    cases hstep
    simp [Post.goto]
  · simp only [Post.step, hpc, Option.some.injEq, Prod.mk.injEq] at hstep
    obtain ⟨_, rfl⟩ := hstep
    simp [Post.goto]

def IsTold (shared : Shared Key) (id : ℕ) (post : Post Key) : Prop :=
  (∃ grants, post.pc = .replan (some grants)) ∨
    shared.policyPush = some id ∧ ∃ plan, post.pc = .commit plan

/-- A post that has not told anything yet leaves the core as it is. -/
theorem Told.carries (htold : Told shared id post)
    (hnot : ¬IsTold shared id post) (hpc : ∀ plan, post.pc ≠ .reload plan)
    (hmine : shared.policyPush = some id) : Carries shared.core shared.snapshot.friendOf := by
  unfold Told at htold
  cases hwork : post.pc with
  | waitPush =>
    simp only [hwork] at htold
    exact absurd hmine htold.1
  | project =>
    simp only [hwork] at htold
    exact htold.2.1
  | push grants =>
    cases grants with
    | none | some grants =>
      simp only [hwork] at htold
      exact htold.2.1
  | replan pushed =>
    cases pushed with
    | none =>
      simp only [hwork] at htold
      exact htold.2.1
    | some grants => exact absurd (.inl ⟨grants, hwork⟩) hnot
  | commit plan => exact absurd (.inr ⟨hmine, plan, hwork⟩) hnot
  | reload plan => exact absurd hwork (hpc plan)
  | _ =>
    simp only [hwork] at htold
    exact absurd hmine htold

theorem Told.carries_release (htold : Told shared id post)
    (hnot : ¬IsTold shared id post) (hpc : ∀ plan, post.pc ≠ .reload plan)
    (hfree : shared.policyPush = none → Carries shared.core shared.snapshot.friendOf)
    (hreleased : (shared.release id).policyPush = none) :
    Carries shared.core shared.snapshot.friendOf := by
  by_cases hmine : shared.policyPush = some id
  · exact htold.carries hnot hpc hmine
  · simp only [Shared.release, if_neg hmine] at hreleased
    exact hfree hreleased

theorem carries_project {grant : FriendGrant Key} (hplan : post.evaluate shared devices = .ok plan)
    (hwrites : plan.writesNothing = false) (hasks : post.event.asks = some grant)
    (hothers : ∀ found ∈ devices.friends, shared.snapshot.keys.lookup found.pubkey = none) :
    match plan.key with
    | none => withAsked shared.snapshot.friendOf grant = shared.snapshot.friendOf
    | some change =>
      Carries (devices.friends ++ shared.snapshot.projectedFriendGrants change)
        (withAsked shared.snapshot.friendOf grant) := by
  have hdecides := decides_of_evaluate hplan
  have hview := friendOf_write_of_asks hdecides hasks hwrites
  have hsame := friendOf_write_eq hdecides
  rw [hview] at hsame
  cases hkey : plan.key with
  | none => simpa only [hkey] using hsame
  | some change =>
    simp only [hkey] at hsame ⊢
    rw [hsame]
    apply carries_projectedFriendGrants
    intro found hfound
    rw [← hsame, withAsked]
    have hdevice : found.pubkey ≠ grant.pubkey := by
      intro heq
      have hnamed := devices.named found hfound
      cases hdecides with
      | held => cases hwrites
      | reset _ _ hbody => simp [GroupEvent.asks, hbody] at hasks
      | grant terms hbody hfits =>
        have hfree := (groupKeyConflict_eq_false.mp hfits.free).1
        rw [heq, (asks_eq_some hbody hasks).2.1, hfree] at hnamed
        cases hnamed
    rw [Function.update_of_ne hdevice, GroupRows.friendOf, hothers found hfound]
    rfl

/-- The post's own step keeps what it was told, and leaves the core in step
where it frees the lock. -/
theorem Told.move (htold : Told shared id post) (hinOrder : InOrder signed shared id post)
    (hsynced : ∀ plan, post.pc = .commit plan → Kept shared.clock shared.db shared.snapshot)
    (hfree : shared.policyPush = none → Carries shared.core shared.snapshot.friendOf)
    (hothers : ∀ found ∈ devices.friends, shared.snapshot.keys.lookup found.pubkey = none)
    (hmove : Post.Move shared devices id post next after)
    (hloaded : ∀ plan, post.pc = .reload plan → after.pc = .answered (.ok plan.accepted))
    (hends : IsTold shared id post → ∀ answer, after.pc ≠ .answered answer) :
    Told next id after ∧ (next.policyPush = none → Carries next.core next.snapshot.friendOf) := by
  have hanswers : ∀ answer, after.pc = .answered answer →
      ¬IsTold shared id post := fun answer hpc hisTold =>
    hends hisTold answer hpc
  cases hmove with
  | refuse refusal hpc =>
    exact ⟨Shared.policyPush_release, htold.carries_release (hanswers _ rfl) hpc hfree⟩
  | held plan hpc =>
    refine ⟨Shared.policyPush_release, htold.carries_release (hanswers _ rfl) ?_ hfree⟩
    intro pending hreload
    simp [hreload, PostPc.isPlanning] at hpc
  | screen hpc | skip hpc =>
    simp only [Told, hpc] at htold
    exact ⟨htold, hfree⟩
  | wait plan hpc _ hplan hchanges =>
    simp only [Told, hpc] at htold
    exact ⟨⟨htold, asks_of_changes (decides_of_evaluate hplan) hchanges⟩, hfree⟩
  | lock plan hpc _ hplan hwrites =>
    refine ⟨⟨hwrites, ?_⟩, hfree⟩
    rcases hpc with ⟨hpc, hsame⟩ | ⟨pushed, hpc⟩
    · simp only [Told, hpc] at htold
      exact .inl ⟨htold, friendOf_write_of_not_changes (decides_of_evaluate hplan) hsame⟩
    · cases pushed with
      | none =>
        simp only [Told, hpc] at htold
        obtain ⟨hmine, hcarries, grant, hasks, hsame⟩ := htold
        exact .inr ⟨hmine, grant, hasks, hsame.symm ▸ hcarries⟩
      | some grants =>
        simp only [Told, hpc] at htold
        exact .inr htold
  | commit plan hpc =>
    obtain ⟨_, authority, earlier, _, hdecides⟩ :=
      hinOrder.writing plan (by rw [hpc]; rfl)
    have hwritten := friendOf_commit (hsynced plan hpc) hdecides
    simp only [Told, hpc] at htold
    refine ⟨?_, hfree⟩
    rcases htold.2 with ⟨hnot, hsame⟩ | ⟨hmine, grant, hasks, hcarries⟩
    · exact .inl ⟨hnot, hwritten.trans hsame⟩
    · refine .inr ⟨hmine, ?_⟩
      rw [hwritten, friendOf_write_of_asks hdecides hasks htold.1]
      exact hcarries
  | unloaded plan hpc => cases hloaded plan hpc
  | reload plan hpc =>
    simp only [Told, hpc] at htold
    refine ⟨Shared.policyPush_release, fun hreleased => ?_⟩
    rcases htold with ⟨hnot, hsame⟩ | ⟨hmine, hcarries⟩
    · simp only [Shared.release, if_neg hnot] at hreleased
      simp only [Shared.release, hsame]
      exact hfree hreleased
    · exact hcarries
  | takePush hpc hunlocked =>
    simp only [Told, hpc] at htold
    exact ⟨⟨rfl, hfree hunlocked, htold.2⟩, fun hnone => (by cases hnone)⟩
  | project plan hpc _ hplan hwrites =>
    simp only [Told, hpc] at htold
    obtain ⟨hmine, hcarries, grant, hasks⟩ := htold
    have hproject := carries_project hplan hwrites hasks hothers
    refine ⟨?_, hfree⟩
    cases hkey : plan.key with
    | none | some =>
      simp only [hkey] at hproject
      exact ⟨hmine, hcarries, grant, hasks, hproject⟩
  | pushed grants hpc =>
    simp only [Told, hpc] at htold
    obtain ⟨hmine, _, grant, hasks, hcarries⟩ := htold
    refine ⟨⟨hmine, grant, hasks, hcarries⟩, fun hnone => ?_⟩
    simp only [hmine] at hnone
    cases hnone

theorem Told.undisturbed (htold : Told shared id post) (hinOrder : InOrder signed shared id post)
    (hne : other ≠ id) (hmove : Post.Move shared devices id post next after) :
    Undisturbed shared next other := by
  refine ⟨?_, fun hheld => ?_, fun hlocked => ?_⟩
  · cases hmove with
    | refuse | held | reload | unloaded => exact Shared.policyPush_release_of_ne hne
    | takePush hpc hunlocked => simp [hunlocked, Ne.symm hne]
    | _ => rfl
  · have hnot : shared.policyPush ≠ some id := by
      rw [hheld]
      simpa using hne
    cases hmove with
    | pushed grants hpc =>
      simp only [Told, hpc] at htold
      exact absurd htold.1 hnot
    | reload plan hpc =>
      simp only [Told, hpc] at htold
      rcases htold with ⟨_, hsame⟩ | ⟨hmine, _⟩
      · exact ⟨rfl, hsame⟩
      · exact absurd hmine hnot
    | _ => exact ⟨rfl, rfl⟩
  · obtain ⟨_, hsnapshot, hdb⟩ :=
      hmove.others_locked hne hlocked hinOrder.locked
    exact ⟨hsnapshot, by rw [hdb]⟩

variable {pc later : PolicyPc Key}

theorem PolicyTold.undisturbed (htold : PolicyTold shared id pc) (hne : other ≠ id)
    (hstep : policyStep shared devices id outcome pc = some (next, later)) :
    Undisturbed shared next other := by
  obtain ⟨_, _, hdb, hsnapshot, _⟩ := policyStep_tables hstep
  refine ⟨?_, fun hheld => ⟨?_, by rw [hsnapshot]⟩, fun _ => ⟨hsnapshot, by rw [hdb]⟩⟩
  · cases pc with
    | done => cases hstep
    | wait =>
      simp only [policyStep] at hstep
      split_ifs at hstep with hunlocked
      cases hstep
      rw [ne_eq, not_not] at hunlocked
      simp [hunlocked, Ne.symm hne]
    | pushing grants =>
      simp only [policyStep] at hstep
      split_ifs at hstep <;> cases hstep <;>
        exact Shared.policyPush_release_of_ne hne
  · cases pc with
    | done => cases hstep
    | wait =>
      simp only [policyStep] at hstep
      split_ifs at hstep
      cases hstep
      rfl
    | pushing grants =>
      rw [htold.1, Option.some.injEq] at hheld
      exact absurd hheld.symm hne

theorem PolicyTold.step (htold : PolicyTold shared id pc) (hfree : shared.policyPush = none →
      Carries shared.core shared.snapshot.friendOf)
    (hothers : ∀ found ∈ devices.friends, shared.snapshot.keys.lookup found.pubkey = none)
    (hstep : policyStep shared devices id outcome pc = some (next, later)) :
    PolicyTold next id later ∧ (next.policyPush = none →
        Carries next.core next.snapshot.friendOf) := by
  cases pc with
  | done => cases hstep
  | wait =>
    simp only [policyStep] at hstep
    split_ifs at hstep with hunlocked
    cases hstep
    have hcarries : Carries (devices.friends ++
        shared.snapshot.groupFriendGrants) shared.snapshot.friendOf := by
      apply carries_groupFriendGrants
      intro found hfound
      rw [GroupRows.friendOf, hothers found hfound]
      rfl
    exact ⟨⟨rfl, hfree (not_not.mp hunlocked), hcarries⟩, fun hnone => (by cases hnone)⟩
  | pushing grants =>
    simp only [policyStep] at hstep
    split_ifs at hstep with hok
    · cases hstep
      exact ⟨Shared.policyPush_release, fun _ => htold.2.2⟩
    · cases hstep
      exact ⟨Shared.policyPush_release, fun _ => htold.2.1⟩

theorem PolicyTold.rely (htold : PolicyTold shared id pc)
    (hrely : Undisturbed shared next id) : PolicyTold next id pc := by
  obtain ⟨hpush, hheld, _⟩ := hrely
  cases pc with
  | wait | done =>
    simp only [PolicyTold, ne_eq, hpush] at htold ⊢
    exact htold
  | pushing grants =>
    simp only [PolicyTold, hpush] at htold ⊢
    obtain ⟨hcore, hview⟩ := hheld htold.1
    rw [hcore, hview]
    exact htold

/-! ## Runs -/

variable {state stepped : State Key} {action : Action Key}

structure Informed (state : State Key) : Prop where
  orderly : Orderly (fun _ => True) state
  told : ∀ id request, state.requests id = some request → request.Told state.shared id
  free : state.shared.policyPush = none → Carries state.shared.core state.shared.snapshot.friendOf
  holder : ∀ id, state.shared.policyPush = some id → (state.requests id).isSome = true

namespace Informed

section

variable (hinformed : Informed state) {request : Request Key}
include hinformed

theorem rely (hother : state.requests other = some request)
    (hrely : Undisturbed state.shared next other) : request.Told next other := by
  have htold := hinformed.told other request hother
  cases request with
  | policy pc => exact PolicyTold.rely htold hrely
  | post work =>
    exact GroupGrants.Told.rely htold (hinformed.orderly.posts other _ hother work rfl).locked hrely

theorem holder_put {result : Shared Key × Request Key}
    (hrely : ∀ other, other ≠ id → Undisturbed state.shared result.1 other) :
    ∀ other, (state.put id result).shared.policyPush = some other →
      ((state.put id result).requests other).isSome = true := by
  intro other hheld
  by_cases heq : other = id
  · simp [Pool.put, heq]
  · simp only [Pool.put, Function.update_of_ne heq]
    exact hinformed.holder other ((hrely other heq).push.mp hheld)

theorem advance (hguard : ToldCommitsStep state (.advance id devices outcome))
    (hstep : GroupGrants.step state (.advance id devices outcome) = some stepped) :
    Informed stepped := by
  have horderly := hinformed.orderly.step (fun _ _ => trivial) hguard.loads hstep
  obtain ⟨hothers, hcommits⟩ := hguard
  simp only [GroupGrants.step, Option.bind_eq_some_iff, Option.map_eq_some_iff] at hstep
  obtain ⟨request, hrequest, result, hresult, rfl⟩ := hstep
  have htold := hinformed.told id request hrequest
  cases request with
  | policy pc =>
    obtain ⟨⟨next, later⟩, hpolicy, rfl⟩ := Option.map_eq_some_iff.mp hresult
    obtain ⟨hafter, hfree⟩ :=
      PolicyTold.step htold hinformed.free hothers hpolicy
    have hrely : ∀ other, other ≠ id → Undisturbed state.shared next other :=
      fun other hne => PolicyTold.undisturbed htold hne hpolicy
    exact ⟨horderly, Pool.forall_put hafter fun other request hne hother =>
      hinformed.rely hother (hrely other hne), hfree,
      hinformed.holder_put hrely⟩
  | post work =>
    obtain ⟨⟨next, after⟩, hwork, rfl⟩ := Option.map_eq_some_iff.mp hresult
    have hmove := Post.move_of_step hwork
    have hinOrder := hinformed.orderly.posts id _ hrequest work rfl
    obtain ⟨hreplan, hcommit, hreload⟩ := hcommits work hrequest
    have hends : IsTold state.shared id work → ∀ answer, after.pc ≠ .answered answer := by
      rintro (⟨grants, hpc⟩ | ⟨hmine, plan, hpc⟩)
      · obtain ⟨hgone, plan, hplan, hwrites⟩ := hreplan grants hpc
        exact not_ended_of_told hwork (.inl ⟨grants, hpc, hplan, hwrites⟩) hgone
      · exact not_ended_of_told hwork (.inr hpc) (hcommit plan hpc hmine)
    obtain ⟨hafter, hfree⟩ := GroupGrants.Told.move htold hinOrder
      (fun plan hpc => hinformed.orderly.synced (hinformed.orderly.settled_of_commit hrequest hpc))
      hinformed.free hothers hmove
      (fun plan hpc => Post.accepted_of_step hpc (hreload plan hpc) hwork) hends
    have hrely : ∀ other, other ≠ id → Undisturbed state.shared next other :=
      fun other hne => GroupGrants.Told.undisturbed htold hinOrder hne hmove
    exact ⟨horderly, Pool.forall_put hafter fun other request hne hother =>
      hinformed.rely hother (hrely other hne), hfree,
      hinformed.holder_put hrely⟩

/-- A restart gives the core the friend set of the tables it read. -/
theorem restart {settings : Settings Key}
    (hstep : GroupGrants.step state (.restart settings devices) = some stepped) :
    Informed stepped := by
  have horderly := hinformed.orderly.step (fun _ _ => trivial) (loads_of_check rfl) hstep
  simp only [GroupGrants.step] at hstep
  split_ifs at hstep with hrefused
  cases hstep
  simp only [not_or, Bool.not_eq_true] at hrefused
  refine ⟨horderly, fun id request hrequest => ?_, fun _ => ?_, fun _ hheld => (by cases hheld)⟩
  · obtain ⟨before, _, rfl⟩ := Option.map_eq_some_iff.mp hrequest
    cases hstop : before.stop with
    | policy pc =>
      cases before with
      | post work =>
        obtain ⟨event, pc⟩ := work
        cases pc <;> cases hstop
      | policy =>
        cases hstop
        exact fun hnone => (by cases hnone)
    | post stopped =>
      obtain ⟨_, _, _, answer, hanswer, _⟩ := Request.stop_post hstop
      simp only [Request.Told, GroupGrants.Told, hanswer]
      exact fun hnone => (by cases hnone)
  · apply carries_groupFriendGrants
    intro found hfound
    have hnamed := devices.named found hfound
    change (state.shared.db.keys.lookup found.pubkey).bind _ = none
    cases hkey : state.shared.db.keys.lookup found.pubkey with
    | none => rfl
    | some key =>
      have hmem : found.pubkey ∈ state.shared.db.keys.keys :=
        AList.mem_keys.mp (AList.lookup_isSome.mp (by rw [hkey]; rfl))
      have hconflict := hrefused.2
      simp only [Settings.conflict, Bool.or_eq_false_iff, List.any_eq_false] at hconflict
      simpa [hnamed] using hconflict.2 found.pubkey hmem

theorem start (horderly : Orderly (fun _ => True) (state.start request))
    (hnew : ∀ id, state.shared.policyPush ≠ some id → request.Told state.shared id) :
    Informed (state.start request) := by
  refine ⟨horderly, Pool.forall_start (hnew _ fun hheld => ?_) hinformed.told,
    hinformed.free, fun id hheld => ?_⟩
  · have hsome := hinformed.holder _ hheld
    rw [hinformed.orderly.fresh _ (le_refl _)] at hsome
    cases hsome
  · by_cases heq : id = state.started
    · simp [Pool.start, heq]
    · simp only [Pool.start, Function.update_of_ne heq]
      exact hinformed.holder id hheld

theorem step (hguard : ToldCommitsStep state action)
    (hstep : GroupGrants.step state action = some stepped) : Informed stepped := by
  have horderly := hinformed.orderly.step (fun _ _ => trivial) hguard.loads hstep
  cases action with
  | tick | prune =>
    cases hstep
    exact ⟨horderly, fun id request hrequest =>
      hinformed.rely hrequest ⟨Iff.rfl, fun _ => ⟨rfl, rfl⟩,
        fun _ => ⟨rfl, rfl⟩⟩, hinformed.free, hinformed.holder⟩
  | post event | pushPolicy =>
    cases hstep
    exact hinformed.start horderly fun _ hnot => hnot
  | restart settings devices => exact hinformed.restart hstep
  | advance id devices outcome => exact hinformed.advance hguard hstep

end

end Informed

/-- In runs in which every ceiling that the core was told is committed, and in
which the friend grants of devices name no group key: whenever the push lock is
free, the core has exactly one grant for each key with a committed ceiling, with
that ceiling and the grant id of the key's group. -/
theorem core_carries_committed_ceilings {clock : ℕ} {settings : Settings Key}
    {devices : Devices Key} {state : State Key}
    (hreach : Reaches step ToldCommitsStep (State.initial clock settings devices) state)
    (hfree : state.shared.policyPush = none) {device : Key} {key : GroupKey Key} {limit : ℕ}
    (hkey : state.shared.db.keys.lookup device = some key) (hlimit : key.byteLimit = some limit) :
    state.shared.core.filter (fun grant => grant.pubkey = device) =
      [{ pubkey := device
         byteLimit := limit
         grantId := .group key.keeper key.room
         issuer := some key.keeper }] := by
  have hinformed : Informed state := by
    apply hreach.invariant
    · exact ⟨Orderly.initial clock settings devices,
        fun _ _ hrequest => (by cases hrequest),
        fun _ _ _ hgrant => (by cases hgrant),
        fun _ hheld => (by cases hheld)⟩
    · exact fun _ _ _ hinformed hguard hstep => hinformed.step hguard hstep
  have hsame : state.shared.db.friendOf = state.shared.snapshot.friendOf := by
    by_cases hsettled : Settled state
    · funext device
      rw [GroupRows.friendOf, (hinformed.orderly.synced hsettled).keys]
      rfl
    · simp only [Settled, not_forall, not_not] at hsettled
      obtain ⟨id, _, hrequest, post, rfl, plan, hpc⟩ := hsettled
      have htold := hinformed.told id _ hrequest
      simp only [Request.Told, Told, hpc, hfree] at htold
      simpa using htold
  apply hinformed.free hfree
  rw [← hsame, GroupRows.friendOf, hkey]
  simp [friendGrant, hlimit]

def ceilingGrant (id createdAt limit : ℕ) (revoked : Bool) : GroupEvent ℕ where
  id := id
  keeper := 1
  createdAt := createdAt
  expiration := 1000
  body := .grant
    { smallTerms with scopes := [.upload], bytes := some limit, revoked := revoked }

def advances (id steps : ℕ) : List (Action ℕ) :=
  List.replicate steps (.advance id noDevices .ok)

/-- The core is told the ceiling 20 of a renewal; before the renewal is planned
for the last time a revocation of the grant lands, and the renewal is refused.
The core keeps 20 and the tables keep 10. -/
theorem core_keeps_a_refused_ceiling : ∃ (state : State ℕ) (key : GroupKey ℕ),
      Reaches step everyStep (State.initial 100 smallNode noDevices) state ∧
      state.shared.policyPush = none ∧
      state.shared.db.keys.lookup 3 = some key ∧ key.byteLimit = some 10 ∧
      (state.shared.core.filter fun grant => grant.pubkey = 3).map (·.byteLimit) = [20] := by
  have hrun : (runActions step (State.initial 100 smallNode noDevices)
      (.post (ceilingGrant 31 100 10 false) :: advances 0 8 ++
        .post (ceilingGrant 32 110 20 false) :: advances 1 5 ++
        .post (ceilingGrant 33 120 10 true) :: advances 2 4 ++
        advances 1 1)).any (fun state =>
          decide (state.shared.policyPush = none) &&
          decide (state.shared.db.keys.lookup 3 = some ⟨1, 2, some 10⟩) &&
          decide ((state.shared.core.filter fun grant =>
            grant.pubkey = 3).map (·.byteLimit) = [20])) = true := by
    decide
  obtain ⟨state, hreach, htest⟩ := exists_reaches_of_runActions hrun
  simp only [Bool.and_eq_true, decide_eq_true_eq, and_assoc] at htest
  obtain ⟨hfree, hkey, hcore⟩ := htest
  exact ⟨state, _, hreach, hfree, hkey, rfl, hcore⟩

def toldCommitsCheck (state : State ℕ) : Action ℕ → Bool
  | .advance id devices outcome =>
    devices.friends.isEmpty && decide (outcome = .ok) &&
      (state.requests id).all fun request =>
        match request with
        | .post ⟨event, .replan (some _)⟩ =>
          match (Post.mk event .plan).evaluate state.shared devices with
          | .ok plan => !plan.writesNothing
          | .error _ => false
        | _ => true
  | _ => true

theorem toldCommitsStep_of_check {state : State ℕ} {action : Action ℕ}
    (hcheck : toldCommitsCheck state action = true) : ToldCommitsStep state action := by
  cases action with
  | advance id devices outcome =>
    simp only [toldCommitsCheck, Bool.and_eq_true, List.isEmpty_iff, decide_eq_true_eq] at hcheck
    obtain ⟨⟨hfriends, rfl⟩, hposts⟩ := hcheck
    refine ⟨by simp [hfriends], fun post hpost => ⟨?_, by simp, by simp⟩⟩
    intro grants hpc
    obtain ⟨event, pc⟩ := post
    subst hpc
    simp only [hpost, Option.all_some] at hposts
    refine ⟨by simp, ?_⟩
    cases hplan : (Post.mk event .plan).evaluate state.shared devices with
    | error refusal => simp [hplan] at hposts
    | ok plan => exact ⟨plan, hplan, by simpa [hplan] using hposts⟩
  | _ => trivial

/-- The core has the ceiling of a grant that was pushed and committed. -/
theorem core_carries_committed_ceilings_after_a_push : ∃ state : State ℕ,
      Reaches step ToldCommitsStep (State.initial 100 smallNode noDevices) state ∧
      state.shared.core.filter (fun grant => grant.pubkey = 3) = [⟨3, 10, .group 1 2, some 1⟩] := by
  have hrun : (checkedRun step toldCommitsCheck (State.initial 100 smallNode noDevices)
      (.post (ceilingGrant 31 100 10 false) :: advances 0 8)).any
        (fun state => decide (state.shared.policyPush = none) &&
          decide (state.shared.db.keys.lookup 3 = some ⟨1, 2, some 10⟩)) =
        true := by
    decide
  have hreached : ∃ state, Reaches step ToldCommitsStep
      (State.initial 100 smallNode noDevices) state ∧ _ :=
    exists_reaches_of_check toldCommitsStep_of_check hrun
  obtain ⟨state, hreach, htest⟩ := hreached
  simp only [Bool.and_eq_true, decide_eq_true_eq] at htest
  exact ⟨state, hreach, core_carries_committed_ceilings hreach htest.1 htest.2 rfl⟩

end GroupGrants
end Wildbloom
