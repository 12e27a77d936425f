import Mathlib.Data.Set.Insert
import Mathlib.Logic.Function.Basic
import Mathlib.Tactic

/-!
# A cache over a relation of claims

Keys hold claims on items in a store.  A cache remembers which items some
listed key claims.  Concurrent tasks change the two one after the other, never
both at once.

`View` is the state that matters for this and `Move` is one atomic step.  A
`Label` says which of the delicate steps a move is, so that a guard can speak
about it; everything else is `quiet`.  Two results hold for any tasks that
move this way.  Kept claims that nobody deleted stand (`Standing`), and a
cache at rest agrees with the store (`Coherent`), each under the conditions on
the delicate steps that it needs.
-/

namespace Wildbloom
namespace ClaimCache

variable {Key Item Id : Type*}

/-- What a task still has to do with a claim or with the cache.  A task at
`risk` found its item unknown and may take back the claim it makes; `landed`
says whether it has made it.  A task that `owes` made a claim to keep and has
to record the item.  A task that is `removing` deletes claims on the item and
drops it unless a key is seen to claim it; `unseen` are the keys it has not
looked at. -/
inductive Task (Key Item : Type*)
  | none
  | risk (key : Key) (item : Item) (landed : Bool)
  | owes (key : Key) (item : Item)
  | removing (item : Item) (unseen : List Key)
deriving DecidableEq

def Task.riskUnless (safe : Bool) (key : Key) (item : Item) : Task Key Item :=
  match safe with
  | true => .none
  | false => .risk key item false

theorem Task.riskUnless_cases (safe : Bool) (key : Key) (item : Item) :
    Task.riskUnless safe key item = .none ∨
      ∃ other owned, Task.riskUnless safe key item = .risk other owned false := by
  cases safe with
  | true => exact Or.inl rfl
  | false => exact Or.inr ⟨key, item, rfl⟩

theorem Task.riskUnless_ne_owes (safe : Bool) (key other : Key) (item owned : Item) :
    Task.riskUnless safe key item ≠ .owes other owned := by
  cases safe <;> simp [Task.riskUnless]

/-- The delicate steps.  A task that checks may not have `looked` its item up
at all.  A claim is kept or on trial, and `counted` marks the kept claims that
have to stand until they are deleted.  An `overrun` task drops the item it
just recorded under the same lock. -/
inductive Label (Key Item Id : Type*)
  | quiet
  | check (id : Id) (key : Key) (item : Item) (looked : Bool)
  | claim (id : Id) (key : Key) (item : Item) (kept counted : Bool)
  | record (id : Id) (key : Key) (item : Item)
  | look (key : Key) (item : Item)
  | list (key : Key) (page : List Item)
  | overrun (item : Item)

/-- `unread` are the claims the cache has not read yet, `standing` the counted
claims, by the task that made them, that nobody deleted since. -/
structure View (Key Item Id : Type*) where
  claims : Set (Key × Item)
  known : Set Item
  unread : Set (Key × Item)
  tasks : Id → Task Key Item
  standing : Set (Id × Key × Item)

namespace View

variable [DecidableEq Id]

variable (view : View Key Item Id) (id : Id) (key : Key) (item : Item)

def setTask (task : Task Key Item) : View Key Item Id :=
  { view with tasks := Function.update view.tasks id task }

def addClaim : View Key Item Id :=
  { view with claims := insert (key, item) view.claims }

def dropClaim : View Key Item Id :=
  { view with claims := view.claims \ {(key, item)} }

def count : View Key Item Id :=
  { view with standing := insert (id, key, item) view.standing }

def discount : View Key Item Id :=
  { view with standing := view.standing \ {kept | kept.2 = (key, item)} }

def learn : View Key Item Id :=
  { view with known := insert item view.known }

def forget : View Key Item Id :=
  { view with known := view.known \ {item} }

def read (page : List Item) (unread : Set (Key × Item)) : View Key Item Id :=
  { view with known := view.known ∪ {item | item ∈ page}, unread := unread }

def reset (unread : Set (Key × Item)) : View Key Item Id :=
  { view with known := ∅, unread := unread }

end View

variable [DecidableEq Id] (devices : Set Key)

/-- One atomic step of tasks that work for the keys `devices`. -/
inductive Move : View Key Item Id → Label Key Item Id → View Key Item Id → Prop
  | rest (view) : Move view .quiet view
  -- A task gives up before it made its claim, or is no longer in doubt.
  | leave (view id key item)
      (htask : view.tasks id = .risk key item false) : Move view .quiet (view.setTask id .none)
  | takeBack (view id key item)
      (htask : view.tasks id = .risk key item true) :
      Move view .quiet ((view.dropClaim key item).setTask id .none)
  | plan (view id item unseen)
      (htask : view.tasks id = .none) (hunseen : ∀ key ∈ devices, key ∈ unseen) :
      Move view .quiet (view.setTask id (.removing item unseen))
  | delete (view id key item unseen)
      (htask : view.tasks id = .removing item unseen) :
      Move view .quiet ((view.dropClaim key item).discount key item)
  | drop (view id item)
      (htask : view.tasks id = .removing item []) :
      Move view .quiet ((view.forget item).setTask id .none)
  -- Keys outside `devices` come and go.
  | outside (view claims)
      (hsame : ∀ key ∈ devices, ∀ item, (key, item) ∈ claims ↔ (key, item) ∈ view.claims) :
      Move view .quiet { view with claims := claims }
  | checkKnown (view id key item looked) : Move view (.check id key item looked) view
  | checkUnknown (view id key item looked)
      (htask : view.tasks id = .none) (hbuilt : view.unread = ∅)
      (hunknown : looked = true → item ∉ view.known) (hkey : key ∈ devices) :
      Move view (.check id key item looked) (view.setTask id (.risk key item false))
  | claimKept (view id key item)
      (htask : view.tasks id = .none) (hkey : key ∈ devices) :
      Move view (.claim id key item true false)
        ((view.addClaim key item).setTask id (.owes key item))
  | claimCounted (view id key item)
      (htask : view.tasks id = .none) (hkey : key ∈ devices) :
      Move view (.claim id key item true true)
        (((view.addClaim key item).count id key item).setTask id (.owes key item))
  | claimOnTrial (view id key item)
      (htask : view.tasks id = .risk key item false) (hkey : key ∈ devices) :
      Move view (.claim id key item false false)
        ((view.addClaim key item).setTask id (.risk key item true))
  | record (view id key item)
      (htask : view.tasks id = .owes key item ∨ view.tasks id = .risk key item true)
      (hkey : key ∈ devices) : Move view (.record id key item) ((view.learn item).setTask id .none)
  | lookAbsent (view id key item unseen)
      (htask : view.tasks id = .removing item (key :: unseen))
      (habsent : (key, item) ∉ view.claims) :
      Move view (.look key item) (view.setTask id (.removing item unseen))
  | lookPresent (view id key item unseen)
      (htask : view.tasks id = .removing item (key :: unseen))
      (hpresent : (key, item) ∈ view.claims) (hkey : key ∈ devices) :
      Move view (.look key item) (view.setTask id .none)
  | list (view key page unread)
      (hkey : key ∈ devices) (hpage : ∀ item ∈ page, (key, item) ∈ view.claims)
      (hunread : ∀ pair ∈ view.unread, pair.1 ∈ devices →
        pair ∈ view.claims → pair ∈ unread ∨ pair.2 ∈ page) :
      Move view (.list key page) (view.read page unread)
  -- The cache could not be built, and the task that wanted it is refused.
  | abandon (view id unread)
      (htask : view.tasks id = .none ∨ ∃ item, view.tasks id = .removing item [])
      (hidle : ∀ other key item, view.tasks other ≠ .owes key item)
      (hunread : ∀ key ∈ devices, ∀ item, (key, item) ∈ unread) :
      Move view .quiet ((view.reset unread).setTask id .none)
  | overrun (view item) : Move view (.overrun item) (view.forget item)

variable {devices} {view : View Key Item Id} {id : Id} {key : Key} {item : Item} {looked : Bool}

/-! ## Kept claims stand until they are deleted -/

/-- What the standing of counted claims needs of a step: a task that finds its
item unknown does not already hold it, and no counted claim is made while
another task of the key may take its claim on that item back. -/
def StandingGuard (view : View Key Item Id) : Label Key Item Id → Prop
  | .check _ key item looked =>
    (key, item) ∈ view.claims → looked = true ∧ item ∈ view.known
  | .claim id key item _ true =>
    ∀ other landed, other ≠ id → view.tasks other ≠ .risk key item landed
  | _ => True

structure Standing (devices : Set Key) (view : View Key Item Id) : Prop where
  held : ∀ id key item, (id, key, item) ∈ view.standing → (key, item) ∈ view.claims
  member : ∀ id key item, (id, key, item) ∈ view.standing → key ∈ devices
  alone : ∀ id key item landed other, view.tasks id = .risk key item landed →
      (other, key, item) ∉ view.standing

section

variable (hgood : Standing devices view)
include hgood

theorem Standing.takeBack (htask : view.tasks id = .risk key item true) :
    Standing devices ((view.dropClaim key item).setTask id .none) := by
  constructor
  · intro kept otherKey otherItem hstanding
    have hclaim := hgood.held kept otherKey otherItem hstanding
    have hne : (otherKey, otherItem) ≠ (key, item) := by
      intro heq
      rw [Prod.mk.injEq] at heq
      rw [heq.1, heq.2] at hstanding
      exact hgood.alone id key item true kept htask hstanding
    exact ⟨hclaim, hne⟩
  · exact hgood.member
  · intro other otherKey otherItem landed kept hrisk
    by_cases heq : other = id
    · simp [View.setTask, heq] at hrisk
    · simp only [View.setTask, Function.update_of_ne heq] at hrisk
      exact hgood.alone other otherKey otherItem landed kept hrisk

theorem Standing.checkUnknown (hunknown : looked = true → item ∉ view.known)
    (hguard : StandingGuard view (.check id key item looked)) :
    Standing devices (view.setTask id (.risk key item false)) := by
  have hfree : (key, item) ∉ view.claims := fun hclaim =>
    hunknown (hguard hclaim).1 (hguard hclaim).2
  constructor
  · exact hgood.held
  · exact hgood.member
  · intro other otherKey otherItem landed kept hrisk hstanding
    by_cases heq : other = id
    · simp only [View.setTask, heq, Function.update_self, Task.risk.injEq] at hrisk
      rw [← hrisk.1, ← hrisk.2.1] at hstanding
      exact hfree (hgood.held kept key item hstanding)
    · simp only [View.setTask, Function.update_of_ne heq] at hrisk
      exact hgood.alone other otherKey otherItem landed kept hrisk hstanding

theorem Standing.claimCounted (hkey : key ∈ devices)
    (hguard : StandingGuard view (.claim id key item true true)) :
    Standing devices (((view.addClaim key item).count id key item).setTask id
        (.owes key item)) := by
  constructor
  · intro kept otherKey otherItem hstanding
    rcases hstanding with hnew | hold
    · exact Or.inl (Prod.mk.inj hnew).2
    · exact Or.inr (hgood.held kept otherKey otherItem hold)
  · intro kept otherKey otherItem hstanding
    rcases hstanding with hnew | hold
    · rw [(Prod.mk.inj (Prod.mk.inj hnew).2).1]
      exact hkey
    · exact hgood.member kept otherKey otherItem hold
  · intro other otherKey otherItem landed kept hrisk hstanding
    by_cases heq : other = id
    · simp [View.setTask, heq] at hrisk
    · simp only [View.setTask, Function.update_of_ne heq] at hrisk
      rcases hstanding with hnew | hold
      · have hpair := Prod.mk.inj (Prod.mk.inj hnew).2
        rw [hpair.1, hpair.2] at hrisk
        exact hguard other landed heq hrisk
      · exact hgood.alone other otherKey otherItem landed kept hrisk hold

/-- Every move that meets its guard keeps the counted claims standing. -/
theorem Standing.move {next : View Key Item Id} {label : Label Key Item Id}
    (hguard : StandingGuard view label) (hmove : Move devices view label next) :
    Standing devices next := by
  have hheld := hgood.held
  have hmember := hgood.member
  have halone := hgood.alone
  cases hmove with
  | rest | checkKnown => exact hgood
  | list | overrun => exact ⟨hheld, hmember, halone⟩
  | outside claims hsame =>
    refine ⟨?_, hmember, halone⟩
    intro id key item hstanding
    exact (hsame key (hmember id key item hstanding) item).mpr (hheld id key item hstanding)
  | takeBack id key item htask => exact hgood.takeBack htask
  | checkUnknown id key item looked htask hbuilt hunknown hkey =>
    exact hgood.checkUnknown hunknown hguard
  | claimCounted id key item htask hkey =>
    exact hgood.claimCounted hkey hguard
  | _ =>
    simp only [View.setTask, View.addClaim, View.dropClaim, View.discount,
      View.learn, View.forget, View.reset] at *
    constructor
    all_goals
      simp only [Function.update_apply, Set.mem_sdiff, Set.mem_insert_iff,
        Set.mem_singleton_iff, Set.mem_ofPred_eq, Prod.mk.injEq]
      grind

end

/-! ## A cache at rest agrees with the store -/

def Firm (view : View Key Item Id) (key : Key) (item : Item) : Prop :=
  (key, item) ∈ view.claims ∧ ∀ id landed, view.tasks id ≠ .risk key item landed

/-- What the coherence of the cache needs of a step.  Tasks of one key on one
item do not check while another has a claim it has neither recorded nor taken
back, and do not claim while another is at risk.  A task that does not look
its item up does not hold it.  An item is recorded only
while its claim is there and no removal has looked past the key.  Nobody
counts a claim on trial, and only an item nobody recorded is overrun. -/
def CoherentGuard (view : View Key Item Id) : Label Key Item Id → Prop
  | .quiet => True
  | .check id key item looked =>
    (∀ other, other ≠ id → view.tasks other ≠ .risk key item true ∧
        view.tasks other ≠ .owes key item) ∧
      ((key, item) ∈ view.claims → looked = true)
  | .claim id key item _ _ =>
    ∀ other landed, other ≠ id → view.tasks other ≠ .risk key item landed
  | .record _ key item =>
    (key, item) ∈ view.claims ∧ ∀ other unseen,
        view.tasks other = .removing item unseen → key ∈ unseen
  | .look key item =>
    (key, item) ∈ view.claims → ∀ other, view.tasks other ≠ .risk key item true
  | .list key page =>
    ∀ item ∈ page, ∀ other, view.tasks other ≠ .risk key item true
  | .overrun item => item ∉ view.known

structure Coherent (devices : Set Key) (view : View Key Item Id) : Prop where
  recorded : ∀ key item, key ∈ devices → (key, item) ∉ view.unread → (key, item) ∈ view.claims →
      item ∈ view.known ∨ (∃ id, view.tasks id = .owes key item) ∨
        ∃ id landed, view.tasks id = .risk key item landed
  backed : ∀ item, item ∈ view.known → (∃ key ∈ devices, Firm view key item) ∨
      ∃ id unseen, view.tasks id = .removing item unseen
  -- A claim made behind the back of a removal is not settled yet.
  seen : ∀ id item unseen key, view.tasks id = .removing item unseen →
    key ∈ devices → key ∉ unseen → (key, item) ∈ view.claims →
      ∃ other, view.tasks other = .risk key item true ∨ view.tasks other = .owes key item
  -- While a task is at risk, a claim that is there is one on trial.
  landed : ∀ id key item landed, key ∈ devices →
    view.tasks id = .risk key item landed → (key, item) ∈ view.claims →
      ∃ other, view.tasks other = .risk key item true
  aloneOnTrial : ∀ id other key item landed, view.tasks id = .risk key item true → other ≠ id →
      view.tasks other ≠ .risk key item landed
  aloneOwing : ∀ id other key item landed, view.tasks id = .owes key item →
      view.tasks other ≠ .risk key item landed

omit [DecidableEq Id] in
/-- A claim which is seen while no task has it on trial is firm. -/
theorem Coherent.firm (hgood : Coherent devices view) (hkey : key ∈ devices)
    (hclaim : (key, item) ∈ view.claims) (hfree : ∀ other, view.tasks other ≠ .risk key item true) :
    Firm view key item := by
  refine ⟨hclaim, ?_⟩
  intro id landed hrisk
  obtain ⟨other, hother⟩ :=
    hgood.landed id key item landed hkey hrisk hclaim
  exact hfree other hother

omit [DecidableEq Id] in
/-- A key whose task finds the item unknown holds no claim on it. -/
theorem Coherent.not_claimed_of_unknown (hgood : Coherent devices view) (hkey : key ∈ devices)
    (htask : view.tasks id = .none) (hbuilt : view.unread = ∅)
    (hunknown : looked = true → item ∉ view.known)
    (hguard : CoherentGuard view (.check id key item looked)) : (key, item) ∉ view.claims := by
  intro hclaim
  obtain ⟨hothers, hlooked⟩ := hguard
  have hfree : ∀ other, view.tasks other ≠ .risk key item true := by
    intro other hother
    have hne : other ≠ id := by
      intro heq
      rw [heq, htask] at hother
      cases hother
    exact (hothers other hne).1 hother
  have hunread : (key, item) ∉ view.unread := by simp [hbuilt]
  rcases hgood.recorded key item hkey hunread hclaim with
    hknown | howes | hrisk
  · exact hunknown (hlooked hclaim) hknown
  · obtain ⟨other, hother⟩ := howes
    have hne : other ≠ id := by
      intro heq
      rw [heq, htask] at hother
      cases hother
    exact (hothers other hne).2 hother
  · obtain ⟨other, landed, hother⟩ := hrisk
    exact (hgood.firm hkey hclaim hfree).2 other landed hother

/-! ### The moves one by one

In each lemma the fields of `Coherent` follow from those before the move by
first-order reasoning about which task changed. -/

section Moves

variable {view : View Key Item Id} {id : Id} {key : Key} {item : Item} {unseen : List Key}
variable {unread : Set (Key × Item)}

section

variable (hgood : Coherent devices view)
include hgood

theorem Coherent.leave (htask : view.tasks id = .risk key item false) :
    Coherent devices (view.setTask id .none) := by
  cases hgood
  constructor
  all_goals
    simp only [View.setTask, Firm, Function.update_apply] at *
    grind

theorem Coherent.takeBack (htask : view.tasks id = .risk key item true) :
    Coherent devices ((view.dropClaim key item).setTask id .none) := by
  cases hgood
  constructor
  all_goals
    simp only [View.setTask, View.dropClaim, Firm, Function.update_apply,
      Set.mem_sdiff, Set.mem_singleton_iff, Prod.mk.injEq] at *
    grind

theorem Coherent.plan (htask : view.tasks id = .none) (hunseen : ∀ key ∈ devices, key ∈ unseen) :
    Coherent devices (view.setTask id (.removing item unseen)) := by
  cases hgood
  constructor
  all_goals
    simp only [View.setTask, Firm, Function.update_apply] at *
    grind

omit [DecidableEq Id] in
theorem Coherent.delete (htask : view.tasks id = .removing item unseen) :
    Coherent devices ((view.dropClaim key item).discount key item) := by
  cases hgood
  constructor
  all_goals
    simp only [View.discount, View.dropClaim, Firm, Set.mem_sdiff,
      Set.mem_singleton_iff, Prod.mk.injEq] at *
    grind

theorem Coherent.drop (htask : view.tasks id = .removing item []) :
    Coherent devices ((view.forget item).setTask id .none) := by
  cases hgood
  constructor
  all_goals
    simp only [View.setTask, View.forget, Firm, Function.update_apply,
      Set.mem_sdiff, Set.mem_singleton_iff] at *
    grind

theorem Coherent.claimKept (htask : view.tasks id = .none) {kept counted : Bool}
    (hguard : CoherentGuard view (.claim id key item kept counted)) :
    Coherent devices ((view.addClaim key item).setTask id (.owes key item)) := by
  cases hgood
  constructor
  all_goals
    simp only [CoherentGuard, View.setTask, View.addClaim, Firm,
      Function.update_apply, Set.mem_insert_iff, Prod.mk.injEq] at *
    grind

theorem Coherent.claimOnTrial (htask : view.tasks id = .risk key item false) {kept counted : Bool}
    (hguard : CoherentGuard view (.claim id key item kept counted)) :
    Coherent devices ((view.addClaim key item).setTask id (.risk key item true)) := by
  cases hgood
  constructor
  all_goals
    simp only [CoherentGuard, View.setTask, View.addClaim, Firm,
      Function.update_apply, Set.mem_insert_iff, Prod.mk.injEq] at *
    grind

theorem Coherent.checkUnknown (hkey : key ∈ devices) (htask : view.tasks id = .none)
    (hbuilt : view.unread = ∅) (hunknown : looked = true → item ∉ view.known)
    (hguard : CoherentGuard view (.check id key item looked)) :
    Coherent devices (view.setTask id (.risk key item false)) := by
  have hfree :=
    hgood.not_claimed_of_unknown hkey htask hbuilt hunknown hguard
  cases hgood
  constructor
  all_goals
    simp only [CoherentGuard, View.setTask, Firm, Function.update_apply] at *
    grind

theorem Coherent.record (htask : view.tasks id = .owes key item ∨
      view.tasks id = .risk key item true) (hkey : key ∈ devices)
    (hguard : CoherentGuard view (.record id key item)) :
    Coherent devices ((view.learn item).setTask id .none) := by
  obtain ⟨hrecorded, hbacked, hseen, hlanded, htrial, howing⟩ := hgood
  obtain ⟨hclaim, hpast⟩ := hguard
  -- The claim being recorded is firm: its own task is done with it and no
  -- other task of the key is at risk.
  have hothers : ∀ other landed, other ≠ id → view.tasks other ≠ .risk key item landed := by
    intro other landed hne
    rcases htask with htask | htask
    · exact howing id other key item landed htask
    · exact htrial id other key item landed htask hne
  constructor
  all_goals
    simp only [View.setTask, View.learn, Firm, Function.update_apply, Set.mem_insert_iff] at *
    rcases htask with htask | htask
    all_goals grind

theorem Coherent.lookAbsent (htask : view.tasks id = .removing item (key :: unseen))
    (habsent : (key, item) ∉ view.claims) :
    Coherent devices (view.setTask id (.removing item unseen)) := by
  cases hgood
  constructor
  all_goals
    simp only [View.setTask, Firm, Function.update_apply] at *
    grind

theorem Coherent.lookPresent (htask : view.tasks id = .removing item (key :: unseen))
    (hpresent : (key, item) ∈ view.claims) (hkey : key ∈ devices)
    (hguard : CoherentGuard view (.look key item)) : Coherent devices (view.setTask id .none) := by
  have hfirm := hgood.firm hkey hpresent (hguard hpresent)
  cases hgood
  constructor
  all_goals
    simp only [View.setTask, Firm, Function.update_apply] at *
    grind

omit [DecidableEq Id] in
theorem Coherent.list {page : List Item} (hkey : key ∈ devices)
    (hpage : ∀ item ∈ page, (key, item) ∈ view.claims)
    (hunread : ∀ pair ∈ view.unread, pair.1 ∈ devices →
      pair ∈ view.claims → pair ∈ unread ∨ pair.2 ∈ page)
    (hguard : CoherentGuard view (.list key page)) : Coherent devices (view.read page unread) := by
  constructor
  · intro other item hother hread hclaim
    by_cases hbefore : (other, item) ∈ view.unread
    · rcases hunread (other, item) hbefore hother hclaim with hstill | hlisted
      · exact absurd hstill hread
      · exact Or.inl (Or.inr hlisted)
    · rcases hgood.recorded other item hother hbefore hclaim with
        hknown | htask
      · exact Or.inl (Or.inl hknown)
      · exact Or.inr htask
  · intro item hknown
    rcases hknown with hknown | hlisted
    · exact hgood.backed item hknown
    · have hfirm := hgood.firm hkey (hpage item hlisted) (hguard item hlisted)
      exact Or.inl ⟨key, hkey, hfirm⟩
  · exact hgood.seen
  · exact hgood.landed
  · exact hgood.aloneOnTrial
  · exact hgood.aloneOwing

theorem Coherent.abandon (htask : view.tasks id = .none ∨ ∃ item, view.tasks id = .removing item [])
    (hunread : ∀ key ∈ devices, ∀ item, (key, item) ∈ unread) :
    Coherent devices ((view.reset unread).setTask id .none) := by
  cases hgood
  constructor
  all_goals
    simp only [View.setTask, View.reset, Firm, Function.update_apply, Set.mem_empty_iff_false] at *
    grind

omit [DecidableEq Id] in
theorem Coherent.outside {claims : Set (Key × Item)}
    (hsame : ∀ key ∈ devices, ∀ item, (key, item) ∈ claims ↔ (key, item) ∈ view.claims) :
    Coherent devices { view with claims := claims } := by
  cases hgood
  constructor
  all_goals
    simp only [Firm] at *
    grind

omit [DecidableEq Id] in
theorem Coherent.overrun (hguard : CoherentGuard view (.overrun item)) :
    Coherent devices (view.forget item) := by
  have hsame : view.forget item = view := by
    simp only [View.forget]
    rw [Set.sdiff_singleton_eq_self hguard]
  rw [hsame]
  exact hgood

end

end Moves

variable {view next : View Key Item Id} {label : Label Key Item Id}

theorem Coherent.move (hgood : Coherent devices view)
    (hguard : CoherentGuard view label) (hmove : Move devices view label next) :
    Coherent devices next := by
  cases hmove with
  | rest | checkKnown => exact hgood
  | leave id key item htask => exact hgood.leave htask
  | takeBack id key item htask => exact hgood.takeBack htask
  | plan id item unseen htask hunseen => exact hgood.plan htask hunseen
  | delete id key item unseen htask => exact hgood.delete htask
  | drop id item htask => exact hgood.drop htask
  | outside claims hsame => exact hgood.outside hsame
  | checkUnknown id key item looked htask hbuilt hunknown hkey =>
    exact hgood.checkUnknown hkey htask hbuilt hunknown hguard
  | claimKept id key item htask => exact hgood.claimKept htask hguard
  | claimCounted id key item htask =>
    -- Which claims are counted plays no part in coherence.
    have hkept := hgood.claimKept htask hguard
    exact ⟨hkept.recorded, hkept.backed, hkept.seen, hkept.landed,
      hkept.aloneOnTrial, hkept.aloneOwing⟩
  | claimOnTrial id key item htask =>
    exact hgood.claimOnTrial htask hguard
  | record id key item htask hkey =>
    exact hgood.record htask hkey hguard
  | lookAbsent id key item unseen htask habsent =>
    exact hgood.lookAbsent htask habsent
  | lookPresent id key item unseen htask hpresent hkey =>
    exact hgood.lookPresent htask hpresent hkey hguard
  | list key page unread hkey hpage hunread =>
    exact hgood.list hkey hpage hunread hguard
  | abandon id unread htask _ hunread => exact hgood.abandon htask hunread
  | overrun item => exact hgood.overrun hguard

/-- What a kept claim needs when it is made: the task is `covered`, or the item
is in the cache and no removal has looked past the key.  No other task owes
the same claim. -/
def BackedGuard (covered : Set Id) (view : View Key Item Id) : Label Key Item Id → Prop
  | .claim id key item true _ =>
    (∀ other, other ≠ id → view.tasks other ≠ .owes key item) ∧ (id ∈ covered ∨ item ∈ view.known ∧
        ∀ other unseen, view.tasks other = .removing item unseen → key ∈ unseen)
  | _ => True

/-- A claim that is owed to the cache is covered by its task, or its item stays
in the cache until it is recorded or deleted. -/
def Backed (covered : Set Id) (view : View Key Item Id) : Prop :=
  ∀ id key item, view.tasks id = .owes key item → id ∈ covered ∨ ((key, item) ∈ view.claims →
      item ∈ view.known ∧ ∀ other unseen, view.tasks other = .removing item unseen → key ∈ unseen)

theorem Backed.move {covered : Set Id} (hbacked : Backed covered view)
    (hgood : Coherent devices view) (hdevice : ∀ id key item, view.tasks id = .owes key item →
      key ∈ devices) (hguard : CoherentGuard view label)
    (hcover : BackedGuard covered view label)
    (hmove : Move devices view label next) : Backed covered next := by
  have howing := hgood.aloneOwing
  unfold Backed at *
  cases hmove with
  | rest | checkKnown => exact hbacked
  | overrun item =>
    simp only [View.forget, CoherentGuard, Set.mem_sdiff, Set.mem_singleton_iff] at *
    grind
  | outside claims hsame =>
    grind
  | list key page unread =>
    simp only [View.read, Set.mem_union] at *
    grind
  | _ =>
    simp only [BackedGuard, View.setTask, View.addClaim, View.dropClaim,
      View.count, View.discount, View.learn, View.forget, View.reset,
      Function.update_apply, Set.mem_sdiff, Set.mem_insert_iff,
      Set.mem_singleton_iff, Prod.mk.injEq] at *
    grind

/-! ## What a move does to the cache and to the claims -/

theorem Move.known_subset (hmove : Move devices view label next) (hknown : item ∈ next.known) :
    item ∈ view.known ∨ (∃ id key, label = .record id key item) ∨
      ∃ key ∈ devices, (key, item) ∈ view.claims ∧ ∃ page, label = .list key page := by
  cases hmove with
  | record id key recorded htask hkey =>
    rcases hknown with heq | hold
    · exact Or.inr (Or.inl ⟨id, key, by rw [heq]⟩)
    · exact Or.inl hold
  | list key page unread hkey hpage hunread =>
    rcases hknown with hold | hnew
    · exact Or.inl hold
    · exact Or.inr (Or.inr ⟨key, hkey, hpage item hnew, page, rfl⟩)
  | drop | overrun => exact Or.inl hknown.1
  | abandon => exact absurd hknown (Set.notMem_empty item)
  | _ => exact Or.inl hknown

theorem Move.claims_subset (hmove : Move devices view label next) (hkey : key ∈ devices)
    (hclaim : (key, item) ∈ next.claims) :
    (key, item) ∈ view.claims ∨ ∃ id kept counted, label = .claim id key item kept counted := by
  cases hmove with
  | claimKept id owner claimed | claimCounted id owner claimed
  | claimOnTrial id owner claimed =>
    rcases hclaim with heq | hold
    · rw [(Prod.mk.inj heq).1, (Prod.mk.inj heq).2]
      exact Or.inr ⟨_, _, _, rfl⟩
    · exact Or.inl hold
  | takeBack | delete => exact Or.inl hclaim.1
  | outside claims hsame => exact Or.inl ((hsame key hkey item).mp hclaim)
  | _ => exact Or.inl hclaim

end ClaimCache
end Wildbloom
