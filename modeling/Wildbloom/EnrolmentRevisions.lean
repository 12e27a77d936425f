import Wildbloom.EnrolmentModel
import Mathlib.Tactic

/-!
# Revisions of enrolled policies

No two policies are written with one id and one revision, so that a coordinator
never refuses what it loads as a rollback.

The invariant ties what was written to the history.  While a run signs, each
policy ever written is in the history it has in memory, but for one whose
record comes next; between runs it is in the history on disk, unless that can
no longer be read.
-/

namespace Wildbloom
namespace Enrolment

open Runs

variable {Name : Type}

/-- No run is interrupted after it replaced a policy file and before anything
of the record was appended. -/
def RecordedStep (state : State Name) : Action Name → Prop
  | .interrupt left => ∀ run, state.run = some run →
      (∀ record todo, run.pc = .write record todo → left ≠ .all) ∧
      (∀ record todo, run.pc = .record record todo → left ≠ .nothing)
  | _ => True

/-! ## What one step of a run does -/

/-- A run reads until it has the history; then it has a policy to write, one
to record, or neither. -/
inductive Phase (Name : Type)
  | reading
  | idle
  | write (record : HistoryRecord Name)
  | record (record : HistoryRecord Name)

def Pc.phase : Pc Name → Phase Name
  | .arrivals _ => .reading
  | .verdicts _ _ | .losses _ | .sign _ => .idle
  | .write row _ => .write row
  | .record row _ => .record row

def Effect.Minor : Effect Name → Prop
  | .none | .ledger _ => True
  | .file _ | .history _ => False

def nextRevision (history : List (HistoryRecord Name)) (id : PolicyId) : ℕ :=
  ((lastRecord history id).map (·.revision)).getD 0 + 1

structure HistoryRecord.Fits (record : HistoryRecord Name) : Prop where
  id : record.id = record.event.policy.id
  revision : record.revision = record.event.policy.revision

variable (disk : Disk Name) (run : Run Name)

inductive Run.Move : Effect Name → Option (Run Name) → Prop
  | stop (hphase : run.pc.phase = .reading ∨ run.pc.phase = .idle) : Move .none none
  | look {effect : Effect Name} {after : Run Name} (hminor : effect.Minor)
      (hphase : run.pc.phase = .reading) (hafter : after.pc.phase = .reading) :
      Move effect (some after)
  | read {after : Run Name} (hphase : run.pc.phase = .reading)
      (hread : disk.history.read = some after.history) (hafter : after.pc.phase = .idle) :
      Move .none (some after)
  | work {effect : Effect Name} {after : Run Name} (hminor : effect.Minor)
      (hphase : run.pc.phase = .idle) (hsame : after.history = run.history)
      (hafter : after.pc.phase = .idle) : Move effect (some after)
  | sign {after : Run Name} {record : HistoryRecord Name}
      (hphase : run.pc.phase = .idle) (hsame : after.history = run.history)
      (hafter : after.pc.phase = .write record) (hfits : record.Fits)
      (hnext : record.revision = nextRevision run.history record.id) : Move .none (some after)
  | write {after : Run Name} {record : HistoryRecord Name}
      (hphase : run.pc.phase = .write record) (hsame : after.history = run.history)
      (hafter : after.pc.phase = .record record) : Move (.file record.event) (some after)
  | record {after : Run Name} {record : HistoryRecord Name}
      (hphase : run.pc.phase = .record record) (hsame : after.history = run.history ++ [record])
      (hafter : after.pc.phase = .idle) : Move (.history record) (some after)

variable {allows : Profile → Name → Bool} {disk run} {reply : Reply}
variable {history : List (HistoryRecord Name)} {record : HistoryRecord Name} {left : Left}

theorem Run.move_next [DecidableEq Name] :
    run.Move disk (run.next allows disk reply).1 (run.next allows disk reply).2 := by
  unfold Run.next
  split
  case h_1 hpc =>
    have hphase : run.pc.phase = .reading := by rw [hpc]; rfl
    unfold Run.readHistory
    split
    · exact .stop (Or.inl hphase)
    next history hread =>
      refine .read hphase hread ?_
      split <;> rfl
  case h_2 hash size uploaded todo hpc =>
    have hphase : run.pc.phase = .reading := by rw [hpc]; rfl
    unfold Run.arrive
    split
    · split
      · exact .look trivial hphase rfl
      · exact .stop (Or.inl hphase)
    · exact .look trivial hphase rfl
  case h_3 hpc => exact .work trivial (by rw [hpc]; rfl) rfl rfl
  case h_4 verified hash todo hpc =>
    have hphase : run.pc.phase = .idle := by rw [hpc]; rfl
    unfold Run.judge
    split
    · exact .stop (Or.inr hphase)
    · dsimp only
      split <;> exact .work trivial hphase rfl rfl
  case h_5 hpc =>
    have hphase : run.pc.phase = .idle := by rw [hpc]; rfl
    cases desiredPolicies run.config run.ledger run.history with
    | none => exact .stop (Or.inr hphase)
    | some desired => exact .work trivial hphase rfl rfl
  case h_6 hash todo hpc =>
    have hphase : run.pc.phase = .idle := by rw [hpc]; rfl
    unfold Run.missing
    split
    · exact .stop (Or.inr hphase)
    · split <;> exact .work trivial hphase rfl rfl
  case h_7 hpc => exact .stop (Or.inr (by rw [hpc]; rfl))
  case h_8 id spec todo hpc =>
    have hphase : run.pc.phase = .idle := by rw [hpc]; rfl
    unfold Run.sign
    split
    · exact .work trivial hphase rfl rfl
    · split
      · split
        · exact .stop (Or.inr hphase)
        · dsimp only
          split
          · exact .sign hphase rfl rfl ⟨rfl, rfl⟩ rfl
          · exact .stop (Or.inr hphase)
      · exact .stop (Or.inr hphase)
  case h_9 record todo hpc => exact .write (by rw [hpc]; rfl) rfl rfl
  case h_10 record todo hpc => exact .record (by rw [hpc]; rfl) rfl rfl

/-! ## Histories -/

theorem lastRecord_append (history : List (HistoryRecord Name))
    (record : HistoryRecord Name) (id : PolicyId) :
    lastRecord (history ++ [record]) id =
      if id = record.id then some record else lastRecord history id := by
  unfold lastRecord recordsOf
  rw [List.filter_append]
  by_cases hid : id = record.id
  · simp [hid]
  · rw [if_neg hid, List.filter_cons_of_neg (by simpa using Ne.symm hid)]
    simp

/-- Records fit their events, and the next revision is above all there are. -/
structure Rising (history : List (HistoryRecord Name)) : Prop where
  fits : ∀ record ∈ history, record.Fits
  below : ∀ record ∈ history, record.revision < nextRevision history record.id

theorem Rising.append (hrising : Rising history) (hfits : record.Fits)
    (hnext : record.revision = nextRevision history record.id) : Rising (history ++ [record]) := by
  have hgrows : ∀ id, nextRevision (history ++ [record]) id =
      if id = record.id then record.revision + 1
      else nextRevision history id := by
    intro id
    unfold nextRevision
    rw [lastRecord_append]
    split <;> rfl
  constructor
  · intro found hfound
    rcases List.mem_append.mp hfound with hold | hnew
    · exact hrising.fits found hold
    · rw [List.mem_singleton.mp hnew]
      exact hfits
  · intro found hfound
    rw [hgrows]
    rcases List.mem_append.mp hfound with hold | hnew
    · have hbelow := hrising.below found hold
      split
      next hid =>
        rw [hid, ← hnext] at hbelow
        omega
      · exact hbelow
    · rw [List.mem_singleton.mp hnew, if_pos rfl]
      omega

/-- Every policy written is recorded, but for the one that is next. -/
def Covers (history : List (HistoryRecord Name)) (flying : Option (Event Name))
    (written : List (Event Name)) : Prop :=
  ∀ event ∈ written, (∃ record ∈ history, record.event = event) ∨ flying = some event

theorem Covers.append {written : List (Event Name)}
    (hcovers : Covers history (some record.event) written) :
    Covers (history ++ [record]) none written := by
  intro event hevent
  rcases hcovers event hevent with ⟨found, hfound, heq⟩ | heq
  · exact Or.inl ⟨found, List.mem_append_left _ hfound, heq⟩
  · exact Or.inl ⟨record, by simp, Option.some.inj heq⟩

/-! ## What is written and what is recorded -/

def Phase.flying : Phase Name → Option (Event Name)
  | .record row => some row.event
  | .reading | .idle | .write _ => none

def Phase.pending : Phase Name → Option (HistoryRecord Name)
  | .write row | .record row => some row
  | .reading | .idle => none

/-- A history that can be read covers what was written. -/
def Disk.Sound (disk : Disk Name) : Prop :=
  disk.history.tail ≠ .torn → Rising disk.history.entries ∧
      Covers disk.history.entries none disk.written

/-- A run that has read the history knows of everything written. -/
structure Run.Sound (disk : Disk Name) (run : Run Name) : Prop where
  rising : Rising run.history
  same : disk.history.tail ≠ .torn → run.history = disk.history.entries
  covers : Covers run.history run.pc.phase.flying disk.written
  pending : ∀ record, run.pc.phase.pending = some record →
    record.Fits ∧ record.revision = nextRevision run.history record.id

structure Tied (disk : Disk Name) (run : Option (Run Name)) : Prop where
  free : (∀ held, run = some held → held.pc.phase = .reading) → disk.Sound
  busy : ∀ held, run = some held → held.pc.phase ≠ .reading → held.Sound disk

section Tie

variable {later : Disk Name} {after : Run Name} {effect : Effect Name}

variable {record : HistoryRecord Name} {next : Option (Run Name)}

theorem tied_of_reading (hsound : disk.Sound)
    (hreading : run.pc.phase = .reading) : Tied disk (some run) :=
  ⟨fun _ => hsound, fun _ hbusy hphase =>
    absurd (Option.some.inj hbusy ▸ hreading) hphase⟩

theorem tied_of_busy (hphase : run.pc.phase ≠ .reading)
    (hsound : run.Sound disk) : Tied disk (some run) :=
  ⟨fun hreading => absurd (hreading run rfl) hphase,
    fun _ hbusy _ => Option.some.inj hbusy ▸ hsound⟩

theorem tied_of_none (hsound : disk.Sound) : Tied disk none :=
  ⟨fun _ => hsound, fun _ hbusy => by cases hbusy⟩

structure Disk.Agree (disk later : Disk Name) : Prop where
  history : later.history = disk.history
  policies : later.policies = disk.policies
  coordinators : later.coordinators = disk.coordinators
  written : later.written = disk.written

theorem agree_apply (hminor : effect.Minor) : disk.Agree (disk.apply effect) := by
  cases effect with
  | none | ledger => exact ⟨rfl, rfl, rfl, rfl⟩
  | file | history => exact hminor.elim

theorem agree_cut (hminor : effect.Minor) (left : Left) : disk.Agree (disk.cut left effect) := by
  cases effect with
  | none | ledger => exact ⟨rfl, rfl, rfl, rfl⟩
  | file | history => exact hminor.elim

theorem Disk.Sound.agree (hsound : disk.Sound) (hagree : disk.Agree later) : later.Sound := by
  unfold Disk.Sound
  rw [hagree.history, hagree.written]
  exact hsound

section

variable (hsound : run.Sound disk)
include hsound

theorem Run.Sound.leaves (hflying : run.pc.phase.flying = none) : disk.Sound := by
  intro hwhole
  have hcovers := hsound.covers
  rw [← hsound.same hwhole]
  rw [hflying] at hcovers
  exact ⟨hsound.rising, hcovers⟩

theorem Run.Sound.step (hagree : disk.Agree later) (hsame : after.history = run.history)
    (hbefore : run.pc.phase.flying = none) (hafter : after.pc.phase.flying = none)
    (hpending : ∀ record, after.pc.phase.pending = some record →
      record.Fits ∧ record.revision = nextRevision run.history record.id) : after.Sound later := by
  have hcovers := hsound.covers
  rw [hbefore] at hcovers
  constructor
  · rw [hsame]
    exact hsound.rising
  · rw [hsame, hagree.history]
    exact hsound.same
  · rw [hsame, hafter, hagree.written]
    exact hcovers
  · rw [hsame]
    exact hpending

theorem Run.Sound.write (hphase : run.pc.phase = .write record)
    (hsame : after.history = run.history) (hafter : after.pc.phase = .record record) :
    after.Sound (disk.writePolicy record.event) := by
  constructor
  · rw [hsame]
    exact hsound.rising
  · rw [hsame]
    exact hsound.same
  · rw [hsame, hafter]
    intro event hevent
    have hcovers := hsound.covers
    rw [hphase] at hcovers
    rcases List.mem_cons.mp hevent with hnew | hold
    · exact Or.inr (congrArg some hnew.symm)
    · rcases hcovers event hold with hknown | hflying
      · exact Or.inl hknown
      · cases hflying
  · rw [hsame, hafter]
    intro found hfound
    exact hsound.pending found (by rw [hphase]; exact hfound)

/-- The record of the policy written last completes the history. -/
theorem Run.Sound.rising_append (hphase : run.pc.phase = .record record) :
    Rising (run.history ++ [record]) ∧ Covers (run.history ++ [record]) none disk.written := by
  obtain ⟨hfits, hnext⟩ := hsound.pending record (by rw [hphase]; rfl)
  have hcovers := hsound.covers
  rw [hphase] at hcovers
  exact ⟨hsound.rising.append hfits hnext, hcovers.append⟩

theorem Run.Sound.recorded (hphase : run.pc.phase = .record record)
    (hsame : after.history = run.history ++ [record]) (hafter : after.pc.phase = .idle) :
    after.Sound { disk with history := disk.history.append record } := by
  obtain ⟨hrising, hcovers⟩ := hsound.rising_append hphase
  constructor
  · rw [hsame]
    exact hrising
  · intro hwhole
    unfold Log.append at hwhole ⊢
    cases htail : disk.history.tail with
    | whole =>
      rw [hsame, hsound.same (by rw [htail]; decide)]
    | unended | torn => simp [htail] at hwhole
  · rw [hsame, hafter]
    exact hcovers
  · rw [hafter]
    intro found hfound
    cases hfound

theorem Run.Sound.cut (hphase : run.pc.phase = .record record) (hleft : left ≠ .nothing) :
    Disk.Sound { disk with history := disk.history.cut record left } := by
  obtain ⟨hrising, hcovers⟩ := hsound.rising_append hphase
  intro hwhole
  unfold Log.cut at hwhole ⊢
  cases left with
  | nothing => exact absurd rfl hleft
  | part => exact absurd rfl hwhole
  | all =>
    cases htail : disk.history.tail with
    | whole =>
      rw [hsound.same (by rw [htail]; decide)] at hrising hcovers
      exact ⟨hrising, hcovers⟩
    | unended | torn => simp [htail] at hwhole

end

theorem Run.Sound.read (hsound : disk.Sound) (hread : disk.history.read = some run.history)
    (hphase : run.pc.phase = .idle) : run.Sound disk := by
  unfold Log.read at hread
  rw [Option.ite_none_left_eq_some, Option.some.injEq] at hread
  obtain ⟨hwhole, hentries⟩ := hread
  obtain ⟨hrising, hcovers⟩ := hsound hwhole
  rw [hentries] at hrising hcovers
  constructor
  · exact hrising
  · exact fun _ => hentries.symm
  · rw [hphase]
    exact hcovers
  · rw [hphase]
    intro record hrecord
    cases hrecord

section

variable (htied : Tied disk (some run))
include htied

theorem Tied.sound (hphase : run.pc.phase = .reading) : disk.Sound :=
  htied.free fun _ hbusy => Option.some.inj hbusy ▸ hphase

/-- A run that stops before it writes, or after it recorded, leaves the disk
sound. -/
theorem Tied.leaves (hflying : run.pc.phase.flying = none) : disk.Sound := by
  by_cases hphase : run.pc.phase = .reading
  · exact htied.sound hphase
  · exact (htied.busy run rfl hphase).leaves hflying

theorem Tied.advance (hmove : run.Move disk effect next) : Tied (disk.apply effect) next := by
  have hbusy : run.pc.phase ≠ .reading → run.Sound disk :=
    htied.busy run rfl
  cases hmove with
  | stop hphase =>
    apply tied_of_none
    apply htied.leaves
    rcases hphase with h | h <;> rw [h] <;> rfl
  | look hminor hphase hafter =>
    exact tied_of_reading ((htied.sound hphase).agree (agree_apply hminor)) hafter
  | read hphase hread hafter =>
    exact tied_of_busy (by rw [hafter]; rintro ⟨⟩)
      (Run.Sound.read (htied.sound hphase) hread hafter)
  | work hminor hphase hsame hafter =>
    apply tied_of_busy (by rw [hafter]; rintro ⟨⟩)
    apply (hbusy (by rw [hphase]; rintro ⟨⟩)).step
      (agree_apply hminor) hsame
    · rw [hphase]
      rfl
    · rw [hafter]
      rfl
    · rw [hafter]
      intro record hrecord
      cases hrecord
  | sign hphase hsame hafter hfits hnext =>
    apply tied_of_busy (by rw [hafter]; rintro ⟨⟩)
    apply (hbusy (by rw [hphase]; rintro ⟨⟩)).step
      ⟨rfl, rfl, rfl, rfl⟩ hsame
    · rw [hphase]
      rfl
    · rw [hafter]
      rfl
    · rw [hafter]
      intro record hrecord
      rw [← Option.some.inj hrecord]
      exact ⟨hfits, hnext⟩
  | write hphase hsame hafter =>
    exact tied_of_busy (by rw [hafter]; rintro ⟨⟩)
      ((hbusy (by rw [hphase]; rintro ⟨⟩)).write hphase hsame hafter)
  | record hphase hsame hafter =>
    exact tied_of_busy (by rw [hafter]; rintro ⟨⟩)
      ((hbusy (by rw [hphase]; rintro ⟨⟩)).recorded hphase hsame
        hafter)

theorem Tied.interrupt (hmove : run.Move disk effect next)
    (hwrite : ∀ record, run.pc.phase = .write record → left ≠ .all)
    (hrecord : ∀ record, run.pc.phase = .record record → left ≠ .nothing) :
    Tied (disk.cut left effect) none := by
  apply tied_of_none
  have hquiet : effect.Minor → run.pc.phase.flying = none →
      (disk.cut left effect).Sound := fun hminor hflying =>
    (htied.leaves hflying).agree (agree_cut hminor left)
  cases hmove with
  | stop hphase =>
    apply hquiet trivial
    rcases hphase with h | h <;> rw [h] <;> rfl
  | look hminor hphase _ | work hminor hphase _ _ => exact hquiet hminor (by rw [hphase]; rfl)
  | read hphase _ _ | sign hphase _ _ _ _ => exact hquiet trivial (by rw [hphase]; rfl)
  | write hphase _ _ =>
    simp only [Disk.cut, if_neg (hwrite _ hphase)]
    exact htied.leaves (by rw [hphase]; rfl)
  | record hphase _ _ =>
    exact (htied.busy run rfl (by rw [hphase]; rintro ⟨⟩)).cut hphase
      (hrecord _ hphase)

end

end Tie

/-! ## Files and coordinators -/

/-- Revisions tell policies apart, a file holds the newest policy of its id,
and a coordinator does not load an older one than it accepted. -/
structure Filed (disk : Disk Name) (loaded : PolicyId → Option (Event Name)) : Prop where
  unique : ∀ one ∈ disk.written, ∀ two ∈ disk.written, one.policy.id = two.policy.id →
      one.policy.revision = two.policy.revision → one = two
  latest : ∀ id event, disk.policies id = some event → event ∈ disk.written ∧ event.policy.id = id ∧
      ∀ other ∈ disk.written, other.policy.id = id → other.policy.revision ≤ event.policy.revision
  accepted : ∀ id snapshot, disk.coordinators id = some snapshot →
    snapshot.event ∈ disk.written ∧ snapshot.event.policy.id = id ∧
      snapshot.event.policy.revision = snapshot.revision
  loaded : ∀ id event, loaded id = some event → event ∈ disk.written ∧ event.policy.id = id ∧
      ∀ snapshot, disk.coordinators id = some snapshot → snapshot.revision ≤ event.policy.revision

section Files

variable {loaded : PolicyId → Option (Event Name)} {effect : Effect Name}
variable {event : Event Name} {next : Option (Run Name)}

theorem Filed.agree {later : Disk Name} (hfiled : Filed disk loaded)
    (hagree : disk.Agree later) : Filed later loaded := by
  constructor
  · rw [hagree.written]
    exact hfiled.unique
  · rw [hagree.written, hagree.policies]
    exact hfiled.latest
  · rw [hagree.written, hagree.coordinators]
    exact hfiled.accepted
  · rw [hagree.written, hagree.coordinators]
    exact hfiled.loaded

theorem Run.Sound.newer (hsound : run.Sound disk) (hphase : run.pc.phase = .write record) :
    ∀ event ∈ disk.written, event.policy.id = record.event.policy.id →
      event.policy.revision < record.event.policy.revision := by
  intro event hevent hid
  obtain ⟨hfits, hnext⟩ := hsound.pending record (by rw [hphase]; rfl)
  have hcovers := hsound.covers event hevent
  rw [hphase] at hcovers
  rcases hcovers with ⟨found, hfound, heq⟩ | hflying
  · subst heq
    have hbelow := hsound.rising.below found hfound
    have hold := hsound.rising.fits found hfound
    have hsame : found.id = record.id := by
      rw [hold.id, hid, hfits.id]
    rw [hsame, ← hnext, hold.revision, hfits.revision] at hbelow
    exact hbelow
  · cases hflying

section

variable (hfiled : Filed disk loaded)
include hfiled

theorem Filed.writePolicy (hnewer : ∀ other ∈ disk.written, other.policy.id = event.policy.id →
      other.policy.revision < event.policy.revision) : Filed (disk.writePolicy event) loaded := by
  constructor
  · intro one hone two htwo hid hrevision
    rcases List.mem_cons.mp hone with hleft | hleft <;>
      rcases List.mem_cons.mp htwo with hright | hright
    · rw [hleft, hright]
    · rw [hleft] at hid hrevision
      have hless := hnewer two hright hid.symm
      omega
    · rw [hright] at hid hrevision
      have hless := hnewer one hleft hid
      omega
    · exact hfiled.unique one hleft two hright hid hrevision
  · intro id found hfound
    simp only [Disk.writePolicy, Function.update_apply] at hfound
    split at hfound
    next hid =>
      rw [← Option.some.inj hfound, hid]
      refine ⟨List.mem_cons_self, rfl, ?_⟩
      intro other hother hsame
      rcases List.mem_cons.mp hother with hnew | hold
      · rw [hnew]
      · exact (hnewer other hold hsame).le
    next hne =>
      obtain ⟨hmem, hid, hmax⟩ := hfiled.latest id found hfound
      refine ⟨List.mem_cons_of_mem _ hmem, hid, ?_⟩
      intro other hother hsame
      rcases List.mem_cons.mp hother with hnew | hold
      · rw [hnew] at hsame
        exact absurd hsame.symm hne
      · exact hmax other hold hsame
  · intro id snapshot hsnapshot
    obtain ⟨hmem, hrest⟩ := hfiled.accepted id snapshot hsnapshot
    exact ⟨List.mem_cons_of_mem _ hmem, hrest⟩
  · intro id found hfound
    obtain ⟨hmem, hrest⟩ := hfiled.loaded id found hfound
    exact ⟨List.mem_cons_of_mem _ hmem, hrest⟩

theorem Filed.advance (htied : Tied disk (some run)) (hmove : run.Move disk effect next) :
    Filed (disk.apply effect) loaded := by
  cases hmove with
  | look hminor _ _ | work hminor _ _ _ => exact hfiled.agree (agree_apply hminor)
  | write hphase _ _ =>
    have hsound := htied.busy run rfl (by rw [hphase]; rintro ⟨⟩)
    exact hfiled.writePolicy (hsound.newer hphase)
  | record _ _ _ =>
    exact ⟨hfiled.unique, hfiled.latest, hfiled.accepted, hfiled.loaded⟩
  | _ => exact hfiled

theorem Filed.interrupt (htied : Tied disk (some run)) (hmove : run.Move disk effect next) :
    Filed (disk.cut left effect) loaded := by
  cases hmove with
  | look hminor _ _ | work hminor _ _ _ => exact hfiled.agree (agree_cut hminor left)
  | write hphase _ _ =>
    have hsound := htied.busy run rfl (by rw [hphase]; rintro ⟨⟩)
    simp only [Disk.cut]
    split
    · exact hfiled.writePolicy (hsound.newer hphase)
    · exact hfiled
  | record _ _ _ =>
    exact ⟨hfiled.unique, hfiled.latest, hfiled.accepted, hfiled.loaded⟩
  | _ => exact hfiled

theorem Filed.change {coordinators : PolicyId → Option (Snapshot Name)}
    (haccepted : ∀ id snapshot, coordinators id = some snapshot →
      snapshot.event ∈ disk.written ∧ snapshot.event.policy.id = id ∧
        snapshot.event.policy.revision = snapshot.revision) {next : PolicyId → Option (Event Name)}
    (hloaded : ∀ id event, next id = some event → event ∈ disk.written ∧ event.policy.id = id ∧
        ∀ snapshot, coordinators id = some snapshot → snapshot.revision ≤ event.policy.revision) :
    Filed { disk with coordinators := coordinators } next :=
  ⟨hfiled.unique, hfiled.latest, haccepted, hloaded⟩

end

variable [DecidableEq Name]

/-- What a coordinator loads is no rollback of what it accepted. -/
theorem Filed.accept_ne_rollback (hfiled : Filed disk loaded) {id : PolicyId}
    (hload : loaded id = some event) : accept (disk.coordinators id) event ≠ .error .rollback := by
  obtain ⟨hmem, hid, hnewer⟩ := hfiled.loaded id event hload
  unfold accept
  split
  · rintro ⟨⟩
  next snapshot hsnapshot =>
    obtain ⟨hold, hsame, hrevision⟩ := hfiled.accepted id snapshot hsnapshot
    have hle := hnewer snapshot hsnapshot
    have hconflict : ¬(event.policy.revision < snapshot.revision ∨
        snapshot.revision = event.policy.revision ∧ snapshot.event ≠ event) := by
      rintro (hless | ⟨heq, hne⟩)
      · omega
      · apply hne
        apply hfiled.unique _ hold _ hmem (hsame.trans hid.symm)
        rw [hrevision, heq]
    dsimp only
    rw [if_neg hconflict]
    split
    · rintro ⟨⟩
    · split <;> rintro ⟨⟩

theorem event_of_accept {snapshot : Option (Snapshot Name)}
    {after : Snapshot Name} (hsnapshot : ∀ found, snapshot = some found →
      found.event.policy.revision = found.revision)
    (haccept : accept snapshot event = .ok after) :
    after.event = event ∧ after.revision = event.policy.revision := by
  cases snapshot with
  | none =>
    cases haccept
    exact ⟨rfl, rfl⟩
  | some found =>
    simp only [accept] at haccept
    repeat' split at haccept
    next => cases haccept
    next => cases haccept
    next heq =>
      cases haccept
      refine ⟨heq, ?_⟩
      rw [← hsnapshot after rfl, heq]
    next =>
      cases haccept
      exact ⟨rfl, rfl⟩

end Files

/-! ## The invariant -/

structure Kept (state : State Name) : Prop where
  tied : Tied state.disk state.run
  filed : Filed state.disk state.loaded

theorem kept_initial : Kept (State.initial : State Name) := by
  constructor
  · apply tied_of_none
    intro _
    constructor
    · exact ⟨fun _ hrecord => (by cases hrecord), fun _ hrecord => (by cases hrecord)⟩
    · exact fun _ hevent => (by cases hevent)
  · exact ⟨fun _ hone => (by cases hone), fun _ _ hevent => (by cases hevent),
      fun _ _ hsnapshot => (by cases hsnapshot),
      fun _ _ hevent => (by cases hevent)⟩

theorem Tied.coordinators {held : Option (Run Name)} (htied : Tied disk held)
    (coordinators : PolicyId → Option (Snapshot Name)) :
    Tied { disk with coordinators := coordinators } held := by
  constructor
  · exact htied.free
  · intro busy hbusy hphase
    have hsound := htied.busy busy hbusy hphase
    exact ⟨hsound.rising, hsound.same, hsound.covers, hsound.pending⟩

variable {state after : State Name}
variable {id : PolicyId} {record : HistoryRecord Name}

section

variable (hkept : Kept state)
include hkept

theorem Kept.start [DecidableEq Name] {config : Config Name} {inventory : List (InventoryRow Name)}
    {now : ℕ} (hstart : start state config inventory now = some after) : Kept after := by
  unfold Enrolment.start at hstart
  split at hstart
  · cases hstart
  next hnone =>
    rw [Option.ite_none_right_eq_some] at hstart
    obtain ⟨-, hstart⟩ := hstart
    simp only [Option.bind_eq_some_iff, Option.map_eq_some_iff] at hstart
    obtain ⟨source, -, events, -, rfl⟩ := hstart
    have hsound : state.disk.Sound := by
      apply hkept.tied.free
      intro held hheld
      rw [hnone] at hheld
      cases hheld
    exact ⟨tied_of_reading hsound rfl, hkept.filed⟩

theorem Kept.load {event : Event Name} (hevent : state.disk.policies id = some event) :
    Kept { state with loaded := Function.update state.loaded id (some event) } := by
  refine ⟨hkept.tied, hkept.filed.change hkept.filed.accepted ?_⟩
  intro other found hfound
  simp only [Function.update_apply] at hfound
  split at hfound
  next heq =>
    rw [heq, ← Option.some.inj hfound]
    obtain ⟨hmem, hid, hmax⟩ := hkept.filed.latest id event hevent
    refine ⟨hmem, hid, ?_⟩
    intro snapshot hsnapshot
    obtain ⟨hold, hsame, hrevision⟩ :=
      hkept.filed.accepted id snapshot hsnapshot
    rw [← hrevision]
    exact hmax _ hold hsame
  · exact hkept.filed.loaded other found hfound

theorem Kept.unload (id : PolicyId) :
    Kept { state with loaded := Function.update state.loaded id none } := by
  refine ⟨hkept.tied, hkept.filed.change hkept.filed.accepted ?_⟩
  intro other found hfound
  simp only [Function.update_apply] at hfound
  split at hfound
  · cases hfound
  · exact hkept.filed.loaded other found hfound

theorem Kept.observe {snapshot found : Snapshot Name}
    (hfound : state.disk.coordinators id = some found) (hevent : snapshot.event = found.event)
    (hrevision : snapshot.revision = found.revision) : Kept { state with
      disk := { state.disk with
        coordinators := Function.update state.disk.coordinators id
          (some snapshot) } } := by
  refine ⟨hkept.tied.coordinators _, hkept.filed.change ?_ ?_⟩
  · intro other row hrow
    simp only [Function.update_apply] at hrow
    split at hrow
    next heq =>
      rw [heq, ← Option.some.inj hrow, hevent, hrevision]
      exact hkept.filed.accepted id found hfound
    · exact hkept.filed.accepted other row hrow
  · intro other event hloaded
    obtain ⟨hmem, hid, hnewer⟩ := hkept.filed.loaded other event hloaded
    refine ⟨hmem, hid, ?_⟩
    intro row hrow
    simp only [Function.update_apply] at hrow
    split at hrow
    next heq =>
      rw [← Option.some.inj hrow, hrevision]
      exact hnewer found (heq ▸ hfound)
    · exact hnewer row hrow

theorem Kept.accept [DecidableEq Name] {event : Event Name} {snapshot : Snapshot Name}
    (hload : state.loaded id = some event)
    (haccept : accept (state.disk.coordinators id) event = .ok snapshot) :
    Kept { state with
      disk := { state.disk with
        coordinators := Function.update state.disk.coordinators id
          (some snapshot) } } := by
  obtain ⟨hevent, hrevision⟩ := event_of_accept
    (fun found hfound => (hkept.filed.accepted id found hfound).2.2) haccept
  obtain ⟨hmem, hid, -⟩ := hkept.filed.loaded id event hload
  refine ⟨hkept.tied.coordinators _, hkept.filed.change ?_ ?_⟩
  · intro other row hrow
    simp only [Function.update_apply] at hrow
    split at hrow
    next heq =>
      rw [heq, ← Option.some.inj hrow, hevent, hrevision]
      exact ⟨hmem, hid, rfl⟩
    · exact hkept.filed.accepted other row hrow
  · intro other found hloaded
    obtain ⟨hfound, hsame, hnewer⟩ := hkept.filed.loaded other found hloaded
    refine ⟨hfound, hsame, ?_⟩
    intro row hrow
    simp only [Function.update_apply] at hrow
    split at hrow
    next heq =>
      rw [heq, hload] at hloaded
      rw [← Option.some.inj hrow, hrevision, Option.some.inj hloaded]
    · exact hnewer row hrow

end

theorem Pc.phase_write {pc : Pc Name} (hphase : pc.phase = .write record) :
    ∃ todo, pc = .write record todo := by
  cases pc with
  | write row todo =>
    cases hphase
    exact ⟨todo, rfl⟩
  | _ => cases hphase

theorem Pc.phase_record {pc : Pc Name} (hphase : pc.phase = .record record) :
    ∃ todo, pc = .record record todo := by
  cases pc with
  | record row todo =>
    cases hphase
    exact ⟨todo, rfl⟩
  | _ => cases hphase

variable [DecidableEq Name]

theorem Kept.step {action : Action Name} (hkept : Kept state) (hguard : RecordedStep state action)
    (hstep : step allows state action = some after) : Kept after := by
  cases action with
  | start config inventory now => exact hkept.start hstep
  | advance reply =>
    obtain ⟨run, hrun, rfl⟩ := Option.map_eq_some_iff.mp hstep
    have htied := hkept.tied
    rw [hrun] at htied
    exact ⟨htied.advance Run.move_next, hkept.filed.advance htied Run.move_next⟩
  | interrupt left =>
    obtain ⟨run, hrun, rfl⟩ := Option.map_eq_some_iff.mp hstep
    have htied := hkept.tied
    rw [hrun] at htied
    obtain ⟨hwrite, hrecord⟩ := hguard run hrun
    refine ⟨htied.interrupt Run.move_next ?_ ?_, hkept.filed.interrupt htied Run.move_next⟩
    · intro record hphase
      obtain ⟨todo, hpc⟩ := Pc.phase_write hphase
      exact hwrite record todo hpc
    · intro record hphase
      obtain ⟨todo, hpc⟩ := Pc.phase_record hphase
      exact hrecord record todo hpc
  | load id owner now =>
    simp only [Enrolment.step, Option.bind_eq_some_iff,
      Option.ite_none_right_eq_some, Option.some.injEq] at hstep
    obtain ⟨event, hevent, -, rfl⟩ := hstep
    exact hkept.load hevent
  | accept id =>
    obtain ⟨event, hload, rfl⟩ := Option.map_eq_some_iff.mp hstep
    split
    next snapshot haccept => exact hkept.accept hload haccept
    next error _ =>
      cases hsnapshot : state.disk.coordinators id with
      | none =>
        have hsame : Function.update state.disk.coordinators id none = state.disk.coordinators := by
          rw [← hsnapshot, Function.update_eq_self]
        simp only [Option.map_none, hsame]
        exact hkept.unload id
      | some snapshot =>
        have hcleared : Kept { state with
            disk := { state.disk with
              coordinators := Function.update state.disk.coordinators id
                (some { snapshot with verified := fun _ _ => false }) } } :=
          hkept.observe hsnapshot rfl rfl
        exact hcleared.unload id
  | observe id verified =>
    obtain ⟨snapshot, hsnapshot, rfl⟩ := Option.map_eq_some_iff.mp hstep
    exact hkept.observe hsnapshot rfl rfl
  | leave id =>
    cases hstep
    exact hkept.unload id

/-- In every run of enrolments and coordinators, with any inventories and
clocks, in which no enrolment is interrupted between the write of a policy and
its record, two policies written with one id and one revision are the same, and
no coordinator refuses what it loaded as a rollback. -/
theorem revisions_are_not_reissued (allows : Profile → Name → Bool) {state : State Name}
    (hreach : Reaches (step allows) RecordedStep State.initial state) :
    (∀ one ∈ state.disk.written, ∀ two ∈ state.disk.written, one.policy.id = two.policy.id →
        one.policy.revision = two.policy.revision → one = two) ∧
    ∀ id event, state.loaded id = some event →
      accept (state.disk.coordinators id) event ≠ .error .rollback := by
  have hkept : Kept state := by
    apply hreach.invariant kept_initial
    intro before after action hkept hguard hstep
    exact hkept.step hguard hstep
  exact ⟨hkept.filed.unique, fun id event hload =>
    hkept.filed.accept_ne_rollback hload⟩

def oneArchive : Config ℕ where
  owner := 0
  profile := .torOnly
  source := ⟨1, 1⟩
  archives := [⟨2, 2⟩]
  acceptTypes := none

def oneBlob : List (InventoryRow ℕ) :=
  [{ sha256 := List.replicate 64 0, size := 1, contentType := none, uploaded := none }]

def runToWrite (now : ℕ) : List (Action ℕ) :=
  [.start oneArchive oneBlob now, .advance .refused, .advance .refused,
    .advance .refused, .advance .refused, .advance (.signed now now),
    .advance .refused]

def recordedCheck (state : State ℕ) : Action ℕ → Bool
  | .interrupt left =>
    match state.run.map Run.pc with
    | some (.write _ _) => decide (left ≠ .all)
    | some (.record _ _) => decide (left ≠ .nothing)
    | _ => true
  | _ => true

theorem recordedStep_of_check {state : State ℕ} {action : Action ℕ}
    (hcheck : recordedCheck state action = true) : RecordedStep state action := by
  cases action with
  | interrupt left =>
    intro run hrun
    simp only [recordedCheck, hrun, Option.map_some] at hcheck
    constructor <;>
    · intro record todo hpc
      rw [hpc] at hcheck
      exact of_decide_eq_true hcheck
  | _ => trivial

def renewal : List (Action ℕ) :=
  runToWrite 1000 ++ [.advance .refused, .advance .refused] ++
    [.start oneArchive oneBlob 2000, .interrupt .part] ++
    runToWrite 2592000 ++ [.load .intake 0 2592000]

theorem revisions_are_not_reissued_in_a_renewal :
    ∃ state, Reaches (step fun _ _ => true) RecordedStep (State.initial : State ℕ) state ∧
      state.disk.written.map (·.policy.revision) = [2, 1] ∧
      (∀ one ∈ state.disk.written, ∀ two ∈ state.disk.written, one.policy.id = two.policy.id →
          one.policy.revision = two.policy.revision → one = two) ∧
      ∀ id event, state.loaded id = some event →
        accept (state.disk.coordinators id) event ≠ .error .rollback := by
  have hrun : (checkedRun (step fun _ _ => true) recordedCheck
      (State.initial : State ℕ) renewal).any (fun state =>
        decide (state.disk.written.map (·.policy.revision) = [2, 1])) = true := by
    decide +kernel
  have hend : ∃ state, Reaches (step fun _ _ => true) RecordedStep
      (State.initial : State ℕ) state ∧ _ :=
    exists_reaches_of_check recordedStep_of_check hrun
  obtain ⟨state, hreach, htest⟩ := hend
  exact ⟨state, hreach, of_decide_eq_true htest,
    revisions_are_not_reissued (fun _ _ => true) hreach⟩

def rollsBack (state : State ℕ) (id : PolicyId) : Bool :=
  match state.loaded id with
  | none => false
  | some event =>
    match accept (state.disk.coordinators id) event with
    | .error .rollback => true
    | _ => false

theorem exists_rollback_of_rollsBack {state : State ℕ} (hrolls : rollsBack state id = true) :
    ∃ id event, state.loaded id = some event ∧
      accept (state.disk.coordinators id) event = .error .rollback := by
  unfold rollsBack at hrolls
  split at hrolls
  · cases hrolls
  next event hload =>
    split at hrolls
    next haccept => exact ⟨id, event, hload, haccept⟩
    · cases hrolls

/-- A run is interrupted between the file and its record, after a coordinator
accepted the file. -/
def interruptedRun : List (Action ℕ) :=
  runToWrite 1000 ++ [.load .intake 0 1000, .accept .intake,
    .interrupt .nothing] ++ runToWrite 2000 ++ [.load .intake 0 2000]

/-- The next run signs the same revision once more, and the coordinator
refuses it. -/
theorem interrupted_run_reissues_a_revision :
    ∃ state, Reaches (step fun _ _ => true) everyStep (State.initial : State ℕ) state ∧
      (∃ one ∈ state.disk.written, ∃ two ∈ state.disk.written, one.policy.id = two.policy.id ∧
          one.policy.revision = two.policy.revision ∧ one ≠ two) ∧
      ∃ id event, state.loaded id = some event ∧
        accept (state.disk.coordinators id) event = .error .rollback := by
  have hrun : (runActions (step fun _ _ => true) (State.initial : State ℕ)
      interruptedRun).any (fun state =>
        decide (∃ one ∈ state.disk.written, ∃ two ∈ state.disk.written,
          one.policy.id = two.policy.id ∧ one.policy.revision = two.policy.revision ∧ one ≠ two) &&
        rollsBack state .intake) = true := by
    decide +kernel
  obtain ⟨state, hreach, htest⟩ := exists_reaches_of_runActions hrun
  rw [Bool.and_eq_true] at htest
  exact ⟨state, hreach, of_decide_eq_true htest.1, exists_rollback_of_rollsBack htest.2⟩

end Enrolment
end Wildbloom
