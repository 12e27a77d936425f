import Wildbloom.FolderWatchModel

/-!
# What the mass-removal brake lets through

The window of the brake holds one instant for each row released lately, so at
each release it counts everything released in the 600 seconds before.  A row
classed as moved is not counted; its content is in the folder as long as sizes
and times tell contents apart.
-/

namespace Wildbloom
namespace FolderWatch

open Runs

variable {Id Path Hash : Type} {during : ℕ → Bool} {state : State Id}

/-! ## The window and the log -/

/-- How many rows were released at instants that satisfy `during`. -/
def released (during : ℕ → Bool) (log : List (Release Id)) : ℕ :=
  ((log.filter fun release => during release.now).map
    fun release => release.ids.length).sum

def instants (log : List (Release Id)) : List ℕ :=
  log.flatMap fun release => List.replicate release.ids.length release.now

def lately (now instant : ℕ) : Bool := decide (now < instant + brakeWindow)

theorem released_append (during : ℕ → Bool) (log more : List (Release Id)) :
    released during (log ++ more) = released during log + released during more := by
  simp [released]

theorem released_eq_countP (during : ℕ → Bool) (log : List (Release Id)) :
    released during log = (instants log).countP during := by
  induction log with
  | nil => rfl
  | cons release rest ih =>
    rw [← List.singleton_append, released_append, ih]
    by_cases hduring : during release.now = true <;>
      simp [released, instants, hduring, List.countP_replicate]

theorem released_mono {wider : ℕ → Bool}
    (himp : ∀ instant, during instant = true → wider instant = true) (log : List (Release Id)) :
    released during log ≤ released wider log := by
  rw [released_eq_countP, released_eq_countP]
  exact List.countP_mono_left fun instant _ => himp instant

/-- The bound at one release: what was released in the window up to it. -/
structure Bounded (earlier : List (Release Id)) (last : Release Id) : Prop where
  any : released (lately last.now) earlier + last.ids.length < brakeAny
  half : brakeFloor ≤ released (lately last.now) earlier + last.ids.length →
    (released (lately last.now) earlier + last.ids.length) * 2 <
      last.linked + released (lately last.now) earlier

/-- The window holds the late end of what was released. -/
structure Windowed (state : State Id) : Prop where
  suffix : ∃ old, instants state.log = old ++ state.removalWindow ∧
    ∀ instant ∈ old, instant + brakeWindow ≤ state.clock
  sorted : (instants state.log).Pairwise (· ≤ ·)
  past : ∀ instant ∈ instants state.log, instant ≤ state.clock
  bounded : ∀ earlier last later, state.log = earlier ++ last :: later → Bounded earlier last

theorem Windowed.kept (hwindow : Windowed state) {now : ℕ} (hclock : state.clock ≤ now) :
    ∃ old, instants state.log = old ++ state.removalWindow.dropWhile
        (fun instant => decide (brakeWindow ≤ now - instant)) ∧
      (∀ instant ∈ old, instant + brakeWindow ≤ now) ∧
      (state.removalWindow.dropWhile fun instant =>
        decide (brakeWindow ≤ now - instant)).length =
        released (lately now) state.log := by
  obtain ⟨old, hlog, hold⟩ := hwindow.suffix
  have hpos : 0 < brakeWindow := by decide
  set expired := fun instant : ℕ => decide (brakeWindow ≤ now - instant)
  have hsplit : state.removalWindow.takeWhile expired ++
      state.removalWindow.dropWhile expired = state.removalWindow :=
    List.takeWhile_append_dropWhile
  have hgone : ∀ instant ∈ old ++ state.removalWindow.takeWhile expired,
      instant + brakeWindow ≤ now := by
    intro instant hmem
    rcases List.mem_append.mp hmem with hmem | hmem
    · exact (hold instant hmem).trans hclock
    · have hexpired : expired instant = true := List.mem_takeWhile_imp hmem
      have := of_decide_eq_true hexpired
      omega
  have hlate : ∀ instant ∈ state.removalWindow.dropWhile expired, lately now instant = true := by
    have hsorted := hwindow.sorted
    rw [hlog, ← hsplit, ← List.append_assoc] at hsorted
    have hkept := (List.pairwise_append.mp hsorted).2.1
    cases hwhile : state.removalWindow.dropWhile expired with
    | nil => simp
    | cons first rest =>
      rw [hwhile, List.pairwise_cons] at hkept
      have hfirst : expired first = false := by
        have hnot := List.head_dropWhile_not expired
          (show state.removalWindow.dropWhile expired ≠ [] by simp [hwhile])
        simpa only [hwhile, List.head_cons] using hnot
      have hnow := of_decide_eq_false hfirst
      intro instant hmem
      rw [lately, decide_eq_true_eq]
      rcases List.mem_cons.mp hmem with rfl | hmem
      · omega
      · have := hkept.1 instant hmem
        omega
  refine ⟨old ++ state.removalWindow.takeWhile expired, ?_, hgone, ?_⟩
  · rw [List.append_assoc, hsplit]
    exact hlog
  · have hnone : (old ++ state.removalWindow.takeWhile expired).countP
        (lately now) = 0 := by
      rw [List.countP_eq_zero]
      intro instant hmem
      have := hgone instant hmem
      rw [Bool.not_eq_true, lately, decide_eq_false_iff_not]
      omega
    have hsplitLog : instants state.log = (old ++ state.removalWindow.takeWhile expired) ++
          state.removalWindow.dropWhile expired := by
      rw [List.append_assoc, hsplit]
      exact hlog
    rw [released_eq_countP, hsplitLog, List.countP_append, hnone,
      List.countP_eq_length.mpr hlate, Nat.zero_add]

theorem instants_append_one (log : List (Release Id)) (release : Release Id) :
    instants (log ++ [release]) =
      instants log ++ List.replicate release.ids.length release.now := by
  simp [instants]

theorem windowed_initial (hrecent : state.removalWindow = []) (hlog : state.log = []) :
    Windowed state where
  suffix := ⟨[], by rw [hlog, hrecent]; rfl, by simp⟩
  sorted := by simp [hlog, instants]
  past := by simp [hlog, instants]
  bounded := by simp [hlog]

/-- The last element that satisfies a condition, if there is one. -/
theorem exists_last {α : Type*} (p : α → Prop) (list : List α) :
    (∀ x ∈ list, ¬ p x) ∨ ∃ earlier last later,
      list = earlier ++ last :: later ∧ p last ∧ ∀ x ∈ later, ¬ p x := by
  induction list using List.reverseRecOn with
  | nil => exact .inl (by simp)
  | append_singleton front last ih =>
    by_cases hlast : p last
    · exact .inr ⟨front, last, [], rfl, hlast, by simp⟩
    · rcases ih with hnone | ⟨earlier, found, later, rfl, hfound, hlater⟩
      · refine .inl fun x hmem => ?_
        rcases List.mem_append.mp hmem with hmem | hmem
        · exact hnone x hmem
        · exact List.mem_singleton.mp hmem ▸ hlast
      · refine .inr ⟨earlier, found, later ++ [last], by simp, hfound, ?_⟩
        intro x hmem
        rcases List.mem_append.mp hmem with hmem | hmem
        · exact hlater x hmem
        · exact List.mem_singleton.mp hmem ▸ hlast

def between (first last instant : ℕ) : Bool :=
  decide (first ≤ instant ∧ instant ≤ last)

theorem released_eq_zero {log : List (Release Id)}
    (hnone : ∀ release ∈ log, ¬ during release.now = true) : released during log = 0 := by
  rw [released, List.filter_eq_nil_iff.mpr hnone]
  rfl

/-- What a short period released was in the window of its last release. -/
theorem Windowed.released_between {first last : ℕ} (hperiod : last < first + brakeWindow)
    {earlier later : List (Release Id)} {final : Release Id}
    (hlog : state.log = earlier ++ final :: later) (hfinal : between first last final.now = true)
    (hlater : ∀ release ∈ later, ¬ between first last release.now = true) :
    released (between first last) state.log ≤
      released (lately final.now) earlier + final.ids.length := by
  have hone : released (between first last) [final] = final.ids.length := by
    simp [released, hfinal]
  rw [hlog, released_append, ← List.singleton_append, released_append, hone,
    released_eq_zero hlater, Nat.add_zero]
  refine Nat.add_le_add_right (released_mono ?_ earlier) _
  intro instant hinstant
  simp only [between, lately, decide_eq_true_eq] at hinstant hfinal ⊢
  omega

/-- Either the brake releases the moved rows alone, or it found nothing held
and few enough rows to release them all. -/
theorem brake_cases (inferred : List Id) (moved : Id → Bool) (holding : Bool)
    (pending linked : ℕ) (recent : List ℕ) (now : ℕ) :
    let kept := recent.dropWhile fun instant =>
      decide (brakeWindow ≤ now - instant)
    let losing := inferred.filter fun id => !moved id
    let braked := brake inferred moved holding pending linked recent now
    braked.1.release = inferred.filter moved ∧ braked.2 = kept ∨ losing ≠ [] ∧ holding = false ∧
      kept.length + losing.length < brakeAny ∧
      (brakeFloor ≤ kept.length + losing.length →
        (kept.length + losing.length) * 2 < linked + kept.length) ∧
      braked = ({ release := inferred.filter moved ++ losing },
        kept ++ List.replicate losing.length now) := by
  rw [brake]
  dsimp only
  split
  next => exact .inl ⟨rfl, rfl⟩
  next hlosing =>
    split
    next => exact .inl ⟨rfl, rfl⟩
    next hfew =>
      rw [not_or, not_or, Bool.not_eq_true] at hfew
      refine .inr ⟨hlosing, hfew.1, by omega, ?_, rfl⟩
      intro hfloor
      have := hfew.2.2
      omega

theorem filter_moved_eq_nil (inferred : List Id) (moved : Id → Bool) :
    (inferred.filter moved).filter (fun id => !moved id) = [] := by
  simp

variable [DecidableEq Id] [DecidableEq Path] [DecidableEq Hash]

theorem State.folderPass_cases (state : State Id) (pass : Pass Id Path Hash) :
    let kept := state.removalWindow.dropWhile fun instant =>
      decide (brakeWindow ≤ pass.now - instant)
    let held := pass.heldIds state
    let checks := pass.checks held
    let lost := (pass.infer held state.missing).1.filter
      fun id => !pass.isMoved held id
    let braked := pass.braked held state.missing state.removalWindow
    let next := state.folderPass pass
    (∀ id ∈ braked.1.release, pass.isMoved held id = true) ∧
        next.removalWindow = kept ∧ next.log = state.log ∨
      (∀ id ∈ braked.1.release, pass.isMoved held id = true ∨ id ∈ lost) ∧
      lost ≠ [] ∧ kept.length + lost.length < brakeAny ∧ (brakeFloor ≤ kept.length + lost.length →
          (kept.length + lost.length) * 2 < checks.length + kept.length) ∧
        pass.holding held = false ∧ braked.1.hold = [] ∧
        next.removalWindow = kept ++ List.replicate lost.length pass.now ∧
        next.log = state.log ++ [⟨pass.now, lost, checks.length⟩] := by
  set held := pass.heldIds state
  set inferred := (pass.infer held state.missing).1
  rcases brake_cases inferred (pass.isMoved held) (pass.holding held)
    (pass.pending held state.missing) (pass.checks held).length
    state.removalWindow pass.now with
    ⟨hrelease, hkept⟩ | ⟨hlosing, hholding, hany, hhalf, hbraked⟩
  · have hmoved : ∀ id ∈ (pass.braked held state.missing
        state.removalWindow).1.release, pass.isMoved held id = true := by
      intro id hid
      rw [Pass.braked, hrelease] at hid
      exact List.of_mem_filter hid
    refine .inl ⟨hmoved, hkept, ?_⟩
    have hnone : (pass.braked held state.missing state.removalWindow).1.release.filter
          (fun id => !pass.isMoved held id) = [] := by
      simpa [List.filter_eq_nil_iff] using hmoved
    simp only [State.folderPass]
    rw [if_pos hnone]
  · refine .inr ⟨?_, hlosing, hany, hhalf, hholding, ?_, ?_, ?_⟩
    · intro id hid
      rw [Pass.braked, hbraked] at hid
      exact (List.mem_append.mp hid).imp_left List.of_mem_filter
    · rw [Pass.braked, hbraked]
    · simp only [State.folderPass]
      rw [Pass.braked, hbraked]
    · have hlost : (pass.braked held state.missing state.removalWindow).1.release.filter
            (fun id => !pass.isMoved held id) =
          inferred.filter fun id => !pass.isMoved held id := by
        rw [Pass.braked, hbraked, List.filter_append, filter_moved_eq_nil,
          List.nil_append, List.filter_filter]
        simp only [Bool.and_self]
      have hsome := hlosing
      rw [← hlost] at hsome
      simp only [State.folderPass]
      rw [if_neg hsome, hlost]

theorem Windowed.folderPass (hwindow : Windowed state) {pass : Pass Id Path Hash}
    (hclock : state.clock ≤ pass.now) : Windowed (state.folderPass pass) := by
  obtain ⟨old, hold, hgone, hcount⟩ := hwindow.kept hclock
  have hnow : (state.folderPass pass).clock = pass.now := rfl
  rcases state.folderPass_cases pass with ⟨-, hrecent, hlog⟩ |
    ⟨-, -, hany, hhalf, -, -, hrecent, hlog⟩
  · refine ⟨⟨old, ?_, ?_⟩, ?_, ?_, ?_⟩
    · rw [hlog, hrecent]
      exact hold
    · exact hgone
    · rw [hlog]
      exact hwindow.sorted
    · rw [hlog]
      exact fun instant hmem => (hwindow.past instant hmem).trans hclock
    · rw [hlog]
      exact hwindow.bounded
  · refine ⟨⟨old, ?_, ?_⟩, ?_, ?_, ?_⟩
    · rw [hlog, hrecent, instants_append_one, hold, List.append_assoc]
    · exact hgone
    · rw [hlog, instants_append_one, List.pairwise_append]
      refine ⟨hwindow.sorted, List.pairwise_replicate.mpr (.inr le_rfl), ?_⟩
      intro instant hmem later hlater
      rw [List.eq_of_mem_replicate hlater]
      exact (hwindow.past instant hmem).trans hclock
    · rw [hlog, instants_append_one]
      intro instant hmem
      rcases List.mem_append.mp hmem with hmem | hmem
      · exact (hwindow.past instant hmem).trans hclock
      · exact (List.eq_of_mem_replicate hmem).le
    · rw [hlog]
      intro earlier last later hsplit
      rcases List.eq_nil_or_concat later with rfl | ⟨front, final, rfl⟩
      · obtain ⟨rfl, hlast⟩ := List.append_inj' hsplit rfl
        cases List.singleton_inj.mp hlast
        rw [hcount] at hany hhalf
        exact ⟨hany, hhalf⟩
      · rw [List.concat_eq_append, ← List.cons_append, ← List.append_assoc] at hsplit
        exact hwindow.bounded earlier last front (List.append_inj' hsplit rfl).1

theorem Windowed.step {next : State Id} (hwindow : Windowed state) {action : Action Id Path Hash}
    (hstep : step state action = some next) : Windowed next := by
  cases action with
  | pass pass =>
    rw [FolderWatch.step, Option.ite_none_right_eq_some] at hstep
    obtain ⟨hclock, hnext⟩ := hstep
    cases hnext
    exact hwindow.folderPass hclock
  | noScan | rowGone =>
    cases hstep
    exact ⟨hwindow.suffix, hwindow.sorted, hwindow.past, hwindow.bounded⟩

/-- The pass reads which rows are held, and every hold that it ends is off the
index when rows are released. -/
def EndsHolds (state : State Id) : Action Id Path Hash → Prop
  | .pass pass => pass.readsHeld = true ∧
    (∀ id ∈ pass.back state.held, pass.releasesHold id = true) ∧
      ∀ id ∈ pass.movedHeld state.held, pass.removesRow id = true
  | _ => True

theorem State.held_eq_nil_of_release {pass : Pass Id Path Hash}
    (hends : EndsHolds state (.pass pass)) (hlog : (state.folderPass pass).log ≠ state.log) :
    (state.folderPass pass).held = [] := by
  obtain ⟨hreads, hback, hmoved⟩ := hends
  have hheld : pass.heldIds state = state.held := by simp [Pass.heldIds, hreads]
  rcases state.folderPass_cases pass with ⟨-, -, hsame⟩ | ⟨-, -, -, -, hholding, hhold, -, -⟩
  · exact absurd hsame hlog
  · rw [hheld] at hholding hhold
    simp only [State.folderPass, hheld, hhold, ite_self, List.append_nil, List.filter_filter]
    rw [List.filter_eq_nil_iff]
    intro id hid
    rw [Pass.holding, List.any_eq_false] at hholding
    have hended := hholding id hid
    by_cases hin : id ∈ pass.back state.held
    · simp [hin, hback id hin]
    · have hthere : id ∈ pass.movedHeld state.held := by
        simpa [hin] using hended
      simp [hthere, hmoved id hthere]

/-- In every run of passes since the owner's last choice whose passes take
the holds they end off the index: less than fifty rows not classed as moved
are released in any period shorter than the window; ten or more are less than
half of the files linked at the last release of the period and the rows
released in the window before it; and a pass that releases such a row leaves
no row held. -/
theorem releases_stay_within_the_brake (start state : State Id)
    (hrecent : start.removalWindow = []) (hlog : start.log = [])
    (hreach : Reaches (step : State Id → Action Id Path Hash → _) EndsHolds start state) :
    (∀ first last, last < first + brakeWindow → released (between first last) state.log < brakeAny ∧
      ∀ earlier final later, state.log = earlier ++ final :: later →
        between first last final.now = true →
        (∀ release ∈ later, ¬ between first last release.now = true) →
        brakeFloor ≤ released (between first last) state.log →
        released (between first last) state.log * 2 <
          final.linked + released (lately final.now) earlier) ∧
      ∀ (action : Action Id Path Hash) next, EndsHolds state action →
        step state action = some next → next.log ≠ state.log →
        next.held = [] := by
  have hwindow : Windowed state := hreach.invariant
    (windowed_initial hrecent hlog) fun _ _ _ hinv _ hstep => hinv.step hstep
  refine ⟨?_, ?_⟩
  · intro first last hperiod
    refine ⟨?_, ?_⟩
    · rcases exists_last (fun release : Release Id =>
        between first last release.now = true) state.log with
        hnone | ⟨earlier, final, later, hsplit, hfinal, hlater⟩
      · rw [released_eq_zero hnone]
        decide
      · exact (Windowed.released_between hperiod hsplit hfinal hlater).trans_lt
          (hwindow.bounded _ _ _ hsplit).any
    · intro earlier final later hsplit hfinal hlater hfloor
      have hle :=
        Windowed.released_between hperiod hsplit hfinal hlater
      have hhalf := (hwindow.bounded _ _ _ hsplit).half (hfloor.trans hle)
      omega
  · intro action next hends hstep hne
    cases action with
    | pass pass =>
      rw [step, Option.ite_none_right_eq_some] at hstep
      cases hstep.2
      exact State.held_eq_nil_of_release hends hne
    | noScan | rowGone =>
      cases hstep
      exact absurd rfl hne

def sampleRow (id size plain : ℕ) : FileRecord ℕ ℕ ℕ where
  id := id
  watchPath := some id
  watchSize := some size
  watchMtime := some 7
  plainSha256 := some plain

def sampleScan (files : List (ℕ × Metadata)) : Scan ℕ where
  files := files
  statPath path := (files.lookup path).elim .missing .present

def loneLoss (now : ℕ) : Pass ℕ ℕ ℕ where
  now := now
  rows := [sampleRow 0 5 1]
  scan := sampleScan []

/-- The rows from `first` to 24 are linked, and the files from `there` on are
there. -/
def losses (now first there : ℕ) : Pass ℕ ℕ ℕ where
  now := now
  rows := (List.range' first (25 - first)).map fun id => sampleRow id id id
  scan := sampleScan ((List.range' there (25 - there)).map fun id => (id, ⟨id, 7⟩))

/-- Row 24 is held and its file comes back.  Five files go, five more a second later,
and the passes release them in two parts. -/
theorem releases_stay_within_the_brake_after_two_parts :
    let before := ((({ held := [24] } : State ℕ).folderPass (losses 0 0 5)).folderPass
      (losses (seconds 1) 0 10)).folderPass (losses settle 0 10)
    let state := before.folderPass (losses (seconds 4) 5 10)
    state.log.map (fun release => release.ids.length) = [5, 5] ∧ state.held = [] ∧
      released (between 0 (seconds 4)) state.log < brakeAny ∧
      released (between 0 (seconds 4)) state.log * 2 < 20 + 5 := by
  intro before state
  have hpass : ∀ {state : State ℕ} {now first there : ℕ}, state.clock ≤ now →
      step state (.pass (losses now first there)) =
        some (state.folderPass (losses now first there)) := fun hclock => if_pos hclock
  have hends : ∀ (state : State ℕ) now first there,
      EndsHolds state (.pass (losses now first there)) :=
    fun _ _ _ _ => ⟨rfl, fun _ _ => rfl, fun _ _ => rfl⟩
  have hbefore : Reaches (step : State ℕ → Action ℕ ℕ ℕ → _) EndsHolds
      { held := [24] } before :=
    .step (.step (.step .refl (hends _ 0 0 5) (hpass (by decide))) (hends _ (seconds 1) 0 10)
      (hpass (by decide))) (hends _ settle 0 10) (hpass (by decide))
  have hlast : step before (.pass (losses (seconds 4) 5 10)) = some state := hpass (by decide)
  have hlog : state.log = [⟨settle, [0, 1, 2, 3, 4], 25⟩, ⟨seconds 4, [5, 6, 7, 8, 9], 20⟩] := by
    decide +kernel
  have hguard := hends before (seconds 4) 5 10
  have hbounds := (releases_stay_within_the_brake _ state rfl rfl
    (.step hbefore hguard hlast)).1 0 (seconds 4) (by decide)
  refine ⟨by rw [hlog]; rfl, ?_, hbounds.1, ?_⟩
  · refine (releases_stay_within_the_brake _ before rfl rfl hbefore).2 _ state hguard hlast ?_
    decide +kernel
  · refine lt_of_lt_of_le (hbounds.2 [⟨settle, [0, 1, 2, 3, 4], 25⟩]
      ⟨seconds 4, [5, 6, 7, 8, 9], 20⟩ [] hlog (by decide) (by simp) ?_) (by decide)
    rw [hlog]
    decide

/-- File 1 is gone.  Row 0 is held, its content is at path 2, and its removal
fails. -/
def failedRemoval (now : ℕ) : Pass ℕ ℕ ℕ where
  now := now
  rows := [sampleRow 0 5 9, sampleRow 1 6 8, sampleRow 2 5 9]
  scan := sampleScan [(2, ⟨5, 7⟩)]
  removesRow id := decide (id ≠ 0)

/-- A held row that cannot be removed stays held, and no longer keeps the
brake from releasing other rows. -/
theorem release_while_a_row_is_held : ∃ state : State ℕ,
      Reaches (step : State ℕ → Action ℕ ℕ ℕ → _) everyStep { held := [0] } state ∧
      ∃ next, step state (.pass (failedRemoval settle)) = some next ∧
        next.log ≠ state.log ∧ next.held = [0] :=
  ⟨State.folderPass { held := [0] } (failedRemoval 0), .step .refl trivial
      (show step _ (.pass (failedRemoval 0)) = _ from rfl),
    _, rfl, by decide, by decide⟩

/-! ## Rows classed as moved -/

variable {Content : Type}

/-- A regular file of the folder: the walk lists it or it is found at a
link. -/
def Pass.IsFile (pass : Pass Id Path Hash) (path : Path) : Prop :=
  (∃ found, (path, found) ∈ pass.scan.files) ∨ ∃ found, pass.statAt path = .present found

def Pass.HasContent (pass : Pass Id Path Hash) (sha256 : Content → Hash)
    (content : Path → Content) (row : FileRecord Id Path Hash) : Prop :=
  ∃ path, pass.IsFile path ∧ row.plainSha256 = some (sha256 (content path))

/-- The row's file is gone: it is held and missing, or it is missing now and was
missing for the settling time, and no import is being encrypted. -/
def Pass.Gone (pass : Pass Id Path Hash) (state : State Id) (row : FileRecord Id Path Hash) :
    Prop :=
  row ∈ pass.heldMissing (pass.heldIds state) ∨
    pass.importing = false ∧ (row, .missing) ∈ pass.checks (pass.heldIds state) ∧
      ∃ since, state.missing.lookup row.id = some since ∧ settle ≤ pass.now - since

/-- A row whose file is gone has its content somewhere in the folder if a linked file
as last seen is recorded with its hash, or if a file that was not taken in yet has
its size and time. -/
structure Pass.Telling (pass : Pass Id Path Hash) (state : State Id) (sha256 : Content → Hash)
    (content : Path → Content) : Prop where
  linked : ∀ row, pass.Gone state row → ∀ look ∈ pass.checks (pass.heldIds state), ∀ found,
    look.2 = .present found → look.1.unchanged found = true → ∀ plain,
    look.1.plainSha256 = some plain → row.plainSha256 = some plain →
    pass.HasContent sha256 content row
  unknown : ∀ row, pass.Gone state row → ∀ file ∈ pass.scan.files, file.1 ∉ pass.known →
    row.unchanged file.2 = true → pass.HasContent sha256 content row

section Moved

variable {pass : Pass Id Path Hash} {held : List Id}
  {row : FileRecord Id Path Hash} {sha256 : Content → Hash}
  {content : Path → Content}

omit [DecidableEq Id] [DecidableEq Path] [DecidableEq Hash] in
theorem Pass.mem_linked {look : FileRecord Id Path Hash × Stat} (hlook : look ∈ pass.linked) :
    look.1 ∈ pass.rows ∧ ∃ path, look.1.watchPath = some path ∧ look.2 = pass.statAt path := by
  obtain ⟨found, hfound, hsome⟩ := List.mem_filterMap.mp hlook
  rw [Option.ite_none_left_eq_some] at hsome
  obtain ⟨path, hpath, rfl⟩ := Option.map_eq_some_iff.mp hsome.2
  exact ⟨hfound, path, hpath, rfl⟩

theorem Pass.stillHere_iff : pass.stillHere held row = true ↔
    (∃ look ∈ pass.checks held, ∃ found, look.2 = .present found ∧
      look.1.unchanged found = true ∧
      ∃ plain, look.1.plainSha256 = some plain ∧ row.plainSha256 = some plain) ∨
    ∃ file ∈ pass.scan.files, file.1 ∉ pass.known ∧ row.unchanged file.2 = true := by
  rw [Pass.stillHere, Bool.or_eq_true, Option.any_eq_true, List.any_eq_true]
  refine or_congr ⟨?_, ?_⟩ ⟨?_, ?_⟩
  · rintro ⟨plain, hplain, hmem⟩
    obtain ⟨look, hlook, hsome⟩ := List.mem_filterMap.mp (of_decide_eq_true hmem)
    split at hsome
    next found hpresent =>
      rw [Option.ite_none_right_eq_some] at hsome
      exact ⟨look, hlook, found, hpresent, hsome.1, plain, hsome.2, hplain⟩
    next => cases hsome
  · rintro ⟨look, hlook, found, hpresent, hsame, plain, hother, hplain⟩
    refine ⟨plain, hplain, decide_eq_true (List.mem_filterMap.mpr ⟨look, hlook, ?_⟩)⟩
    simp only [hpresent, hsame, if_true, hother]
  · rintro ⟨stamp, hstamp, hsame⟩
    obtain ⟨file, hfile, rfl⟩ := List.mem_map.mp hstamp
    obtain ⟨hlisted, hunknown⟩ := List.mem_filter.mp hfile
    exact ⟨file, hlisted, of_decide_eq_true hunknown, hsame⟩
  · rintro ⟨file, hlisted, hunknown, hsame⟩
    exact ⟨file.2, List.mem_map_of_mem (List.mem_filter.mpr
      ⟨hlisted, decide_eq_true hunknown⟩), hsame⟩

omit [DecidableEq Path] [DecidableEq Hash] in
theorem lookup_inferOne (blocked : Bool) (now : ℕ) (acc : List Id × List (Id × ℕ))
    (check : Id × Stat) {id : Id} (hne : id ≠ check.1) :
    (inferOne blocked now acc check).2.lookup id = acc.2.lookup id := by
  have hfilter : (acc.2.filter fun entry => entry.1 ≠ check.1).lookup id = acc.2.lookup id := by
    induction acc.2 with
    | nil => rfl
    | cons entry entries ih =>
      by_cases hkey : entry.1 = check.1
      · rw [List.filter_cons_of_neg (by simpa using hkey), ih, List.lookup_cons,
          beq_eq_false_iff_ne.mpr (hkey ▸ hne)]
      · rw [List.filter_cons_of_pos (by simpa using hkey), List.lookup_cons, List.lookup_cons, ih]
  obtain ⟨other, stat⟩ := check
  cases stat with
  | present found => exact hfilter
  | unknown => exact hfilter
  | missing =>
    simp only [inferOne]
    split
    · rfl
    · split
      · split <;> rfl
      · rw [List.lookup_append, List.lookup_cons, beq_eq_false_iff_ne.mpr hne]
        simp

omit [DecidableEq Path] [DecidableEq Hash] in
theorem mem_foldl_inferOne {blocked : Bool} {now : ℕ} {id : Id} {checks : List (Id × Stat)}
    (hids : (checks.map Prod.fst).Nodup) (acc : List Id × List (Id × ℕ)) :
    id ∈ (checks.foldl (inferOne blocked now) acc).1 ↔ id ∈ acc.1 ∨
      blocked = false ∧ (id, .missing) ∈ checks ∧
        ∃ since, acc.2.lookup id = some since ∧ settle ≤ now - since := by
  induction checks generalizing acc with
  | nil => simp
  | cons check checks ih =>
    obtain ⟨hnot, hrest⟩ := List.nodup_cons.mp hids
    rw [List.foldl_cons, ih hrest]
    by_cases hid : id = check.1
    · -- This check settles the row, as no later one is of it.
      have hlater : (id, Stat.missing) ∉ checks := fun hmem =>
        hnot (hid ▸ List.mem_map_of_mem (f := Prod.fst) hmem)
      obtain ⟨other, stat⟩ := check
      cases hid
      cases stat <;> grind [inferOne]
    · have hsame : id ∈ (inferOne blocked now acc check).1 ↔ id ∈ acc.1 := by
        rw [inferOne]
        repeat' split
        all_goals simp [hid]
      have hmem : (id, Stat.missing) ∈ check :: checks ↔ (id, Stat.missing) ∈ checks := by
        rw [List.mem_cons, or_iff_right]
        exact fun heq => hid (congrArg Prod.fst heq)
      rw [hsame, lookup_inferOne blocked now acc check hid, hmem]

section Rows

variable (hids : (pass.rows.map (·.id)).Nodup)
include hids

omit [DecidableEq Id] [DecidableEq Path] [DecidableEq Hash] in
theorem Pass.row_ext {other : FileRecord Id Path Hash} (hrow : row ∈ pass.rows)
    (hother : other ∈ pass.rows) (hid : other.id = row.id) : other = row :=
  List.inj_on_of_nodup_map hids hother hrow hid

omit [DecidableEq Path] [DecidableEq Hash] in
theorem Pass.byId_eq (hrow : row ∈ pass.rows) : pass.byId row.id = some row := by
  obtain ⟨found, hfound⟩ : ∃ found, pass.byId row.id = some found :=
    Option.isSome_iff_exists.mp (List.find?_isSome.mpr ⟨row, hrow, decide_eq_true rfl⟩)
  rw [hfound, pass.row_ext hids hrow (List.mem_of_find?_eq_some hfound)
    (of_decide_eq_true (List.find?_some hfound :))]

omit [DecidableEq Path] [DecidableEq Hash] in
theorem Pass.nodup_checks :
    (((pass.checks held).map fun look => (look.1.id, look.2)).map Prod.fst).Nodup := by
  rw [List.map_map]
  refine List.Nodup.sublist (List.Sublist.map _ List.filter_sublist) ?_
  have hlinked : ∀ rows : List (FileRecord Id Path Hash), (rows.map (·.id)).Nodup →
      ((rows.filterMap fun row => if row.state = .notKept then none
        else row.watchPath.map fun path => (row, pass.statAt path)).map (·.1.id)).Nodup := by
    intro rows hrows
    refine hrows.sublist ?_
    induction rows with
    | nil => exact List.Sublist.slnil
    | cons row rows ih =>
      have hrest := ih hrows.of_cons
      rw [List.filterMap_cons]
      split
      · exact hrest.cons _
      next look hlook =>
        rw [Option.ite_none_left_eq_some] at hlook
        obtain ⟨path, -, rfl⟩ := Option.map_eq_some_iff.mp hlook.2
        exact hrest.cons_cons _
  exact hlinked pass.rows hids

omit [DecidableEq Path] [DecidableEq Hash] in
theorem Pass.gone_iff (state : State Id) (hrow : row ∈ pass.rows) :
    pass.Gone state row ↔ row.id ∈ (pass.heldMissing (pass.heldIds state)).map (·.id) ∨
      row.id ∈ (pass.infer (pass.heldIds state) state.missing).1 := by
  have hlinked : ∀ look ∈ pass.linked, look.1.id = row.id → look.1 = row := fun look hlook hid =>
    pass.row_ext hids hrow (Pass.mem_linked hlook).1 hid
  refine or_congr ⟨List.mem_map_of_mem, fun hmem => ?_⟩ ?_
  · obtain ⟨other, hother, hid⟩ := List.mem_map.mp hmem
    obtain ⟨look, hlook, rfl⟩ := List.mem_map.mp hother
    rw [← hlinked look (List.mem_of_mem_filter hlook) hid]
    exact hother
  · simp only [Pass.infer, inferMissing]
    rw [mem_foldl_inferOne (pass.nodup_checks hids), or_iff_right List.not_mem_nil]
    refine and_congr (by simp) (and_congr_left fun _ => ⟨fun hmem => ?_, fun hmem => ?_⟩)
    · exact List.mem_map_of_mem (f := fun look : FileRecord Id Path Hash × Stat =>
        (look.1.id, look.2)) hmem
    · obtain ⟨look, hlook, heq⟩ := List.mem_map.mp hmem
      have hsame := hlinked look (List.mem_of_mem_filter hlook) (congrArg Prod.fst heq)
      have hstat : look.2 = .missing := congrArg Prod.snd heq
      rw [← hsame, ← hstat]
      exact hlook

end Rows

omit [DecidableEq Path] [DecidableEq Hash] in
theorem Pass.mem_rows_of_gone {state : State Id} (hgone : pass.Gone state row) :
    row ∈ pass.rows := by
  rcases hgone with hheld | ⟨-, hcheck, -⟩
  · obtain ⟨look, hlook, rfl⟩ := List.mem_map.mp hheld
    exact (Pass.mem_linked (List.mem_of_mem_filter hlook)).1
  · exact (Pass.mem_linked (List.mem_of_mem_filter hcheck)).1

/-- A row classed as moved is released, and what is released was inferred. -/
theorem Pass.mem_release (state : State Id) (id : Id) (hmoved : pass.isMoved held id = true) :
    id ∈ (pass.braked held state.missing state.removalWindow).1.release ↔
      id ∈ (pass.infer held state.missing).1 := by
  rcases brake_cases (pass.infer held state.missing).1 (pass.isMoved held) (pass.holding held)
    (pass.pending held state.missing) (pass.checks held).length state.removalWindow pass.now with
    ⟨hrelease, -⟩ | ⟨-, -, -, -, hbraked⟩
  · rw [Pass.braked, hrelease, List.mem_filter, and_iff_left hmoved]
  · rw [Pass.braked, hbraked]
    simp [hmoved]

/-- Each row that is released and not classed as moved adds an instant. -/
theorem Pass.removalWindow_folderPass (state : State Id) (pass : Pass Id Path Hash) :
    (state.folderPass pass).removalWindow =
      (state.removalWindow.dropWhile fun instant => decide (brakeWindow ≤ pass.now - instant)) ++
      List.replicate ((pass.braked (pass.heldIds state) state.missing
        state.removalWindow).1.release.filter
          fun id => !pass.isMoved (pass.heldIds state) id).length pass.now := by
  rcases brake_cases (pass.infer (pass.heldIds state) state.missing).1
    (pass.isMoved (pass.heldIds state)) (pass.holding (pass.heldIds state))
    (pass.pending (pass.heldIds state) state.missing) (pass.checks (pass.heldIds state)).length
    state.removalWindow pass.now with ⟨hrelease, hkept⟩ | ⟨-, -, -, -, hbraked⟩
  · rw [Pass.braked, hrelease, filter_moved_eq_nil, List.length_nil, List.replicate_zero,
      List.append_nil]
    exact hkept
  · simp only [State.folderPass]
    rw [Pass.braked, hbraked, List.filter_append, filter_moved_eq_nil, List.nil_append,
      List.filter_filter]
    simp only [Bool.and_self]

end Moved

/-- A row that a pass removes as moved has its content in a file of the folder,
exactly where the hashes of linked files and the sizes and times of the others tell
so; and every row that it releases and that is not classed as moved is counted by
the brake, with one instant each. -/
theorem removed_rows_are_moved_or_counted (sha256 : Content → Hash)
    (content : Path → Content) (state : State Id) (pass : Pass Id Path Hash)
    (hids : (pass.rows.map (·.id)).Nodup) :
    let held := pass.heldIds state
    let release := (pass.braked held state.missing state.removalWindow).1.release
    ((∀ row ∈ pass.rows, row.id ∈ pass.movedHeld held ∨
        row.id ∈ release ∧ pass.isMoved held row.id = true →
        ∃ path, pass.IsFile path ∧ row.plainSha256 = some (sha256 (content path))) ↔
      pass.Telling state sha256 content) ∧
    ∃ kept, (state.folderPass pass).removalWindow = kept ++
      List.replicate (release.filter fun id => !pass.isMoved held id).length pass.now := by
  intro held release
  have hremoved : ∀ row ∈ pass.rows, (row.id ∈ pass.movedHeld held ∨
      row.id ∈ release ∧ pass.isMoved held row.id = true) ↔
      pass.Gone state row ∧ pass.stillHere held row = true := by
    intro row hrow
    have hbyId : pass.isMoved held row.id = pass.stillHere held row := by
      rw [Pass.isMoved, pass.byId_eq hids hrow, Option.any_some]
    have hmoved : row.id ∈ pass.movedHeld held ↔
        row.id ∈ (pass.heldMissing held).map (·.id) ∧ pass.stillHere held row = true := by
      constructor
      · intro hmem
        obtain ⟨other, hother, hid⟩ := List.mem_map.mp hmem
        obtain ⟨hmissing, hhere⟩ := List.mem_filter.mp hother
        obtain ⟨look, hlook, rfl⟩ := List.mem_map.mp hmissing
        have hsame := pass.row_ext hids hrow
          (Pass.mem_linked (List.mem_of_mem_filter hlook)).1 hid
        rw [hsame] at hmissing hhere
        exact ⟨List.mem_map_of_mem hmissing, hhere⟩
      · rintro ⟨hmem, hhere⟩
        obtain ⟨other, hother, hid⟩ := List.mem_map.mp hmem
        obtain ⟨look, hlook, rfl⟩ := List.mem_map.mp hother
        have hsame := pass.row_ext hids hrow
          (Pass.mem_linked (List.mem_of_mem_filter hlook)).1 hid
        rw [hsame] at hother
        exact List.mem_map_of_mem (List.mem_filter.mpr ⟨hother, hhere⟩)
    rw [pass.gone_iff hids state hrow, hmoved, hbyId, or_and_right]
    refine or_congr_right (and_congr_left fun hhere => ?_)
    exact Pass.mem_release state row.id (hbyId.trans hhere)
  refine ⟨⟨fun hcontent => ⟨?_, ?_⟩, fun htelling row hrow hmem => ?_⟩, ?_⟩
  · intro row hgone look hlook found hpresent hsame plain hother hplain
    have hrow := pass.mem_rows_of_gone hgone
    exact hcontent row hrow ((hremoved row hrow).mpr ⟨hgone, Pass.stillHere_iff.mpr
      (Or.inl ⟨look, hlook, found, hpresent, hsame, plain, hother, hplain⟩)⟩)
  · intro row hgone file hfile hunknown hsame
    have hrow := pass.mem_rows_of_gone hgone
    exact hcontent row hrow ((hremoved row hrow).mpr ⟨hgone, Pass.stillHere_iff.mpr
      (Or.inr ⟨file, hfile, hunknown, hsame⟩)⟩)
  · obtain ⟨hgone, hhere⟩ := (hremoved row hrow).mp hmem
    rcases Pass.stillHere_iff.mp hhere with
      ⟨look, hlook, found, hpresent, hsame, plain, hother, hplain⟩ | ⟨file, hfile, hunknown, hsame⟩
    · exact htelling.linked row hgone look hlook found hpresent hsame plain hother hplain
    · exact htelling.unknown row hgone file hfile hunknown hsame
  · exact ⟨_, pass.removalWindow_folderPass state⟩

/-- File 0 was moved to path 2, and file 1 is gone. -/
def moveAndLoss : Pass ℕ ℕ ℕ where
  now := settle
  rows := [sampleRow 0 5 1, sampleRow 1 6 2]
  scan := sampleScan [(2, ⟨5, 7⟩)]

theorem removed_rows_are_moved_or_counted_after_a_move :
    let state : State ℕ := { missing := [(0, 0), (1, 0)] }
    (∃ path, moveAndLoss.IsFile path ∧ (sampleRow 0 5 1).plainSha256 = some (path - 1)) ∧
      (moveAndLoss.braked [] state.missing []).1.release = [0, 1] ∧
      ∃ kept, (state.folderPass moveAndLoss).removalWindow = kept ++ [settle] := by
  intro state
  obtain ⟨hmoved, kept, hcounted⟩ := removed_rows_are_moved_or_counted id (fun path => path - 1)
    state moveAndLoss (by decide)
  refine ⟨hmoved.mpr ⟨?_, ?_⟩ _ List.mem_cons_self (Or.inr (by decide)), by decide, kept, hcounted⟩
  · intro row _ look hlook found hpresent
    have hmissing : ∀ look ∈ moveAndLoss.checks (moveAndLoss.heldIds state),
        look.2 = .missing := by
      decide
    rw [hmissing look hlook] at hpresent
    cases hpresent
  · intro row hgone file hfile _ hsame
    cases List.mem_singleton.mp hfile
    have hplain : ∀ row ∈ moveAndLoss.rows, row.unchanged ⟨5, 7⟩ = true →
        row.plainSha256 = some 1 := by
      decide
    exact ⟨2, Or.inl ⟨_, hfile⟩, hplain row (moveAndLoss.mem_rows_of_gone hgone) hsame⟩

/-- Files 0 and 1 have one size and one time.  File 0 was moved to path 2 and
file 1 is gone. -/
def sameStamp (now : ℕ) : Pass ℕ ℕ ℕ where
  now := now
  rows := [sampleRow 0 5 1, sampleRow 1 5 2]
  scan := sampleScan [(2, ⟨5, 7⟩)]

/-- The one moved file excuses both rows: row 1 is removed and not counted,
and its content is nowhere in the folder. -/
theorem lost_content_passes_as_moved : ∃ state : State ℕ,
      Reaches (step : State ℕ → Action ℕ ℕ ℕ → _) everyStep {} state ∧
      1 ∈ ((sameStamp settle).braked state.held state.missing state.removalWindow).1.release ∧
      (state.folderPass (sameStamp settle)).removalWindow = [] ∧
      (state.folderPass (sameStamp settle)).log = [] ∧
      sampleRow 1 5 2 ∈ (sameStamp settle).rows ∧
      ∀ path, (sameStamp settle).IsFile path → (sampleRow 1 5 2).plainSha256 ≠ some (path - 1) := by
  refine ⟨State.folderPass {} (sameStamp 0), .step .refl trivial
    (show step _ (.pass (sameStamp 0)) = _ from rfl), by decide, by decide, by decide,
    by simp [sameStamp], ?_⟩
  have hpath : ∀ path, (sameStamp settle).IsFile path → path = 2 := by
    rintro path (⟨found, hfound⟩ | ⟨found, hfound⟩)
    · cases List.mem_singleton.mp hfound
      rfl
    · by_contra hne
      have hnone : (sameStamp settle).statAt path = .missing := by
        simp [Pass.statAt, sameStamp, sampleScan, List.lookup, beq_eq_false_iff_ne.mpr hne]
      rw [hnone] at hfound
      cases hfound
  intro path hfile
  rw [hpath path hfile]
  decide

end FolderWatch
end Wildbloom
