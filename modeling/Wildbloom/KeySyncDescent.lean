import Wildbloom.KeySyncCoverage

/-!
# The list of a computer descends from its online copy

A sync deletes the copy its computer uploaded before.  That is safe as long as
the computer's own list holds every id of that copy.  It does while the list
is in memory, and a restart takes it from the sealed copy.  When the sealed
copy is missing or cannot be opened, the list is rebuilt from the index, and
an id that came from another computer is no longer in it.
-/

namespace Wildbloom
namespace KeySync

open KeyLists (KeyList KeyListError)
open Runs

variable {Computer Id Data : Type}

section Readable

variable [LinearOrder Id] [DecidableEq Data]

/-- A computer that has uploaded and has no list in memory can open its sealed
copy. -/
def Local.Readable (computer : Local Id Data) : Prop :=
  computer.slot = none → computer.onlineSha ≠ none →
    ∃ list opened, computer.sealedCopy = .kept list ∧
      KeyList.openNewest [some list] computer.lastSeen = .ok opened

/-- The sealed copy can be read at each step that loads the list. -/
def ReadableStep (state : State Computer Id Data) : Action Computer Id Data → Prop
  | .sync name | .addEntry name _ _ => (state.computers name).Readable
  | .advance name _ => ∀ opened,
      (state.computers name).run = .pullMerge opened → (state.computers name).Readable
  | _ => True

end Readable

/-! ## The invariant -/

def Run.working : Run Id Data → Option (KeyList Id Data)
  | .syncSeal list | .syncSealed list _ | .syncList list _ _
  | .syncDownload list _ _ _ _ _ | .syncSettle list _ _ _
  | .syncResealed list _ | .syncUpload list _ | .syncQueuePrevious _ list _
  | .pullAdopt list _ _ => some list
  | _ => none

/-- Everything the computer would go on from holds every id of `copy`. -/
structure Local.Carries (computer : Local Id Data) (copy : KeyList Id Data) : Prop where
  slot : ∀ list, computer.slot = some list → copy.Within list
  sealedCopy : ∀ list, computer.sealedCopy = .kept list → copy.Within list
  working : ∀ list, computer.run.working = some list → copy.Within list

/-- The list is in memory and sealed, as far as there is a sealed copy. -/
structure Saved (slot : Option (KeyList Id Data))
    (sealedCopy : SealedCopy Id Data) (list : KeyList Id Data) : Prop where
  slot : ∃ current, slot = some current ∧ list.Within current
  sealedCopy : ∀ current, sealedCopy = .kept current → list.Within current

/-- The list that a run has saved when it says so. -/
def Run.Saves (stored : List (KeyList Id Data))
    (slot : Option (KeyList Id Data)) (sealedCopy : SealedCopy Id Data) : Run Id Data → Prop
  | .syncSealed list _ | .syncResealed list _ =>
    ∀ current, sealedCopy = .kept current → list.Within current
  | .syncList list isSealed _ | .syncSettle list isSealed _ _ =>
    isSealed = true → Saved slot sealedCopy list
  | .syncDownload list isSealed _ _ copies _ =>
    list ∈ copies ∧ (isSealed = true → Saved slot sealedCopy list)
  | .syncUpload list _ | .syncQueuePrevious _ list _ =>
    Saved slot sealedCopy list
  | .syncRecord sha _ =>
    ∀ copy, stored[sha]? = some copy → Saved slot sealedCopy copy
  | _ => True

structure Local.Descends (stored : List (KeyList Id Data)) (computer : Local Id Data) : Prop where
  recorded : ∀ previous copy, computer.onlineSha = some previous →
    stored[previous]? = some copy → computer.Carries copy
  saves : computer.run.Saves stored computer.slot computer.sealedCopy

variable {stored : List (KeyList Id Data)} {computer next : Local Id Data}
  {list copy : KeyList Id Data}

theorem Saved.carries (hsaved : Saved computer.slot computer.sealedCopy list)
    (hworking : computer.run.working = none) : computer.Carries list where
  slot := by
    intro current hslot
    obtain ⟨found, hfound, hwithin⟩ := hsaved.slot
    rw [hslot, Option.some.injEq] at hfound
    rw [hfound]
    exact hwithin
  sealedCopy := hsaved.sealedCopy
  working := by
    intro current hcurrent
    rw [hworking] at hcurrent
    cases hcurrent

theorem Local.Descends.move (hlocal : computer.Descends stored)
    (honline : next.onlineSha = computer.onlineSha)
    (hcarries : ∀ copy, computer.onlineSha ≠ none → computer.Carries copy → next.Carries copy)
    (hsaves : next.run.Saves stored next.slot next.sealedCopy) : next.Descends stored where
  recorded := by
    intro previous copy hprevious hcopy
    rw [honline] at hprevious
    apply hcarries copy
    · rw [hprevious]
      exact Option.some_ne_none previous
    · exact hlocal.recorded previous copy hprevious hcopy
  saves := hsaves

theorem Local.Descends.goto (hlocal : computer.Descends stored)
    (honline : next.onlineSha = computer.onlineSha) (hslot : next.slot = computer.slot)
    (hsealed : next.sealedCopy = computer.sealedCopy)
    (hworking : next.run.working = computer.run.working ∨ next.run.working = none)
    (hsaves : next.run.Saves stored computer.slot computer.sealedCopy) : next.Descends stored := by
  rw [← hslot, ← hsealed] at hsaves
  refine hlocal.move honline ?_ hsaves
  intro copy _ hcarries
  refine ⟨hslot ▸ hcarries.slot, hsealed ▸ hcarries.sealedCopy, ?_⟩
  intro list hlist
  rcases hworking with hsame | hnone
  · exact hcarries.working list (hsame.symm.trans hlist)
  · exact absurd (hnone.symm.trans hlist) (by simp)

theorem Run.Saves.append {run : Run Id Data} {slot : Option (KeyList Id Data)}
    {sealedCopy : SealedCopy Id Data} (more : List (KeyList Id Data))
    (hjustified : run.Justified stored) (hsaves : run.Saves stored slot sealedCopy) :
    run.Saves (stored ++ more) slot sealedCopy := by
  cases run with
  | syncRecord sha mergedAway =>
    intro copy hcopy
    rw [List.getElem?_append_left hjustified.1] at hcopy
    exact hsaves copy hcopy
  | _ => exact hsaves

theorem Local.Descends.append (more : List (KeyList Id Data))
    (hjustified : computer.Justified stored) (hlocal : computer.Descends stored) :
    computer.Descends (stored ++ more) where
  recorded := by
    intro previous copy hprevious hcopy
    rw [List.getElem?_append_left (hjustified.online previous hprevious)] at hcopy
    exact hlocal.recorded previous copy hprevious hcopy
  saves := hlocal.saves.append more hjustified.run

section Steps

variable [LinearOrder Id] [DecidableEq Data] {valid : Id → Data → Bool}

/-! ## Loading a list -/

omit [DecidableEq Data] in
theorem within_reconcileKeyList (index : Index Id Data) (list : KeyList Id Data) :
    list.Within (Local.reconcileKeyList valid index list) := by
  -- Both loops keep that the list they started with is within theirs.
  apply List.foldlRecOn (motive := fun next => list.Within next)
  · apply List.foldlRecOn (motive := fun next => list.Within next)
    · exact KeyList.Within.refl list
    · intro next hnext stone _
      split
      next hremove =>
        exact hnext.trans (KeyList.within_remove hremove)
      · exact hnext
  · intro next hnext file _
    split
    · exact hnext
    · split
      next hinsert =>
        exact hnext.trans (KeyList.within_insert hinsert)
      · exact hnext

/-- A computer that has uploaded and can read its sealed copy loads a list. -/
theorem Local.Readable.load (hreadable : computer.Readable) (honline : computer.onlineSha ≠ none) :
    ∃ list, computer.loadKeyList valid = .ok list := by
  unfold Local.loadKeyList
  cases hslot : computer.slot with
  | some list => exact ⟨list, rfl⟩
  | none =>
    obtain ⟨list, opened, hkept, hopen⟩ := hreadable hslot honline
    rw [hkept]
    refine ⟨Local.reconcileKeyList valid computer.index opened, ?_⟩
    simp only [hopen, bind, Except.bind]

theorem Local.Carries.load (hcarries : computer.Carries copy)
    (hpresent : computer.slot = none → computer.sealedCopy ≠ .missing)
    (hload : computer.loadKeyList valid = .ok list) : copy.Within list := by
  unfold Local.loadKeyList at hload
  split at hload
  next current hslot =>
    cases hload
    exact hcarries.slot list hslot
  next hslot =>
    split at hload
    next hmissing =>
      exact absurd hmissing (hpresent hslot)
    · cases hload
    next kept hkept =>
      cases hopen : KeyList.openNewest [some kept] computer.lastSeen with
      | error error =>
        rw [hopen] at hload
        cases hload
      | ok opened =>
        rw [hopen] at hload
        cases hload
        have hopened : kept.Within opened :=
          KeyList.within_openNewest hopen List.mem_cons_self
        exact ((hcarries.sealedCopy kept hkept).trans hopened).trans
          (within_reconcileKeyList computer.index opened)

theorem Local.Readable.present (hreadable : computer.Readable)
    (honline : computer.onlineSha ≠ none) :
    computer.slot = none → computer.sealedCopy ≠ .missing := by
  intro hslot hmissing
  obtain ⟨list, _, hkept, _⟩ := hreadable hslot honline
  rw [hmissing] at hkept
  cases hkept

/-! ## Steps -/

theorem Local.Descends.startSync (hlocal : computer.Descends stored)
    (hreadable : computer.Readable) : (computer.startSync valid).Descends stored := by
  unfold Local.startSync
  split
  next list hload =>
    refine hlocal.move rfl ?_ trivial
    intro copy honline hcarries
    have hlist : copy.Within list :=
      hcarries.load (hreadable.present honline) hload
    refine ⟨?_, hcarries.sealedCopy, ?_⟩
    · intro current hcurrent
      cases hcurrent
      exact hlist
    · intro current hcurrent
      cases hcurrent
      exact hlist.trans (within_reconcileKeyList computer.index list)
  next error hload =>
    refine hlocal.move rfl ?_ trivial
    intro copy honline
    obtain ⟨list, hlist⟩ : ∃ list, computer.loadKeyList valid = .ok list :=
      hreadable.load honline
    rw [hload] at hlist
    cases hlist

omit [LinearOrder Id] [DecidableEq Data] in
theorem Local.Carries.reseal {sealed : KeyList Id Data} (hcarries : computer.Carries copy)
    (hworking : computer.run.working = some list) (hseal : list.sealList = .ok sealed)
    {run : Run Id Data} (hrun : run.working = some sealed) :
    Local.Carries { computer with sealedCopy := .kept sealed, run := run } copy := by
  have hsealed : copy.Within sealed := fun id hholds =>
    (KeyList.holds_sealList hseal id).mpr (hcarries.working list hworking id hholds)
  refine ⟨hcarries.slot, ?_, ?_⟩
  · intro current hcurrent
    cases hcurrent
    exact hsealed
  · intro current hcurrent
    rw [hrun] at hcurrent
    cases hcurrent
    exact hsealed

omit [LinearOrder Id] [DecidableEq Data] in
theorem Local.Carries.keep (hcarries : computer.Carries copy)
    (hworking : computer.run.working = some list) (hslot : next.slot = some list)
    (hsealed : next.sealedCopy = computer.sealedCopy)
    (hrun : next.run.working = some list ∨ next.run.working = none) : next.Carries copy := by
  have hlist := hcarries.working list hworking
  refine ⟨?_, ?_, ?_⟩
  · intro current hcurrent
    rw [hslot] at hcurrent
    cases hcurrent
    exact hlist
  · rw [hsealed]
    exact hcarries.sealedCopy
  · intro current hcurrent
    rcases hrun with hsome | hnone
    · rw [hsome] at hcurrent
      cases hcurrent
      exact hlist
    · rw [hnone] at hcurrent
      cases hcurrent

/-- Merging keeps what the list holds, and a list that changed is no longer
sealed. -/
theorem Local.Descends.settle {isSealed : Bool} {lastSeen : ℕ} {copies : List (KeyList Id Data)}
    {mergedAway : List ℕ} (hlocal : computer.Descends stored)
    (hworking : computer.run.working = some list) (hlist : list ∈ copies)
    (hsaved : isSealed = true → Saved computer.slot computer.sealedCopy list) :
    (computer.goto (Local.settle list isSealed lastSeen copies mergedAway)).Descends stored := by
  have hsame : ∀ away : List ℕ, (computer.goto
      (.syncSettle list isSealed lastSeen away)).Descends stored := by
    intro away
    exact hlocal.goto rfl rfl rfl (Or.inl hworking.symm) hsaved
  unfold Local.settle
  split
  next merged hmerge =>
    split
    · split
      · refine hlocal.move rfl ?_ ?_
        · intro copy _ hcarries
          refine ⟨hcarries.slot, hcarries.sealedCopy, ?_⟩
          intro current hcurrent
          cases hcurrent
          exact (hcarries.working list hworking).trans (KeyList.within_merge hmerge hlist)
        · intro hsealed
          cases hsealed
      · exact hsame mergedAway
    · exact hsame []
  · exact hsame []

theorem Local.Descends.pullMerge {current : KeyList Id Data}
    {opened : List (ℕ × KeyList Id Data)} {outcome : Outcome}
    (hlocal : computer.Descends stored) (hreadable : computer.Readable)
    (hload : computer.loadKeyList valid = .ok current) :
    (computer.pullMerge outcome current opened).Descends stored := by
  have hcurrent : ∀ copy, computer.onlineSha ≠ none → computer.Carries copy →
      copy.Within current := by
    intro copy honline hcarries
    exact hcarries.load (hreadable.present honline) hload
  -- what holds of the current list holds of any list that takes its place
  have hreplace : ∀ (list : KeyList Id Data) (pulled : List ℕ),
      current.Within list → Local.Descends stored
        { computer with slot := some list, pulled := pulled, run := .idle } := by
    intro list pulled hwithin
    refine hlocal.move rfl ?_ trivial
    intro copy honline hcarries
    refine ⟨?_, hcarries.sealedCopy, ?_⟩
    · intro other hother
      cases hother
      exact (hcurrent copy honline hcarries).trans hwithin
    · intro other hother
      cases hother
  unfold Local.pullMerge
  split
  · exact hreplace current _ (KeyList.Within.refl current)
  next newest _ =>
    split
    · exact hreplace current _ (KeyList.Within.refl current)
    next merged hmerge =>
      have hmerged : current.Within merged :=
        KeyList.within_merge hmerge List.mem_cons_self
      split
      · exact hreplace current _ (KeyList.Within.refl current)
      · split
        next hadopt =>
          refine hlocal.move rfl ?_ trivial
          intro copy honline hcarries
          have hcopy := hcurrent copy honline hcarries
          refine ⟨?_, ?_, ?_⟩
          · intro other hother
            cases hother
            exact hcopy
          · intro other hother
            cases hother
            exact (hcopy.trans hmerged).trans (KeyList.within_of_sameContent hadopt.1)
          · intro other hother
            cases hother
            exact hcopy.trans hmerged
        · exact hreplace merged _ hmerged

theorem Local.Descends.step {node : Node Id Data} {outcome : Outcome}
    {next : Node Id Data × Local Id Data} (hjustified : computer.Justified node.stored)
    (hlocal : computer.Descends node.stored)
    (hguard : ∀ opened, computer.run = .pullMerge opened → computer.Readable)
    (hstep : computer.step valid node outcome = some next) : next.2.Descends next.1.stored := by
  have hsaves := hlocal.saves
  have hidle : (computer.goto .idle).Descends node.stored :=
    hlocal.goto rfl rfl rfl (Or.inr rfl) trivial
  obtain ⟨index, slot, sealedCopy, lastSeen, onlineSha, pulled, deletes, run⟩ := computer
  cases run with
  | idle =>
    cases hstep
  | syncSeal list =>
    simp only [Local.step] at hstep
    split at hstep
    · split at hstep
      next sealed hseal =>
        split at hstep
        · cases hstep
          refine hlocal.move rfl ?_ ?_
          · intro copy _ hcarries
            exact hcarries.reseal rfl hseal rfl
          · intro current hcurrent
            cases hcurrent
            exact KeyList.Within.refl sealed
        · cases hstep
          exact hidle
      · cases hstep
        exact hidle
    · cases hstep
      refine hlocal.goto rfl rfl rfl (Or.inl rfl) ?_
      intro hsealed
      cases hsealed
  | syncSealed list lastSeen =>
    cases hstep
    refine hlocal.move rfl ?_ ?_
    · intro copy _ hcarries
      exact hcarries.keep rfl rfl rfl (Or.inl rfl)
    · exact fun _ => ⟨⟨list, rfl, KeyList.Within.refl list⟩, hsaves⟩
  | syncList list isSealed lastSeen =>
    cases hstep
    split
    · exact hlocal.goto rfl rfl rfl (Or.inl rfl) ⟨List.mem_cons_self, hsaves⟩
    · exact hlocal.goto rfl rfl rfl (Or.inl rfl) hsaves
  | syncDownload list isSealed lastSeen todo copies mergedAway =>
    obtain ⟨hlist, hsaved⟩ := hsaves
    cases todo with
    | nil =>
      cases hstep
      exact hlocal.settle rfl hlist hsaved
    | cons sha todo =>
      cases hstep
      split
      · exact hlocal.goto rfl rfl rfl (Or.inl rfl) ⟨List.mem_append_left _ hlist, hsaved⟩
      · exact hlocal.goto rfl rfl rfl (Or.inl rfl) ⟨hlist, hsaved⟩
  | syncSettle list isSealed lastSeen mergedAway =>
    simp only [Local.step] at hstep
    split at hstep
    · cases hstep
      exact hidle
    · split at hstep
      next hsealed =>
        cases hstep
        refine hlocal.move rfl ?_ ?_
        · intro copy _ hcarries
          exact hcarries.keep rfl rfl rfl (Or.inl rfl)
        · exact ⟨⟨list, rfl, KeyList.Within.refl list⟩, (hsaves hsealed).sealedCopy⟩
      · split at hstep
        next sealed hseal =>
          split at hstep
          · cases hstep
            refine hlocal.move rfl ?_ ?_
            · intro copy _ hcarries
              exact hcarries.reseal rfl hseal rfl
            · intro current hcurrent
              cases hcurrent
              exact KeyList.Within.refl sealed
          · cases hstep
            exact hidle
        · cases hstep
          exact hidle
  | syncResealed list mergedAway =>
    cases hstep
    refine hlocal.move rfl ?_ ?_
    · intro copy _ hcarries
      exact hcarries.keep rfl rfl rfl (Or.inl rfl)
    · exact ⟨⟨list, rfl, KeyList.Within.refl list⟩, hsaves⟩
  | syncUpload list mergedAway =>
    have hmore := hlocal.append [list] hjustified
    simp only [Local.step] at hstep
    cases outcome with
    | ok =>
      cases hstep
      exact hmore.goto rfl rfl rfl (Or.inl rfl) hsaves
    | lost =>
      cases hstep
      exact hmore.goto rfl rfl rfl (Or.inr rfl) trivial
    | _ =>
      cases hstep
      exact hidle
  | syncQueuePrevious sha list mergedAway =>
    have hsha : node.stored[sha]? = some list := hjustified.run.1
    have hrecord : Run.Saves node.stored slot sealedCopy (.syncRecord sha mergedAway) := by
      intro copy hfound
      rw [hsha] at hfound
      cases hfound
      exact hsaves
    cases hstep
    split
    · split <;> exact hlocal.goto rfl rfl rfl (Or.inr rfl) hrecord
    · exact hlocal.goto rfl rfl rfl (Or.inr rfl) hrecord
  | syncRecord sha mergedAway =>
    cases hstep
    refine ⟨?_, trivial⟩
    intro previous copy hprevious hcopy
    cases hprevious
    exact Saved.carries (hsaves copy hcopy) rfl
  | syncQueue sha mergedAway =>
    cases mergedAway with
    | nil =>
      cases hstep
      exact hidle
    | cons old mergedAway =>
      cases hstep
      split <;> exact hlocal.goto rfl rfl rfl (Or.inr rfl) trivial
  | pullList =>
    cases hstep
    split
    · exact hlocal.goto rfl rfl rfl (Or.inr rfl) trivial
    · exact hidle
  | pullDownload todo opened =>
    cases todo with
    | nil =>
      cases hstep
      exact hlocal.goto rfl rfl rfl (Or.inr rfl) trivial
    | cons sha todo =>
      simp only [Local.step] at hstep
      split at hstep <;>
      · cases hstep
        exact hlocal.goto rfl rfl rfl (Or.inr rfl) trivial
  | pullMerge opened =>
    simp only [Local.step] at hstep
    split at hstep
    · cases hstep
      exact hidle
    next current hload =>
      cases hstep
      exact hlocal.pullMerge (hguard opened rfl) hload
  | pullAdopt merged seq opened =>
    cases hstep
    refine hlocal.move rfl ?_ trivial
    intro copy _ hcarries
    exact hcarries.keep rfl rfl rfl (Or.inr rfl)

theorem Local.Descends.grow (hlocal : computer.Descends stored) {grown : KeyList Id Data}
    (hload : computer.loadKeyList valid = .ok list)
    (hpresent : computer.onlineSha ≠ none → computer.slot = none → computer.sealedCopy ≠ .missing)
    (hgrown : list.Within grown) (hfree : computer.run.holdsSlot = false) :
    Local.Descends stored { computer with slot := some grown } := by
  have hsaved : ∀ saved, Saved computer.slot computer.sealedCopy saved →
      Saved (some grown) computer.sealedCopy saved := by
    intro saved hsaved
    obtain ⟨current, hslot, hwithin⟩ := hsaved.slot
    refine ⟨⟨grown, rfl, ?_⟩, hsaved.sealedCopy⟩
    have hcurrent : list = current := by
      simp only [Local.loadKeyList, hslot, Except.ok.injEq] at hload
      exact hload.symm
    rw [← hcurrent] at hwithin
    exact hwithin.trans hgrown
  refine hlocal.move rfl ?_ ?_
  · intro copy honline hcarries
    refine ⟨?_, hcarries.sealedCopy, hcarries.working⟩
    intro current hcurrent
    cases hcurrent
    exact (hcarries.load (hpresent honline) hload).trans hgrown
  · have hsaves := hlocal.saves
    cases hrun : computer.run with
    | syncUpload list mergedAway | syncQueuePrevious sha list mergedAway =>
      rw [hrun] at hsaves
      exact hsaved _ hsaves
    | syncRecord sha mergedAway =>
      rw [hrun] at hsaves
      exact fun copy hcopy => hsaved copy (hsaves copy hcopy)
    | syncSealed | syncList | syncDownload | syncSettle | syncResealed =>
      rw [hrun] at hfree
      cases hfree
    | _ => trivial

omit [LinearOrder Id] [DecidableEq Data] in
theorem Local.Descends.lose (hlocal : computer.Descends stored) (damaged : Bool) :
    Local.Descends stored
      { computer with sealedCopy := if damaged then .damaged else .missing } := by
  have hgone : ∀ list : KeyList Id Data,
      (if damaged then SealedCopy.damaged else .missing) ≠ .kept list := by
    intro list
    cases damaged <;> simp
  have hsaved : ∀ saved, Saved computer.slot computer.sealedCopy saved →
      Saved computer.slot (if damaged then .damaged else .missing) saved :=
    fun saved hsaved =>
      ⟨hsaved.slot, fun list hlist => absurd hlist (hgone list)⟩
  refine hlocal.move rfl ?_ ?_
  · intro copy _ hcarries
    exact ⟨hcarries.slot, fun list hlist => absurd hlist (hgone list), hcarries.working⟩
  · have hsaves := hlocal.saves
    cases hrun : computer.run with rw [hrun] at hsaves
    | syncSealed | syncResealed =>
      exact fun list hlist => absurd hlist (hgone list)
    | syncList | syncSettle =>
      exact fun hsealed => hsaved _ (hsaves hsealed)
    | syncDownload =>
      exact ⟨hsaves.1, fun hsealed => hsaved _ (hsaves.2 hsealed)⟩
    | syncUpload | syncQueuePrevious =>
      exact hsaved _ hsaves
    | syncRecord =>
      exact fun copy hcopy => hsaved copy (hsaves copy hcopy)
    | _ => trivial

end Steps

/-! ## Runs -/

section Runs

variable [DecidableEq Computer] [LinearOrder Id] [DecidableEq Data] {valid : Id → Data → Bool}
  {state : State Computer Id Data} {action : Action Computer Id Data}
  {start : State Computer Id Data}

def State.Descending (state : State Computer Id Data) : Prop :=
  ∀ name, (state.computers name).Descends state.node.stored

omit [DecidableEq Computer] [LinearOrder Id] [DecidableEq Data] in
theorem State.Descending.covering (hdescending : state.Descending)
    (action : Action Computer Id Data) : CoveringStep state action := by
  cases action with
  | advance name outcome =>
    intro sha list mergedAway previous copy hrun honline hcopy
    apply ((hdescending name).recorded previous copy honline hcopy).working
    rw [hrun]
    rfl
  | _ => trivial

omit [LinearOrder Id] [DecidableEq Data] in
theorem State.Descending.put (hdescending : state.Descending) (name : Computer)
    (hnext : next.Descends state.node.stored) : (state.put name (state.node, next)).Descending :=
  State.computers_put hnext hdescending

omit [LinearOrder Id] [DecidableEq Data] in
theorem State.Descending.delete (hdescending : state.Descending)
    (name : Computer) (sha : ℕ) (outcome : Outcome) :
    (state.put name ((state.computers name).delete state.node sha outcome)).Descending := by
  have hlocal := hdescending name
  have hfinished : Local.Descends state.node.stored { state.computers name with
        deletes := (state.computers name).deletes.erase sha } :=
    hlocal.goto rfl rfl rfl (Or.inl rfl) hlocal.saves
  cases outcome with
  | ok | ended => exact State.computers_put hfinished hdescending
  | _ =>
    exact State.computers_put hlocal hdescending

theorem State.Descending.step {after : State Computer Id Data} (hkept : Kept state)
    (hdescending : state.Descending) (hguard : ReadableStep state action)
    (hstep : KeySync.step valid state action = some after) : after.Descending := by
  cases action with simp only [KeySync.step] at hstep
  | sync name =>
    split at hstep
    · cases hstep
      exact hdescending.put name ((hdescending name).startSync hguard)
    · cases hstep
  | pull name =>
    split at hstep
    · cases hstep
      exact hdescending.put name ((hdescending name).goto rfl rfl rfl (Or.inr rfl) trivial)
    · cases hstep
  | advance name outcome =>
    obtain ⟨next, hnext, hafter⟩ := Option.map_eq_some_iff.mp hstep
    have hlocal := (hdescending name).step (hkept.justified name) hguard hnext
    obtain ⟨hnode, -⟩ := (hkept.justified name).step
      (fun sha list mergedAway previous copy =>
        hdescending.covering (.advance name outcome) sha list mergedAway previous copy) hnext
    rw [← hafter]
    refine State.computers_put hlocal ?_
    intro other
    rcases hnode with hnode | ⟨list, hnode⟩
    · simp only [State.put, hnode]
      exact hdescending other
    · simp only [State.put, hnode]
      exact (hdescending other).append [list] (hkept.justified other)
  | abort name =>
    cases hstep
    exact hdescending.put name ((hdescending name).goto rfl rfl rfl (Or.inr rfl) trivial)
  | crash name =>
    cases hstep
    apply hdescending.put name
    refine (hdescending name).move rfl ?_ trivial
    intro copy _ hcarries
    refine ⟨?_, hcarries.sealedCopy, ?_⟩
    · intro list hlist
      cases hlist
    · intro list hlist
      cases hlist
  | lose name damaged =>
    have hlocal := hdescending name
    cases hstep
    exact hdescending.put name (hlocal.lose damaged)
  | setIndex name index =>
    have hlocal := hdescending name
    cases hstep
    exact hdescending.put name (hlocal.goto rfl rfl rfl (Or.inl rfl) hlocal.saves)
  | addEntry name id data =>
    split at hstep
    · cases hstep
    next hfree =>
      cases hstep
      apply hdescending.put name
      unfold Local.addEntry
      split
      · exact hdescending name
      next list hload =>
        apply (hdescending name).grow hload
          (fun honline => hguard.present honline) _
          (Bool.eq_false_iff.mpr hfree)
        split
        next next hinsert =>
          exact KeyList.within_insert hinsert
        · exact KeyList.Within.refl list
  | removeEntry name id removedAt =>
    split at hstep
    · cases hstep
    next hfree =>
      cases hstep
      apply hdescending.put name
      unfold Local.removeEntry
      split
      · exact hdescending name
      next list hslot =>
        have hload : (state.computers name).loadKeyList valid = .ok list := by
          simp only [Local.loadKeyList, hslot]
        apply (hdescending name).grow hload _ _ (Bool.eq_false_iff.mpr hfree)
        · intro _ hnone
          rw [hslot] at hnone
          cases hnone
        · split
          next next hremove =>
            exact KeyList.within_remove hremove
          · exact KeyList.Within.refl list
  | delete name sha outcome =>
    split at hstep
    · cases hstep
      exact hdescending.delete name sha outcome
    · cases hstep

/-- Where sealed copies can be read, each sync uploads a list that holds every
id of the copy it uploaded before. -/
theorem covering_of_readable (hrest : start.AtRest) (hdescending : start.Descending)
    (hreach : Reaches (step valid) ReadableStep start state) :
    Reaches (step valid) CoveringStep start state := by
  have hinvariant : Reaches (step valid) CoveringStep start state ∧ state.Descending := by
    induction hreach with
    | refl => exact ⟨.refl, hdescending⟩
    | step _ hguard hstep ih =>
      obtain ⟨hcovering, hbefore⟩ := ih
      have hkept := Kept.of_reaches hrest hcovering
      exact ⟨.step hcovering (hbefore.covering _) hstep, hbefore.step hkept hguard hstep⟩
  exact hinvariant.1

/-- In every run in which a computer that has uploaded can read its sealed
copy whenever it loads its list, no id is lost. -/
theorem readable_runs_keep_ids (hrest : start.AtRest) (hdescending : start.Descending)
    (hreach : Reaches (step valid) ReadableStep start state) {sha : ℕ} {id : Id}
    (hcopy : state.node.stored[sha]? = some copy) (hholds : copy.Holds id) :
    ∃ other found, other ∈ state.node.copies ∧
      state.node.stored[other]? = some found ∧ found.Holds id := by
  have hcovering := covering_of_readable hrest hdescending hreach
  exact (Kept.of_reaches hrest hcovering).holds hcopy hholds

/-! ## Two runs -/

def Local.readableCheck (computer : Local Id Data) : Bool :=
  computer.slot.isSome || computer.onlineSha.isNone ||
    match computer.sealedCopy with
    | .kept list =>
      (KeyList.openNewest [some list] computer.lastSeen).toOption.isSome
    | _ => false

theorem Local.readable_of_check (hcheck : computer.readableCheck = true) : computer.Readable := by
  intro hslot honline
  simp only [Local.readableCheck, hslot, Option.isSome_none, Bool.false_or,
    Bool.or_eq_true, Option.isNone_iff_eq_none] at hcheck
  rcases hcheck with hnone | hopen
  · exact absurd hnone honline
  · split at hopen
    next list hkept =>
      cases hnewest : KeyList.openNewest [some list] computer.lastSeen with
      | error error =>
        rw [hnewest] at hopen
        cases hopen
      | ok opened => exact ⟨list, opened, hkept, hnewest⟩
    · cases hopen

def readableStepCheck (state : State Computer Id Data) : Action Computer Id Data → Bool
  | .sync name | .addEntry name _ _ | .advance name _ =>
    (state.computers name).readableCheck
  | _ => true

omit [DecidableEq Computer] in
theorem readableStep_of_check (hcheck : readableStepCheck state action = true) :
    ReadableStep state action := by
  cases action with
  | sync | addEntry => exact Local.readable_of_check hcheck
  | advance name outcome =>
    intro _ _
    exact Local.readable_of_check hcheck
  | _ => trivial

end Runs

theorem State.atRest_new : (⟨{}, fun _ => {}⟩ : State Computer Id Data).AtRest := by
  constructor
  · intro sha copy hcopy
    cases hcopy
  · exact fun _ => rfl
  · exact fun _ => rfl
  · intro name sha hsha
    cases hsha

theorem State.descending_new : (⟨{}, fun _ => {}⟩ : State Computer Id Data).Descending := by
  intro name
  refine ⟨?_, trivial⟩
  intro previous copy hprevious
  cases hprevious

def oks (name count : ℕ) : List (Action ℕ ℕ ℕ) :=
  List.replicate count (.advance name .ok)

def publishAndMerge : List (Action ℕ ℕ ℕ) :=
  .setIndex 2 { files := [(7, 0)] } :: .sync 2 :: oks 2 9 ++
    .sync 0 :: oks 0 12 ++ [.delete 0 0 .ok]

/-- Computer 0 then restarts, syncs once more from its sealed copy and deletes
its previous online copy. -/
theorem key_list_ids_stay_online_after_resync : ∃ state : State ℕ ℕ ℕ,
      Reaches (step fun _ _ => true) CoveringStep ⟨{}, fun _ => {}⟩ state ∧
      state.node.copies = [2] ∧
      ∃ other found, other ∈ state.node.copies ∧
        state.node.stored[other]? = some found ∧ found.Holds 7 := by
  have hrun : (checkedRun (step fun _ _ => true) readableStepCheck (⟨{}, fun _ => {}⟩ : State ℕ ℕ ℕ)
      (publishAndMerge ++ .crash 0 :: .sync 0 :: oks 0 11 ++ [.delete 0 1 .ok])).any
        (fun state => decide (state.node.copies = [2] ∧
          state.node.stored[0]? = some { seq := 1, entries := [(7, 0)] })) = true := by
    decide
  obtain ⟨state, hreach, htest⟩ := exists_reaches_of_check readableStep_of_check hrun
  have hcovering :=
    covering_of_readable State.atRest_new State.descending_new hreach
  obtain ⟨hcopies, hstored⟩ := of_decide_eq_true htest
  exact ⟨state, hcovering, hcopies,
    key_list_ids_stay_online _ _ state State.atRest_new hcovering 0 _ 7 hstored
      (Or.inl List.mem_cons_self)⟩

theorem readable_runs_keep_ids_after_merge : ∃ state : State ℕ ℕ ℕ,
      Reaches (step fun _ _ => true) ReadableStep ⟨{}, fun _ => {}⟩ state ∧
      ∃ other found, other ∈ state.node.copies ∧
        state.node.stored[other]? = some found ∧ found.Holds 7 := by
  have hrun : (checkedRun (step fun _ _ => true) readableStepCheck (⟨{}, fun _ => {}⟩ : State ℕ ℕ ℕ)
      publishAndMerge).any (fun state => decide (state.node.copies = [1] ∧
        state.node.stored[0]? = some { seq := 1, entries := [(7, 0)] })) = true := by
    decide
  obtain ⟨state, hreach, htest⟩ := exists_reaches_of_check readableStep_of_check hrun
  exact ⟨state, hreach, readable_runs_keep_ids State.atRest_new State.descending_new hreach
    (of_decide_eq_true htest).2 (Or.inl List.mem_cons_self)⟩

/-- Computer 1 syncs twice without seeing the other copies.  Then computer 0
restarts without its sealed copy, fails to download its own copy, takes the
`seq` from computer 1's and deletes its own copy: the only one with file 7. -/
theorem resync_loses_file_id : ∃ (state : State ℕ ℕ ℕ) (sha : ℕ) (copy : KeyList ℕ ℕ) (id : ℕ),
      Reaches (step fun _ _ => true) everyStep ⟨{}, fun _ => {}⟩ state ∧
      state.node.stored[sha]? = some copy ∧ copy.Holds id ∧
      ∀ other found, other ∈ state.node.copies →
        state.node.stored[other]? = some found → ¬ found.Holds id := by
  have hrun : (runActions (step fun _ _ => true) (⟨{}, fun _ => {}⟩ : State ℕ ℕ ℕ)
      (publishAndMerge ++ .sync 1 :: oks 1 2 ++ .advance 1 .failed :: oks 1 5 ++
        .sync 1 :: oks 1 2 ++ .advance 1 .failed :: oks 1 5 ++
        .crash 0 :: .lose 0 false :: .sync 0 :: oks 0 2 ++
        .advance 0 .failed :: oks 0 7 ++ [.delete 0 1 .ok])).any
        (fun state => decide (state.node.stored[1]? = some { seq := 2, entries := [(7, 0)] } ∧
          ∀ other ∈ state.node.copies, (state.node.stored[other]?).all
              (fun found => decide (¬ found.Holds 7)) = true)) = true := by
    decide
  obtain ⟨state, hreach, htest⟩ := exists_reaches_of_runActions hrun
  obtain ⟨hstored, hnone⟩ := of_decide_eq_true htest
  refine ⟨state, 1, _, 7, hreach, hstored, Or.inl List.mem_cons_self, ?_⟩
  intro other found hother hfound
  have hnot := hnone other hother
  rw [hfound, Option.all_some, decide_eq_true_eq] at hnot
  exact hnot

end KeySync
end Wildbloom
