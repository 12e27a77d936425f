import Wildbloom.KeyListModel
import Mathlib.Tactic

/-!
# Merging key lists

A merge looks at the entries of all lists one after the other.  What it has
chosen and what it holds disputed after any number of entries depends on which
entries these were and not on their order, so the merge is a function of the
family of lists: the join, if the lists agree.
-/

namespace Wildbloom
namespace KeyLists
namespace KeyList

open Tables

variable {Id Data : Type} [LinearOrder Id] {lists : List (KeyList Id Data)}
  {stones table : List (Id × ℕ)} {data : Data}

structure WellFormed (list : KeyList Id Data) : Prop where
  entries : Ascending list.entries
  removed : Ascending list.removed
  disjoint : ∀ id ∈ keys list.entries, id ∉ keys list.removed

/-! ## Tombstones -/

structure Latest (stones table : List (Id × ℕ)) : Prop where
  ascending : Ascending table
  sound : ∀ stone ∈ table, stone ∈ stones
  covers : ∀ stone ∈ stones, ∃ time, stone.2 ≤ time ∧ (stone.1, time) ∈ table

theorem Latest.mem_iff (hlatest : Latest stones table) {id : Id} {time : ℕ} :
    (id, time) ∈ table ↔ (id, time) ∈ stones ∧ ∀ other, (id, other) ∈ stones → other ≤ time := by
  constructor
  · intro hmem
    refine ⟨hlatest.sound _ hmem, fun other hother => ?_⟩
    obtain ⟨found, hle, hfound⟩ := hlatest.covers _ hother
    rw [hlatest.ascending.unique hmem hfound]
    exact hle
  · rintro ⟨hstone, hmax⟩
    obtain ⟨found, hle, hfound⟩ := hlatest.covers _ hstone
    have hsame : found = time :=
      le_antisymm (hmax found (hlatest.sound _ hfound)) hle
    rw [hsame] at hfound
    exact hfound

theorem Latest.insert (hlatest : Latest stones table) (stone : Id × ℕ) :
    Latest (stones ++ [stone]) (insertWith max stone.1 stone.2 table) where
  ascending := hlatest.ascending.insertWith _ _ _
  sound := by
    intro found hfound
    rcases (mem_insertWith hlatest.ascending _ _).mp hfound with ⟨-, hold⟩ | rfl
    · exact List.mem_append_left _ (hlatest.sound _ hold)
    · cases hget : get stone.1 table with
      | none => simp
      | some old =>
        have hold := hlatest.sound _ (mem_of_get hget)
        rcases max_choice old stone.2 with hmax | hmax <;> simp [hmax, hold]
  covers := by
    intro found hfound
    rcases List.mem_append.mp hfound with hold | hnew
    · obtain ⟨time, hle, hmem⟩ := hlatest.covers found hold
      by_cases heq : found.1 = stone.1
      · rw [heq] at hmem ⊢
        refine ⟨max time stone.2, hle.trans (le_max_left _ _), ?_⟩
        refine (mem_insertWith hlatest.ascending _ _).mpr (.inr ?_)
        rw [hlatest.ascending.get_eq_some hmem]
        rfl
      · exact ⟨time, hle, (mem_insertWith hlatest.ascending _ _).mpr (.inl ⟨heq, hmem⟩)⟩
    · rw [List.mem_singleton.mp hnew]
      refine ⟨_, ?_, (mem_insertWith hlatest.ascending _ _).mpr (.inr rfl)⟩
      cases get stone.1 table with
      | none => exact le_rfl
      | some old => exact le_max_right _ _

theorem latest_mergeRemoved (lists : List (KeyList Id Data)) :
    Latest (lists.flatMap (·.removed)) (mergeRemoved lists) := by
  unfold mergeRemoved
  induction lists.flatMap (·.removed) using List.reverseRecOn with
  | nil => exact ⟨List.Pairwise.nil, by simp, by simp⟩
  | append_singleton stones stone ih =>
    rw [List.foldl_append]
    exact ih.insert stone

/-! ## Entries -/

def items (lists : List (KeyList Id Data)) : List (ℕ × Id × Data) :=
  lists.flatMap fun list => list.entries.map fun entry => (list.seq, entry)

omit [LinearOrder Id] in
theorem mem_items {seq : ℕ} {entry : Id × Data} : (seq, entry) ∈ items lists ↔
      ∃ list ∈ lists, entry ∈ list.entries ∧ list.seq = seq := by
  simp [items]

theorem foldl_mergeList [DecidableEq Data] (removed : List (Id × ℕ)) (merging : Merging Id Data) :
    lists.foldl (mergeList removed) merging = (items lists).foldl
        (fun merging item => mergeEntry removed item.1 merging item.2)
        merging := by
  rw [items, List.foldl_flatMap]
  simp only [List.foldl_map]
  rfl

/-- What a merge has found in the entries that it looked at: for each id that
was not removed an entry of the highest number, and whether another entry of
that number differs. -/
structure Found (removed : List (Id × ℕ)) (seen : List (ℕ × Id × Data))
    (merging : Merging Id Data) : Prop where
  chosen_asc : Ascending merging.chosen
  disputed_asc : Ascending merging.disputed
  sound : ∀ id seq data, (id, seq, data) ∈ merging.chosen →
    id ∉ keys removed ∧ (seq, id, data) ∈ seen
  covers : ∀ seq id data, (seq, id, data) ∈ seen → id ∉ keys removed →
    ∃ best found, seq ≤ best ∧ (id, best, found) ∈ merging.chosen
  disputed : ∀ id seq, (id, seq) ∈ merging.disputed ↔ ∃ data, (id, seq, data) ∈ merging.chosen ∧
      ∃ other, (seq, id, other) ∈ seen ∧ other ≠ data

section Step

variable {removed : List (Id × ℕ)} {seen : List (ℕ × Id × Data)}
  {merging : Merging Id Data} {seq : ℕ} {entry : Id × Data}

section

variable (hfound : Found removed seen merging)
include hfound

theorem Found.pass (hcovers : entry.1 ∉ keys removed → ∃ best found, seq ≤ best ∧
      (entry.1, best, found) ∈ merging.chosen)
    (hagrees : ∀ data, (entry.1, seq, data) ∈ merging.chosen → entry.2 = data) :
    Found removed (seen ++ [(seq, entry)]) merging where
  chosen_asc := hfound.chosen_asc
  disputed_asc := hfound.disputed_asc
  sound := fun id best data hmem =>
    (hfound.sound id best data hmem).imp_right (List.mem_append_left _)
  covers := by
    intro number id data hseen hlive
    rcases List.mem_append.mp hseen with hold | hnew
    · exact hfound.covers number id data hold hlive
    · cases List.mem_singleton.mp hnew
      exact hcovers hlive
  disputed := by
    intro id best
    rw [hfound.disputed]
    constructor
    · rintro ⟨data, hmem, other, hother, hne⟩
      exact ⟨data, hmem, other, List.mem_append_left _ hother, hne⟩
    · rintro ⟨data, hmem, other, hother, hne⟩
      rcases List.mem_append.mp hother with hold | hnew
      · exact ⟨data, hmem, other, hold, hne⟩
      · cases List.mem_singleton.mp hnew
        exact absurd (hagrees data hmem) hne

/-- An entry that disagrees with the chosen one of the same number. -/
theorem Found.dispute (hmem : (entry.1, seq, data) ∈ merging.chosen) (hne : data ≠ entry.2) :
    Found removed (seen ++ [(seq, entry)])
      { merging with disputed := Tables.insert entry.1 seq merging.disputed } where
  chosen_asc := hfound.chosen_asc
  disputed_asc := hfound.disputed_asc.insertWith _ _ _
  sound := fun id best data hmem =>
    (hfound.sound id best data hmem).imp_right (List.mem_append_left _)
  covers := by
    intro number id data' hseen hlive
    rcases List.mem_append.mp hseen with hold | hnew
    · exact hfound.covers number id data' hold hlive
    · cases List.mem_singleton.mp hnew
      exact ⟨seq, data, le_rfl, hmem⟩
  disputed := by
    intro id best
    have hvalue : ((get entry.1 merging.disputed).map fun _ => seq).getD seq = seq := by
      cases get entry.1 merging.disputed <;> rfl
    change (id, best) ∈ insertWith _ entry.1 seq merging.disputed ↔ _
    rw [mem_insertWith hfound.disputed_asc, hvalue, hfound.disputed, Prod.mk.injEq]
    constructor
    · rintro (⟨-, found, hin, other, hother, hdiff⟩ | ⟨rfl, rfl⟩)
      · exact ⟨found, hin, other, List.mem_append_left _ hother, hdiff⟩
      · exact ⟨data, hmem, entry.2, by simp, hne.symm⟩
    · rintro ⟨found, hin, other, hother, hdiff⟩
      by_cases heq : id = entry.1
      · subst heq
        have hsame := hfound.chosen_asc.unique hin hmem
        exact .inr ⟨rfl, (Prod.mk.inj hsame).1⟩
      · refine .inl ⟨heq, found, hin, other, ?_, hdiff⟩
        rcases List.mem_append.mp hother with hold | hnew
        · exact hold
        · cases List.mem_singleton.mp hnew
          exact absurd rfl heq

theorem Found.take (hlive : entry.1 ∉ keys removed)
    (hnewer : ∀ best data, (entry.1, best, data) ∈ merging.chosen → best < seq) :
    Found removed (seen ++ [(seq, entry)])
      { chosen := Tables.insert entry.1 (seq, entry.2) merging.chosen
        disputed := erase entry.1 merging.disputed } := by
  have hvalue : ((get entry.1 merging.chosen).map fun _ => (seq, entry.2)).getD
      (seq, entry.2) = (seq, entry.2) := by
    cases get entry.1 merging.chosen <;> rfl
  have hchosen : ∀ found : Id × ℕ × Data,
      found ∈ Tables.insert entry.1 (seq, entry.2) merging.chosen ↔
        found.1 ≠ entry.1 ∧ found ∈ merging.chosen ∨ found = (entry.1, seq, entry.2) := by
    intro found
    change found ∈ insertWith _ entry.1 (seq, entry.2) merging.chosen ↔ _
    rw [mem_insertWith hfound.chosen_asc, hvalue]
  refine ⟨hfound.chosen_asc.insertWith _ _ _, hfound.disputed_asc.erase _, ?_, ?_, ?_⟩
  · intro id best data hmem
    rcases (hchosen _).mp hmem with ⟨-, hold⟩ | hnew
    · exact (hfound.sound id best data hold).imp_right (List.mem_append_left _)
    · cases hnew
      exact ⟨hlive, by simp⟩
  · intro number id data hseen hid
    by_cases heq : id = entry.1
    · subst heq
      refine ⟨seq, entry.2, ?_, (hchosen _).mpr (.inr rfl)⟩
      rcases List.mem_append.mp hseen with hold | hnew
      · obtain ⟨best, found, hle, hin⟩ := hfound.covers number _ data hold hid
        exact hle.trans (hnewer best found hin).le
      · rw [(Prod.mk.inj (List.mem_singleton.mp hnew)).1]
    · rcases List.mem_append.mp hseen with hold | hnew
      · obtain ⟨best, found, hle, hin⟩ := hfound.covers number id data hold hid
        exact ⟨best, found, hle, (hchosen _).mpr (.inl ⟨heq, hin⟩)⟩
      · cases List.mem_singleton.mp hnew
        exact absurd rfl heq
  · intro id best
    rw [erase, List.mem_filter, hfound.disputed, decide_eq_true_eq]
    constructor
    · rintro ⟨⟨data, hin, other, hother, hdiff⟩, hne⟩
      exact ⟨data, (hchosen _).mpr (.inl ⟨hne, hin⟩), other, List.mem_append_left _ hother, hdiff⟩
    · rintro ⟨data, hin, other, hother, hdiff⟩
      rcases (hchosen _).mp hin with ⟨hne, hold⟩ | hnew
      · refine ⟨⟨data, hold, other, ?_, hdiff⟩, hne⟩
        rcases List.mem_append.mp hother with hseen | hlast
        · exact hseen
        · cases List.mem_singleton.mp hlast
          exact absurd rfl hne
      · cases hnew
        rcases List.mem_append.mp hother with hseen | hlast
        · obtain ⟨top, found, hle, htop⟩ := hfound.covers _ _ other hseen hlive
          exact absurd (hnewer top found htop) (not_lt.mpr hle)
        · exact absurd (congrArg (fun item => item.2.2) (List.mem_singleton.mp hlast)) hdiff

theorem Found.mergeEntry [DecidableEq Data] :
    Found removed (seen ++ [(seq, entry)]) (mergeEntry removed seq merging entry) := by
  unfold KeyList.mergeEntry
  by_cases hgone : entry.1 ∈ keys removed
  · rw [if_pos hgone]
    refine hfound.pass (fun hlive => absurd hgone hlive) fun data hmem => ?_
    exact absurd hgone (hfound.sound _ _ _ hmem).1
  rw [if_neg hgone]
  cases hget : get entry.1 merging.chosen with
  | none =>
    refine hfound.take hgone fun best data hmem => ?_
    rw [hfound.chosen_asc.get_eq_some hmem] at hget
    cases hget
  | some found =>
    obtain ⟨best, existing⟩ := found
    have hmem := mem_of_get hget
    have honly : ∀ seq data, (entry.1, seq, data) ∈ merging.chosen → seq = best ∧ data = existing :=
      fun seq data h => Prod.mk.inj (hfound.chosen_asc.unique h hmem)
    dsimp only
    split
    next hlower =>
      refine hfound.pass (fun _ => ⟨best, existing, hlower.le, hmem⟩) ?_
      exact fun data h => absurd (honly seq data h).1 hlower.ne
    next hlower =>
      split
      next heq =>
        subst heq
        split
        next hne => exact hfound.dispute hmem hne
        next hsame =>
          refine hfound.pass (fun _ => ⟨best, existing, le_rfl, hmem⟩) ?_
          intro data h
          rw [(honly best data h).2, not_not.mp hsame]
      next hne =>
        refine hfound.take hgone fun top data h => ?_
        rw [(honly top data h).1]
        omega

end

end Step

theorem found_merging [DecidableEq Data] (removed : List (Id × ℕ))
    (lists : List (KeyList Id Data)) :
    Found removed (items lists) (lists.foldl (mergeList removed) {}) := by
  rw [foldl_mergeList]
  induction items lists using List.reverseRecOn with
  | nil =>
    exact ⟨List.Pairwise.nil, List.Pairwise.nil, by simp, by simp, by simp⟩
  | append_singleton seen item ih =>
    rw [List.foldl_append]
    exact ih.mergeEntry

section Results

variable {removed : List (Id × ℕ)} {seen : List (ℕ × Id × Data)}
  {merging : Merging Id Data} {id : Id} {seq : ℕ}

def Highest (seen : List (ℕ × Id × Data)) (id : Id) (seq : ℕ) : Prop :=
  ∀ other data, (other, id, data) ∈ seen → other ≤ seq

section

variable (hfound : Found removed seen merging)
include hfound

theorem Found.highest (hmem : (id, seq, data) ∈ merging.chosen) : Highest seen id seq := by
  intro other found hseen
  obtain ⟨best, top, hle, htop⟩ :=
    hfound.covers other id found hseen (hfound.sound _ _ _ hmem).1
  obtain ⟨rfl, -⟩ := Prod.mk.inj (hfound.chosen_asc.unique hmem htop)
  exact hle

theorem Found.exists_chosen (hlive : id ∉ keys removed) (hseen : (seq, id, data) ∈ seen)
    (hhigh : Highest seen id seq) : ∃ top, (id, seq, top) ∈ merging.chosen := by
  obtain ⟨best, top, hle, htop⟩ := hfound.covers seq id data hseen hlive
  have hbest := hhigh best top (hfound.sound _ _ _ htop).2
  rw [le_antisymm hbest hle] at htop
  exact ⟨top, htop⟩

theorem Found.mem_disputed :
    (id, seq) ∈ merging.disputed ↔ id ∉ keys removed ∧ Highest seen id seq ∧
      ∃ data other, data ≠ other ∧ (seq, id, data) ∈ seen ∧ (seq, id, other) ∈ seen := by
  rw [hfound.disputed]
  constructor
  · rintro ⟨data, hmem, other, hother, hne⟩
    exact ⟨(hfound.sound _ _ _ hmem).1, hfound.highest hmem, data, other,
      hne.symm, (hfound.sound _ _ _ hmem).2, hother⟩
  · rintro ⟨hlive, hhigh, data, other, hne, hdata, hother⟩
    obtain ⟨top, htop⟩ := hfound.exists_chosen hlive hdata hhigh
    by_cases heq : data = top
    · exact ⟨top, htop, other, hother, heq ▸ hne.symm⟩
    · exact ⟨top, htop, data, hdata, heq⟩

/-- Without a dispute, the entry of the highest number is chosen. -/
theorem Found.mem_chosen (hnone : merging.disputed = []) :
    (id, seq, data) ∈ merging.chosen ↔ id ∉ keys removed ∧
      Highest seen id seq ∧ (seq, id, data) ∈ seen := by
  constructor
  · intro hmem
    exact ⟨(hfound.sound _ _ _ hmem).1, hfound.highest hmem, (hfound.sound _ _ _ hmem).2⟩
  · rintro ⟨hlive, hhigh, hseen⟩
    obtain ⟨top, htop⟩ := hfound.exists_chosen hlive hseen hhigh
    have hsame : data = top := by
      by_contra hne
      have hdisputed := (hfound.disputed id seq).mpr ⟨top, htop, data, hseen, hne⟩
      rw [hnone] at hdisputed
      cases hdisputed
    rw [hsame]
    exact htop

end

end Results

/-! ## The join -/

variable [DecidableEq Data] {merged : KeyList Id Data} {list : KeyList Id Data}

/-- A merge looks at the highest number, the tombstones and the entries. -/
theorem merge_congr {other : List (KeyList Id Data)}
    (hseq : (lists.map (·.seq)).max? = (other.map (·.seq)).max?)
    (hstones : ∀ stone, stone ∈ lists.flatMap (·.removed) ↔ stone ∈ other.flatMap (·.removed))
    (hitems : ∀ item, item ∈ items lists ↔ item ∈ items other) : merge lists = merge other := by
  have hremoved : mergeRemoved lists = mergeRemoved other := by
    refine (latest_mergeRemoved lists).ascending.ext
      (latest_mergeRemoved other).ascending fun stone => ?_
    obtain ⟨id, time⟩ := stone
    simp only [(latest_mergeRemoved lists).mem_iff, (latest_mergeRemoved other).mem_iff, hstones]
  have hfirst := found_merging (mergeRemoved lists) lists
  have hsecond := found_merging (mergeRemoved lists) other
  unfold merge
  dsimp only
  rw [← hseq, ← hremoved]
  have hdisputed := hfirst.disputed_asc.ext hsecond.disputed_asc fun entry => by
    obtain ⟨id, seq⟩ := entry
    simp only [hfirst.mem_disputed, hsecond.mem_disputed, Highest, hitems]
  rw [← hdisputed]
  cases hmax : (((lists.foldl (mergeList (mergeRemoved lists)) {}).disputed).map Prod.snd).max? with
  | some seq => rfl
  | none =>
    have hnone := List.map_eq_nil_iff.mp (List.max?_eq_none_iff.mp hmax)
    have hchosen := hfirst.chosen_asc.ext hsecond.chosen_asc fun entry => by
      obtain ⟨id, seq, data⟩ := entry
      simp only [hfirst.mem_chosen hnone,
        hsecond.mem_chosen (hdisputed.symm.trans hnone), Highest, hitems]
    rw [hchosen]

structure IsJoin (lists : List (KeyList Id Data)) (merged : KeyList Id Data) : Prop where
  wellFormed : merged.WellFormed
  seq_le : ∀ list ∈ lists, list.seq ≤ merged.seq
  seq_mem : ∃ list ∈ lists, list.seq = merged.seq
  latest : Latest (lists.flatMap (·.removed)) merged.removed
  id_iff : ∀ id, id ∈ keys merged.entries ↔
    id ∉ keys merged.removed ∧ ∃ list ∈ lists, id ∈ keys list.entries
  entry_mem : ∀ entry ∈ merged.entries, ∃ list ∈ lists, entry ∈ list.entries

theorem isJoin_of_merge (hmerge : merge lists = .ok merged) : IsJoin lists merged := by
  simp only [merge] at hmerge
  split at hmerge
  · cases hmerge
  next seq hseq =>
    split at hmerge
    · cases hmerge
    cases hmerge
    have hfound := found_merging (mergeRemoved lists) lists
    have hlatest := latest_mergeRemoved lists
    obtain ⟨hmem, hmax⟩ := List.max?_eq_some_iff.mp hseq
    have hchosen : ∀ id data, (id, data) ∈
        ((lists.foldl (mergeList (mergeRemoved lists)) {}).chosen.map
          fun entry => (entry.1, entry.2.2)) →
        id ∉ keys (mergeRemoved lists) ∧ ∃ list ∈ lists, (id, data) ∈ list.entries := by
      intro id data hmem
      obtain ⟨⟨found, number, other⟩, hfind, heq⟩ := List.mem_map.mp hmem
      cases heq
      obtain ⟨hlive, hseen⟩ := hfound.sound _ _ _ hfind
      obtain ⟨list, hlist, hin, -⟩ := mem_items.mp hseen
      exact ⟨hlive, list, hlist, hin⟩
    refine ⟨⟨?_, hlatest.ascending, ?_⟩, ?_, ?_, hlatest, ?_, ?_⟩
    · exact List.pairwise_map.mpr hfound.chosen_asc
    · intro id hid
      obtain ⟨entry, hentry, rfl⟩ := List.mem_map.mp hid
      exact (hchosen entry.1 entry.2 hentry).1
    · exact fun list hlist => hmax _ (List.mem_map.mpr ⟨list, hlist, rfl⟩)
    · obtain ⟨list, hlist, heq⟩ := List.mem_map.mp hmem
      exact ⟨list, hlist, heq⟩
    · intro id
      constructor
      · intro hid
        obtain ⟨entry, hentry, rfl⟩ := List.mem_map.mp hid
        obtain ⟨hlive, list, hlist, hin⟩ := hchosen entry.1 entry.2 hentry
        exact ⟨hlive, list, hlist, List.mem_map.mpr ⟨entry, hin, rfl⟩⟩
      · rintro ⟨hgone, list, hlist, hid⟩
        obtain ⟨entry, hin, rfl⟩ := List.mem_map.mp hid
        obtain ⟨best, data, -, hmem⟩ := hfound.covers list.seq entry.1 entry.2
          (mem_items.mpr ⟨list, hlist, hin, rfl⟩) hgone
        exact List.mem_map.mpr ⟨(entry.1, data), List.mem_map.mpr ⟨_, hmem, rfl⟩, rfl⟩
    · exact fun entry hentry => (hchosen entry.1 entry.2 hentry).2

theorem within_merge (hmerge : merge lists = .ok merged) (hlist : list ∈ lists) :
    list.Within merged := by
  have hjoin := isJoin_of_merge hmerge
  intro id hholds
  by_cases hgone : id ∈ keys merged.removed
  · exact .inr hgone
  · rcases hholds with hentry | hremoved
    · exact .inl ((hjoin.id_iff id).mpr ⟨hgone, list, hlist, hentry⟩)
    · obtain ⟨stone, hstone, rfl⟩ := List.mem_map.mp hremoved
      obtain ⟨time, -, hmem⟩ := hjoin.latest.covers stone
        (List.mem_flatMap.mpr ⟨list, hlist, hstone⟩)
      exact absurd (List.mem_map.mpr ⟨_, hmem, rfl⟩) hgone

theorem within_openNewest {candidates : List (Option (KeyList Id Data))} {lastSeen : ℕ}
    (hopen : openNewest candidates lastSeen = .ok merged) (hlist : some list ∈ candidates) :
    list.Within merged := by
  simp only [openNewest] at hopen
  split at hopen
  · cases hopen
  · cases hmerge : merge (candidates.filterMap fun candidate => candidate) with
    | error error =>
      rw [hmerge] at hopen
      cases hopen
    | ok found =>
      rw [hmerge] at hopen
      simp only [bind, Except.bind] at hopen
      split at hopen
      · cases hopen
      · cases hopen
        apply within_merge hmerge
        exact List.mem_filterMap.mpr ⟨some list, hlist, rfl⟩

/-- The lists have the same entry of every id that they share. -/
def Agree (lists : List (KeyList Id Data)) : Prop :=
  ∀ list ∈ lists, ∀ other ∈ lists, ∀ id data found,
    (id, data) ∈ list.entries → (id, found) ∈ other.entries → data = found

omit [DecidableEq Data] in
theorem IsJoin.unique (hagree : Agree lists) (hjoin : IsJoin lists merged)
    {other : KeyList Id Data} (hother : IsJoin lists other) : merged = other := by
  have hseq : merged.seq = other.seq := by
    obtain ⟨list, hlist, heq⟩ := hjoin.seq_mem
    obtain ⟨found, hfound, hsame⟩ := hother.seq_mem
    exact le_antisymm (heq ▸ hother.seq_le list hlist) (hsame ▸ hjoin.seq_le found hfound)
  have hremoved := hjoin.wellFormed.removed.ext hother.wellFormed.removed
    fun _ => hjoin.latest.mem_iff.trans hother.latest.mem_iff.symm
  have hsub : ∀ {first second : KeyList Id Data}, IsJoin lists first →
      IsJoin lists second → ∀ entry ∈ first.entries, entry ∈ second.entries := by
    intro first second hfirst hsecond entry hentry
    have hgone : first.removed = second.removed :=
      hfirst.wellFormed.removed.ext hsecond.wellFormed.removed
        fun _ => hfirst.latest.mem_iff.trans hsecond.latest.mem_iff.symm
    have hid := (hsecond.id_iff entry.1).mpr
      (hgone ▸ (hfirst.id_iff entry.1).mp (List.mem_map.mpr ⟨entry, hentry, rfl⟩))
    obtain ⟨found, hfound, hsame⟩ := List.mem_map.mp hid
    obtain ⟨list, hlist, hin⟩ := hfirst.entry_mem entry hentry
    obtain ⟨holder, hholder, hheld⟩ := hsecond.entry_mem found hfound
    have hdata := hagree list hlist holder hholder entry.1 entry.2 found.2 hin (hsame ▸ hheld)
    rw [← Prod.eta entry, ← hsame, hdata]
    exact hfound
  have hentries := hjoin.wellFormed.entries.ext hother.wellFormed.entries
    fun entry => ⟨hsub hjoin hother entry, hsub hother hjoin entry⟩
  cases merged
  cases other
  dsimp only at hseq hremoved hentries
  rw [hseq, hremoved, hentries]

theorem exists_merge (hne : lists ≠ []) (hagree : Agree lists) :
    ∃ merged, merge lists = .ok merged := by
  have hfound := found_merging (mergeRemoved lists) lists
  have hnone : (lists.foldl (mergeList (mergeRemoved lists)) {}).disputed = [] := by
    rw [List.eq_nil_iff_forall_not_mem]
    rintro ⟨id, seq⟩ hmem
    obtain ⟨-, -, data, other, hdiff, hdata, hother⟩ :=
      hfound.mem_disputed.mp hmem
    obtain ⟨list, hlist, hin, -⟩ := mem_items.mp hdata
    obtain ⟨holder, hholder, hheld, -⟩ := mem_items.mp hother
    exact hdiff (hagree list hlist holder hholder id data other hin hheld)
  unfold merge
  cases hmax : (lists.map (·.seq)).max? with
  | none => exact absurd (List.map_eq_nil_iff.mp (List.max?_eq_none_iff.mp hmax)) hne
  | some seq =>
    dsimp only
    rw [hnone]
    exact ⟨_, rfl⟩

omit [DecidableEq Data] in
theorem IsJoin.append {first second : List (KeyList Id Data)}
    {left right : KeyList Id Data} (hleft : IsJoin first left)
    (hright : IsJoin second right) (hjoin : IsJoin [left, right] merged) :
    IsJoin (first ++ second) merged := by
  have hstones : ∀ {lists list}, IsJoin lists list → list ∈ [left, right] →
      ∀ stone ∈ lists.flatMap (·.removed), ∃ time, stone.2 ≤ time ∧
        (stone.1, time) ∈ merged.removed := by
    intro lists list hlist hmem stone hstone
    obtain ⟨time, hle, hin⟩ := hlist.latest.covers stone hstone
    obtain ⟨last, hlast, hfinal⟩ := hjoin.latest.covers (stone.1, time)
      (List.mem_flatMap.mpr ⟨list, hmem, hin⟩)
    exact ⟨last, hle.trans hlast, hfinal⟩
  have hlefts : left ∈ [left, right] := by simp
  have hrights : right ∈ [left, right] := by simp
  refine ⟨hjoin.wellFormed, ?_, ?_, ⟨hjoin.wellFormed.removed, ?_, ?_⟩, ?_, ?_⟩
  · intro list hlist
    rcases List.mem_append.mp hlist with hin | hin
    · exact (hleft.seq_le list hin).trans (hjoin.seq_le left hlefts)
    · exact (hright.seq_le list hin).trans (hjoin.seq_le right hrights)
  · obtain ⟨list, hlist, hseq⟩ := hjoin.seq_mem
    rcases List.mem_pair.mp hlist with rfl | rfl
    · obtain ⟨found, hfound, heq⟩ := hleft.seq_mem
      exact ⟨found, List.mem_append_left _ hfound, heq.trans hseq⟩
    · obtain ⟨found, hfound, heq⟩ := hright.seq_mem
      exact ⟨found, List.mem_append_right _ hfound, heq.trans hseq⟩
  · intro stone hstone
    rw [List.flatMap_append, List.mem_append]
    obtain ⟨list, hlist, hin⟩ :=
      List.mem_flatMap.mp (hjoin.latest.sound stone hstone)
    rcases List.mem_pair.mp hlist with rfl | rfl
    · exact .inl (hleft.latest.sound stone hin)
    · exact .inr (hright.latest.sound stone hin)
  · intro stone hstone
    rw [List.flatMap_append, List.mem_append] at hstone
    rcases hstone with hin | hin
    · exact hstones hleft hlefts stone hin
    · exact hstones hright hrights stone hin
  · intro id
    have hkept : ∀ list ∈ [left, right], id ∉ keys merged.removed → id ∉ keys list.removed := by
      intro list hlist hgone hid
      obtain ⟨stone, hstone, rfl⟩ := List.mem_map.mp hid
      obtain ⟨time, -, hin⟩ := hjoin.latest.covers stone
        (List.mem_flatMap.mpr ⟨list, hlist, hstone⟩)
      exact hgone (List.mem_map.mpr ⟨_, hin, rfl⟩)
    rw [hjoin.id_iff]
    refine and_congr_right fun hgone => ?_
    simp only [List.mem_cons, List.not_mem_nil, or_false, exists_eq_left,
      hleft.id_iff, hright.id_iff, hkept left hlefts hgone,
      hkept right hrights hgone, not_false_eq_true, true_and, List.mem_append,
      or_and_right, exists_or]
  · intro entry hentry
    obtain ⟨list, hlist, hin⟩ := hjoin.entry_mem entry hentry
    rcases List.mem_pair.mp hlist with rfl | rfl
    · obtain ⟨found, hfound, hheld⟩ := hleft.entry_mem entry hin
      exact ⟨found, List.mem_append_left _ hfound, hheld⟩
    · obtain ⟨found, hfound, hheld⟩ := hright.entry_mem entry hin
      exact ⟨found, List.mem_append_right _ hfound, hheld⟩

/-- The outcome of a merge does not depend on the order of the lists, and a
merge that succeeds is a join.  Lists that agree always have one: merging the
merges of two families is merging them all, and merging a list with itself is
that list. -/
theorem merge_is_join (hne : lists ≠ []) (hwell : ∀ list ∈ lists, list.WellFormed) :
    (∀ other, lists.Perm other → merge other = merge lists) ∧
    (∀ merged, merge lists = .ok merged → IsJoin lists merged) ∧
    (Agree lists → (∃ merged, merge lists = .ok merged) ∧
      (∀ first second, lists = first ++ second → first ≠ [] → second ≠ [] →
        ∃ left right, merge first = .ok left ∧ merge second = .ok right ∧
          merge [left, right] = merge lists) ∧
      ∀ list ∈ lists, merge [list] = .ok list ∧ merge [list, list] = .ok list) := by
  refine ⟨fun other hperm => ?_, fun merged => isJoin_of_merge, fun hagree => ?_⟩
  · apply merge_congr
    · have hseqs := (hperm.map (·.seq))
      cases hmax : (lists.map (·.seq)).max? with
      | none =>
        rw [List.max?_eq_none_iff] at hmax ⊢
        rw [hmax] at hseqs
        exact hseqs.nil_eq.symm
      | some seq =>
        rw [List.max?_eq_some_iff] at hmax ⊢
        simpa only [hseqs.mem_iff] using hmax
    · exact fun stone => (hperm.flatMap_right _).symm.mem_iff
    · exact fun item => (hperm.flatMap_right _).symm.mem_iff
  have hagrees : ∀ {some : List (KeyList Id Data)}, some ⊆ lists → Agree some :=
    fun hsub list hlist other hother =>
      hagree list (hsub hlist) other (hsub hother)
  refine ⟨exists_merge hne hagree, ?_, ?_⟩
  · rintro first second rfl hfirst hsecond
    obtain ⟨left, hleft⟩ := exists_merge hfirst (hagrees (List.subset_append_left _ _))
    obtain ⟨right, hright⟩ := exists_merge hsecond (hagrees (List.subset_append_right _ _))
    obtain ⟨merged, hmerged⟩ := exists_merge hne hagree
    have hpair : Agree [left, right] := by
      have hfrom : ∀ list ∈ [left, right], ∀ entry ∈ list.entries,
          ∃ found ∈ first ++ second, entry ∈ found.entries := by
        intro list hlist entry hentry
        rcases List.mem_pair.mp hlist with rfl | rfl
        · obtain ⟨found, hfound, hin⟩ := (isJoin_of_merge hleft).entry_mem _ hentry
          exact ⟨found, List.mem_append_left _ hfound, hin⟩
        · obtain ⟨found, hfound, hin⟩ := (isJoin_of_merge hright).entry_mem _ hentry
          exact ⟨found, List.mem_append_right _ hfound, hin⟩
      intro list hlist other hother id data found hdata hfound
      obtain ⟨holder, hholder, hin⟩ := hfrom list hlist _ hdata
      obtain ⟨another, hanother, hheld⟩ := hfrom other hother _ hfound
      exact hagree holder hholder another hanother id data found hin hheld
    obtain ⟨both, hboth⟩ := exists_merge (List.cons_ne_nil _ _) hpair
    have hsame := ((isJoin_of_merge hleft).append (isJoin_of_merge hright)
      (isJoin_of_merge hboth)).unique hagree (isJoin_of_merge hmerged)
    exact ⟨left, right, hleft, hright, by rw [hboth, hmerged, hsame]⟩
  · intro list hlist
    have hself : ∀ some : List (KeyList Id Data), some ≠ [] →
        (∀ found ∈ some, found = list) → merge some = .ok list := by
      intro some hsome hall
      have hsub : Agree some := hagrees fun found hfound => hall found hfound ▸ hlist
      obtain ⟨merged, hmerged⟩ := exists_merge hsome hsub
      obtain ⟨found, hfound⟩ := List.exists_mem_of_ne_nil _ hsome
      obtain rfl := hall found hfound
      have hform := hwell found hlist
      have hjoin : IsJoin some found := by
        refine ⟨hform, fun other hother => by rw [hall other hother],
          ⟨found, hfound, rfl⟩, ⟨hform.removed, ?_, ?_⟩, ?_, ?_⟩
        · exact fun stone hstone => List.mem_flatMap.mpr ⟨found, hfound, hstone⟩
        · intro stone hstone
          obtain ⟨other, hother, hin⟩ := List.mem_flatMap.mp hstone
          rw [hall other hother] at hin
          exact ⟨stone.2, le_rfl, hin⟩
        · intro id
          constructor
          · exact fun hid => ⟨hform.disjoint id hid, found, hfound, hid⟩
          · rintro ⟨-, other, hother, hid⟩
            rwa [hall other hother] at hid
        · exact fun entry hentry => ⟨found, hfound, hentry⟩
      rw [hmerged, (isJoin_of_merge hmerged).unique hsub hjoin]
    exact ⟨hself _ (by simp) (by simp), hself _ (by simp) (by simp)⟩

theorem merge_is_join_of_two_lists : IsJoin [⟨2, [(1, 5), (3, 6)], []⟩, ⟨4, [(3, 6)], [(1, 9)]⟩]
      (⟨4, [(3, 6)], [(1, 9)]⟩ : KeyList ℕ ℕ) := by
  refine (merge_is_join (by simp) ?_).2.1 _ (by decide)
  intro list hlist
  rcases List.mem_pair.mp hlist with rfl | rfl <;>
    exact ⟨by simp [Ascending], by simp [Ascending], by simp [keys]⟩

end KeyList
end KeyLists
end Wildbloom
