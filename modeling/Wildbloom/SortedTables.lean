import Mathlib

/-!
# Tables as ascending lists

A map with ordered keys, kept as the list of its entries.  A lookup finds the
first entry of a key, so that the lemmas here hold of any list.
-/

namespace Wildbloom
namespace Tables

variable {Key Value : Type*} [LinearOrder Key]

instance keyLawfulBEq : LawfulBEq Key :=
  inferInstance

/-- Insert in order; a value already there is combined with the new one. -/
def insertWith (combine : Value → Value → Value) (key : Key) (value : Value) :
    List (Key × Value) → List (Key × Value)
  | [] => [(key, value)]
  | entry :: rest =>
    if key < entry.1 then (key, value) :: entry :: rest
    else if key = entry.1 then (key, combine entry.2 value) :: rest
    else entry :: insertWith combine key value rest

variable (key : Key) (value : Value) (table : List (Key × Value))

/-- Insert in order, in place of a value already there. -/
def insert : List (Key × Value) :=
  insertWith (fun _ new => new) key value table

def get : Option Value :=
  (table.find? fun entry => entry.1 = key).map Prod.snd

def erase : List (Key × Value) :=
  table.filter fun entry => entry.1 ≠ key

def keys : List Key :=
  table.map Prod.fst

variable {key table} {other : Key} {entry : Key × Value}

@[simp]
theorem mem_keys_insertWith (combine : Value → Value → Value) (value : Value) :
    other ∈ keys (insertWith combine key value table) ↔ other = key ∨ other ∈ keys table := by
  induction table with
  | nil => simp [insertWith, keys]
  | cons entry rest ih =>
    simp only [insertWith, keys, List.map_cons, List.mem_cons] at ih ⊢
    split
    · simp
    · split
      next heq =>
        simp [heq]
      · simp only [List.map_cons, List.mem_cons, ih]
        tauto

@[simp]
theorem mem_keys_insert (value : Value) : other ∈ keys (insert key value table) ↔
      other = key ∨ other ∈ keys table :=
  mem_keys_insertWith _ value

@[simp]
theorem mem_keys_erase : other ∈ keys (erase key table) ↔ other ≠ key ∧ other ∈ keys table := by
  simp only [keys, erase, List.mem_map, List.mem_filter, decide_eq_true_eq]
  constructor
  · rintro ⟨entry, ⟨hentry, hne⟩, rfl⟩
    exact ⟨hne, entry, hentry, rfl⟩
  · rintro ⟨hne, entry, hentry, rfl⟩
    exact ⟨entry, ⟨hentry, hne⟩, rfl⟩

theorem mem_insert {value : Value} (hentry : entry ∈ insert key value table) :
    entry = (key, value) ∨ entry ∈ table := by
  unfold insert at hentry
  induction table with
  | nil => exact Or.inl (List.mem_singleton.mp hentry)
  | cons head rest ih =>
    simp only [insertWith] at hentry
    split at hentry
    · exact List.mem_cons.mp hentry
    · split at hentry
      · rcases List.mem_cons.mp hentry with hnew | hrest
        · exact Or.inl hnew
        · exact Or.inr (List.mem_cons_of_mem head hrest)
      · rcases List.mem_cons.mp hentry with hhead | hrest
        · rw [hhead]
          exact Or.inr List.mem_cons_self
        · exact (ih hrest).imp_right (List.mem_cons_of_mem head)

theorem mem_of_mem_erase (hentry : entry ∈ erase key table) : entry ∈ table :=
  (List.mem_filter.mp hentry).1

theorem mem_of_get {value : Value} (hget : get key table = some value) : (key, value) ∈ table := by
  obtain ⟨entry, hfind, hvalue⟩ := Option.map_eq_some_iff.mp hget
  have hkey := List.find?_some hfind
  rw [decide_eq_true_eq] at hkey
  rw [← hkey, ← hvalue]
  exact List.mem_of_find?_eq_some hfind

theorem get_eq_none_iff : get key table = none ↔ key ∉ keys table := by
  simp only [get, Option.map_eq_none_iff, List.find?_eq_none,
    decide_eq_true_eq, keys, List.mem_map, not_exists, not_and]

theorem mem_keys_of_get {value : Value} (hget : get key table = some value) : key ∈ keys table := by
  by_contra habsent
  rw [get_eq_none_iff.mpr habsent] at hget
  cases hget

/-! ## Ascending tables -/

def Ascending (table : List (Key × Value)) : Prop :=
  table.Pairwise fun first second => first.1 < second.1

section

variable (hasc : Ascending table)
include hasc

theorem Ascending.unique {value other : Value} (hvalue : (key, value) ∈ table)
    (hother : (key, other) ∈ table) : value = other := by
  induction table with
  | nil => cases hvalue
  | cons head rest ih =>
    obtain ⟨hhead, hrest⟩ := List.pairwise_cons.mp hasc
    rcases List.mem_cons.mp hvalue with rfl | hfirst
    · rcases List.mem_cons.mp hother with heq | hsecond
      · exact (Prod.mk.inj heq).2.symm
      · exact absurd rfl (hhead _ hsecond).ne
    · rcases List.mem_cons.mp hother with rfl | hsecond
      · exact absurd rfl (hhead _ hfirst).ne
      · exact ih hrest hfirst hsecond

theorem Ascending.get_eq_some {value : Value} (hvalue : (key, value) ∈ table) :
    get key table = some value := by
  cases hget : get key table with
  | none =>
    exact absurd (List.mem_map.mpr ⟨_, hvalue, rfl⟩) (get_eq_none_iff.mp hget)
  | some other => rw [hasc.unique hvalue (mem_of_get hget)]

theorem Ascending.ext {second : List (Key × Value)} (hsecond : Ascending second)
    (hsame : ∀ entry, entry ∈ table ↔ entry ∈ second) : table = second := by
  have hperm : table.Perm second :=
    (List.perm_ext_iff_of_nodup (hasc.imp fun h heq => h.ne (by rw [heq]))
      (hsecond.imp fun h heq => h.ne (by rw [heq]))).mpr hsame
  exact hperm.eq_of_pairwise (fun a b _ _ hab hba => absurd hab hba.not_gt) hasc hsecond

theorem mem_insertWith (combine : Value → Value → Value) (value : Value) :
    entry ∈ insertWith combine key value table ↔ entry.1 ≠ key ∧ entry ∈ table ∨
        entry = (key, ((get key table).map (combine · value)).getD value) := by
  induction table with
  | nil => simp [insertWith, get]
  | cons head rest ih =>
    obtain ⟨hhead, hrest⟩ := List.pairwise_cons.mp hasc
    simp only [insertWith]
    split
    next hlt =>
      have hnone : get key (head :: rest) = none := by
        rw [get_eq_none_iff]
        intro hkey
        obtain ⟨found, hfound, rfl⟩ := List.mem_map.mp hkey
        rcases List.mem_cons.mp hfound with rfl | hin
        · exact hlt.ne rfl
        · exact (hlt.trans (hhead found hin)).ne rfl
      have hne : entry ∈ head :: rest → entry.1 ≠ key := by
        rintro hentry rfl
        exact get_eq_none_iff.mp hnone (List.mem_map.mpr ⟨entry, hentry, rfl⟩)
      rw [hnone, List.mem_cons]
      simp only [Option.map_none, Option.getD_none]
      tauto
    next hlt =>
      split
      next heq =>
        have hget : get key (head :: rest) = some head.2 := by
          simp [get, heq]
        have hne : entry ∈ rest → entry.1 ≠ key := by
          rintro hentry rfl
          exact (hhead entry hentry).ne heq.symm
        rw [hget, List.mem_cons, List.mem_cons]
        simp only [Option.map_some, Option.getD_some]
        constructor
        · rintro (hnew | hin)
          · exact .inr hnew
          · exact .inl ⟨hne hin, .inr hin⟩
        · rintro (⟨hkey, rfl | hin⟩ | hnew)
          · exact absurd heq.symm hkey
          · exact .inr hin
          · exact .inl hnew
      next hne =>
        have hget : get key (head :: rest) = get key rest := by
          simp [get, Ne.symm hne]
        rw [hget, List.mem_cons, ih hrest, List.mem_cons]
        constructor
        · rintro (rfl | ⟨hkey, hin⟩ | hnew)
          · exact .inl ⟨Ne.symm hne, .inl rfl⟩
          · exact .inl ⟨hkey, .inr hin⟩
          · exact .inr hnew
        · rintro (⟨hkey, rfl | hin⟩ | hnew)
          · exact .inl rfl
          · exact .inr (.inl ⟨hkey, hin⟩)
          · exact .inr (.inr hnew)

theorem Ascending.insertWith (combine : Value → Value → Value) (key : Key) (value : Value) :
    Ascending (Tables.insertWith combine key value table) := by
  induction table with
  | nil => exact List.pairwise_singleton _ _
  | cons head rest ih =>
    obtain ⟨hhead, hrest⟩ := List.pairwise_cons.mp hasc
    simp only [Tables.insertWith]
    split
    next hlt =>
      refine List.pairwise_cons.mpr ⟨?_, hasc⟩
      intro found hfound
      rcases List.mem_cons.mp hfound with rfl | hin
      · exact hlt
      · exact hlt.trans (hhead found hin)
    next hlt =>
      split
      next heq =>
        refine List.pairwise_cons.mpr ⟨?_, hrest⟩
        rw [heq]
        exact hhead
      next hne =>
        refine List.pairwise_cons.mpr ⟨?_, ih hrest⟩
        intro found hfound
        rcases (mem_insertWith hrest combine value).mp hfound with ⟨_, hin⟩ | rfl
        · exact hhead found hin
        · exact lt_of_le_of_ne (not_lt.mp hlt) (Ne.symm hne)

theorem Ascending.erase (key : Key) : Ascending (Tables.erase key table) :=
  hasc.filter _

end

end Tables
end Wildbloom
