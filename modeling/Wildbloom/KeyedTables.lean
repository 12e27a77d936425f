import Mathlib

/-!
# Tables with some entries dropped

`keepEntries` drops the entries that fail a test.  The lemmas say what is found
under a key after that and which values a table holds.
-/

namespace Wildbloom
namespace KeyedTables

variable {Key Value : Type*} {table : AList (fun _ : Key => Value)}

def keepEntries (keep : Value → Bool) (table : AList (fun _ : Key => Value)) :
    AList (fun _ : Key => Value) where
  entries := table.entries.filter fun entry => keep entry.2
  nodupKeys := table.nodupKeys.sublist List.filter_sublist

def values (table : AList (fun _ : Key => Value)) : List Value :=
  table.entries.map Sigma.snd

variable [DecidableEq Key]

theorem lookup_keepEntries (keep : Value → Bool) (key : Key) :
    (keepEntries keep table).lookup key = (table.lookup key).filter keep := by
  apply Option.ext
  intro value
  simp only [← Option.mem_def, AList.mem_lookup_iff, Option.mem_filter_iff,
    keepEntries, List.mem_filter]

theorem mem_values {value : Value} :
    value ∈ values table ↔ ∃ key, table.lookup key = some value := by
  simp only [values, List.mem_map]
  constructor
  · rintro ⟨entry, hentry, rfl⟩
    exact ⟨entry.1, AList.mem_lookup_iff.mpr hentry⟩
  · rintro ⟨key, hlookup⟩
    exact ⟨⟨key, value⟩, AList.mem_lookup_iff.mp hlookup, rfl⟩

theorem lookup_insert_cases {key other : Key} {value found : Value}
    (hfound : (table.insert key value).lookup other = some found) :
    other = key ∧ found = value ∨ other ≠ key ∧ table.lookup other = some found := by
  by_cases heq : other = key
  · subst heq
    rw [AList.lookup_insert, Option.some.injEq] at hfound
    exact Or.inl ⟨rfl, hfound.symm⟩
  · rw [AList.lookup_insert_ne heq] at hfound
    exact Or.inr ⟨heq, hfound⟩

end KeyedTables
end Wildbloom
