import Mathlib.Data.List.Basic
import Mathlib.Tactic

/-!
# Copies superseded by later ones

A store is given copies one after the other and may drop some again.  A copy
is superseded when a later one holds everything it holds.  If only superseded
copies are dropped, nothing that was ever held is lost: the last copy that
holds a thing is never superseded.
-/

namespace Wildbloom
namespace StoredCopies

variable {Copy Thing : Type*}

/-- A copy after number `sha` holds everything that copy holds. -/
def Superseded (holds : Copy → Thing → Prop) (stored : List Copy) (sha : ℕ) : Prop :=
  ∃ copy later newer, stored[sha]? = some copy ∧ sha < later ∧
    stored[later]? = some newer ∧ ∀ thing, holds copy thing → holds newer thing

variable {holds : Copy → Thing → Prop} {stored : List Copy} {sha : ℕ}

theorem getElem?_append {copy : Copy} (more : List Copy) (hcopy : stored[sha]? = some copy) :
    (stored ++ more)[sha]? = some copy := by
  obtain ⟨hlength, _⟩ := List.getElem?_eq_some_iff.mp hcopy
  rw [List.getElem?_append_left hlength]
  exact hcopy

theorem Superseded.append (more : List Copy) (hsuperseded : Superseded holds stored sha) :
    Superseded holds (stored ++ more) sha := by
  obtain ⟨copy, later, newer, hcopy, hlater, hnewer, hall⟩ := hsuperseded
  exact ⟨copy, later, newer, getElem?_append more hcopy, hlater, getElem?_append more hnewer, hall⟩

/-- When every dropped copy is superseded, what any copy ever held is held by
one that is there. -/
theorem exists_present {present : ℕ → Prop}
    (hdropped : ∀ sha copy, stored[sha]? = some copy → ¬ present sha → Superseded holds stored sha)
    {copy : Copy} {thing : Thing} (hcopy : stored[sha]? = some copy) (hholds : holds copy thing) :
    ∃ other found, present other ∧ stored[other]? = some found ∧ holds found thing := by
  -- Induction on how many copies come after this one.
  induction hafter : stored.length - sha using Nat.strong_induction_on generalizing sha copy with
  | _ after ih =>
    by_cases hpresent : present sha
    · exact ⟨sha, copy, hpresent, hcopy, hholds⟩
    · obtain ⟨old, later, newer, hold, hlater, hnewer, hall⟩ :=
        hdropped sha copy hcopy hpresent
      rw [hcopy, Option.some.injEq] at hold
      rw [hold] at hholds
      have hlength : later < stored.length :=
        (List.getElem?_eq_some_iff.mp hnewer).1
      have hfewer : stored.length - later < after := by omega
      exact ih _ hfewer hnewer (hall thing hholds) rfl

end StoredCopies
end Wildbloom
