import Mathlib.LinearAlgebra.Matrix.NonsingularInverse
import Mathlib.LinearAlgebra.Matrix.Notation
import Mathlib.Tactic

/-!
# Inverting a matrix by row reduction

A pass over one column takes a row with a nonzero entry there, exchanges it
with the row of the column, scales it and subtracts a multiple of it from every
other row.  Passes act on rows alone, so they commute with multiplication from
the right, and they keep the kernel of the matrix trivial.

`Reducing M k A B` is the state after the passes over the first `k` columns of
a matrix `M` with the unit matrix beside it.  A pivot is then found in the next
column, and after the last pass `B` is the inverse of `M`.
-/

namespace Wildbloom
namespace RowReduction

variable {K : Type*} [Field K] {n : ℕ} {Col Wide : Type*}

def pass (col pivot : Fin n) (scale : K) (factors : Fin n → K)
    (M : Matrix (Fin n) Col K) : Matrix (Fin n) Col K :=
  Matrix.of fun r c =>
    if r = col then M pivot c * scale
    else M (Equiv.swap col pivot r) c - factors r * (M pivot c * scale)

variable {col pivot : Fin n} {scale : K} {factors : Fin n → K} {A B : Matrix (Fin n) (Fin n) K}

theorem pass_apply_col (M : Matrix (Fin n) Col K) (c : Col) :
    pass col pivot scale factors M col c = M pivot c * scale := by
  simp [pass]

theorem pass_apply_ne (M : Matrix (Fin n) Col K) {r : Fin n} (hr : r ≠ col) (c : Col) :
    pass col pivot scale factors M r c =
      M (Equiv.swap col pivot r) c - factors r * (M pivot c * scale) := by
  simp [pass, hr]

theorem pass_mul [Fintype Col] (M : Matrix (Fin n) Col K) (N : Matrix Col Wide K) :
    pass col pivot scale factors (M * N) = pass col pivot scale factors M * N := by
  ext r c
  by_cases hr : r = col
  · subst hr
    simp only [pass_apply_col, Matrix.mul_apply, Finset.sum_mul]
    exact Finset.sum_congr rfl fun i _ => by ring
  · simp only [pass_apply_ne _ hr, Matrix.mul_apply, Finset.sum_mul,
      Finset.mul_sum, ← Finset.sum_sub_distrib]
    exact Finset.sum_congr rfl fun i _ => by ring

def TrivialKernel [Fintype Col] (M : Matrix (Fin n) Col K) : Prop :=
  ∀ v : Col → K, M.mulVec v = 0 → v = 0

theorem TrivialKernel.pass [Fintype Col] {M : Matrix (Fin n) Col K}
    (hkernel : TrivialKernel M) (hscale : scale ≠ 0) :
    TrivialKernel (pass col pivot scale factors M) := by
  intro v hv
  apply hkernel
  -- the pivot row comes first: it is the scaled row of the column
  have hpivot : M.mulVec v pivot = 0 := by
    have hcol := congrFun hv col
    simp only [Matrix.mulVec, dotProduct, pass_apply_col, Pi.zero_apply] at hcol
    have hscaled : M.mulVec v pivot * scale = 0 := by
      rw [← hcol, Matrix.mulVec, dotProduct, Finset.sum_mul]
      exact Finset.sum_congr rfl fun i _ => by ring
    exact (mul_eq_zero.mp hscaled).resolve_right hscale
  have hother : ∀ r, r ≠ col → M.mulVec v (Equiv.swap col pivot r) = 0 := by
    intro r hr
    have hrow := congrFun hv r
    simp only [Matrix.mulVec, dotProduct, pass_apply_ne _ hr, Pi.zero_apply] at hrow
    have hsplit : M.mulVec v (Equiv.swap col pivot r) -
        factors r * scale * M.mulVec v pivot = 0 := by
      rw [← hrow, Matrix.mulVec, Matrix.mulVec, dotProduct, dotProduct,
        Finset.mul_sum, ← Finset.sum_sub_distrib]
      exact Finset.sum_congr rfl fun i _ => by ring
    rwa [hpivot, mul_zero, sub_zero] at hsplit
  funext r
  by_cases hr : Equiv.swap col pivot r = col
  · rw [Equiv.swap_apply_eq_iff, Equiv.swap_apply_left] at hr
    rw [hr, hpivot, Pi.zero_apply]
  · have h := hother (Equiv.swap col pivot r) hr
    rwa [Equiv.swap_apply_self] at h

def UnitColumns (k : ℕ) (A : Matrix (Fin n) (Fin n) K) : Prop :=
  ∀ c : Fin n, c < k → ∀ r, A r c = (1 : Matrix (Fin n) (Fin n) K) r c

/-- A column with no pivot would depend on the columns before it. -/
theorem exists_pivot (hunit : UnitColumns col A) (hkernel : TrivialKernel A) :
    ∃ r, col ≤ r ∧ A r col ≠ 0 := by
  by_contra! hzero
  let v : Fin n → K := fun c =>
    if c < col then -A c col else if c = col then 1 else 0
  have hv : A.mulVec v = 0 := by
    funext r
    have hterm : ∀ c, A r c * v c = (if c = r ∧ c < col then -A r col else 0) +
          if c = col then A r col else 0 := by
      intro c
      rcases lt_trichotomy c col with hlt | rfl | hgt
      · rw [hunit c hlt r]
        by_cases hcr : c = r
        · subst hcr
          simp [v, hlt, hlt.ne]
        · simp [v, hlt, hlt.ne, hcr, Matrix.one_apply_ne (Ne.symm hcr)]
      · simp [v]
      · simp [v, hgt.ne', not_lt.mpr hgt.le]
    simp only [Matrix.mulVec, dotProduct, hterm, Finset.sum_add_distrib,
      Finset.sum_ite_eq', Finset.mem_univ, if_true, Pi.zero_apply]
    by_cases hr : r < col
    · rw [Finset.sum_eq_single r] <;> simp +contextual [hr]
    · rw [hzero r (not_lt.mp hr), Finset.sum_eq_zero, add_zero]
      intro c _
      apply if_neg
      rintro ⟨rfl, hlt⟩
      exact hr hlt
  have hcol := congrFun (hkernel v hv) col
  simp [v] at hcol

theorem UnitColumns.pass (hunit : UnitColumns col A) (hle : col ≤ pivot)
    (hpivot : A pivot col ≠ 0) :
    UnitColumns (col + 1) (pass col pivot (A pivot col)⁻¹
      (fun r => A (Equiv.swap col pivot r) col) A) := by
  intro c hc r
  rcases Nat.lt_succ_iff_lt_or_eq.mp hc with hbelow | heq
  · -- both rows that are exchanged are zero in the earlier columns
    have hlt : c < col := hbelow
    have hbefore : ∀ s, col ≤ s → A s c = 0 := by
      intro s hs
      rw [hunit c hlt s]
      exact Matrix.one_apply_ne (hlt.trans_le hs).ne'
    by_cases hr : r = col
    · subst hr
      rw [pass_apply_col, hbefore pivot hle, zero_mul, Matrix.one_apply_ne hlt.ne']
    · rw [pass_apply_ne _ hr, hbefore pivot hle, zero_mul, mul_zero, sub_zero]
      by_cases hrp : r = pivot
      · subst hrp
        rw [Equiv.swap_apply_right, hbefore col le_rfl, Matrix.one_apply_ne (hlt.trans_le hle).ne']
      · rw [Equiv.swap_apply_of_ne_of_ne hr hrp, hunit c hlt r]
  · obtain rfl : c = col := Fin.ext heq
    by_cases hr : r = c
    · subst hr
      rw [pass_apply_col, mul_inv_cancel₀ hpivot, Matrix.one_apply_eq]
    · rw [pass_apply_ne _ hr, mul_inv_cancel₀ hpivot, mul_one, sub_self, Matrix.one_apply_ne hr]

/-- After the passes over `k` columns of `M`: what has become of `M`, and of
the unit matrix beside it. -/
structure Reducing (M : Matrix (Fin n) (Fin n) K) (k : ℕ)
    (A B : Matrix (Fin n) (Fin n) K) : Prop where
  product : A = B * M
  unit : UnitColumns k A
  kernel : TrivialKernel A

theorem Reducing.start {M : Matrix (Fin n) (Fin n) K}
    (hkernel : TrivialKernel M) : Reducing M 0 M 1 where
  product := (one_mul M).symm
  unit := fun _ hc => absurd hc (Nat.not_lt_zero _)
  kernel := hkernel

theorem Reducing.pass {M : Matrix (Fin n) (Fin n) K} (hreducing : Reducing M col A B)
    (hle : col ≤ pivot) (hpivot : A pivot col ≠ 0) :
    Reducing M (col + 1) (pass col pivot (A pivot col)⁻¹
        (fun r => A (Equiv.swap col pivot r) col) A)
      (pass col pivot (A pivot col)⁻¹ (fun r => A (Equiv.swap col pivot r) col) B) where
  product := by
    rw [← pass_mul, ← hreducing.product]
  unit := hreducing.unit.pass hle hpivot
  kernel := hreducing.kernel.pass (inv_ne_zero hpivot)

theorem Reducing.finish {M : Matrix (Fin n) (Fin n) K} (hreducing : Reducing M n A B) :
    B * M = 1 := by
  rw [← hreducing.product]
  ext r c
  exact hreducing.unit c c.isLt r

theorem trivialKernel_of_mul_eq_one {M N : Matrix (Fin n) (Fin n) K}
    (hone : N * M = 1) : TrivialKernel M := by
  intro v hv
  calc v = (N * M).mulVec v := by rw [hone, Matrix.one_mulVec]
    _ = N.mulVec (M.mulVec v) := (Matrix.mulVec_mulVec v N M).symm
    _ = 0 := by rw [hv, Matrix.mulVec_zero]

end RowReduction
end Wildbloom
