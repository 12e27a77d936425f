import Wildbloom.ErasureField
import Wildbloom.RowReduction
import Mathlib.LinearAlgebra.Vandermonde
import Mathlib.Tactic

/-!
# The coding matrices as matrices over a field

`ofMatrix` writes a matrix as a list of rows.  Each operation on lists of rows
is then an operation on matrices: `product` and `combine` multiply, the passes
of `invert` are those of row reduction, and so `invert` finds the inverse of
every matrix that has one.  The generator is a matrix of powers times the
inverse of its first rows.
-/

namespace Wildbloom
namespace Coding

open RowReduction

/-! ## Lists given by functions -/

section Tabulated

variable {α β γ : Type*} {n : ℕ}

theorem mapIdx_ofFn (f : Fin n → α) (g : ℕ → α → β) :
    (List.ofFn f).mapIdx g = List.ofFn fun i => g i (f i) := by
  apply List.ext_getElem <;> simp

theorem zipWith_ofFn (g : α → β → γ) (f : Fin n → α) (h : Fin n → β) :
    List.zipWith g (List.ofFn f) (List.ofFn h) = List.ofFn fun i => g (f i) (h i) := by
  apply List.ext_getElem <;> simp

theorem modify_ofFn (f : Fin n → α) (i : Fin n) (g : α → α) : (List.ofFn f).modify i g =
      List.ofFn fun j => if j = i then g (f j) else f j := by
  apply List.ext_getElem
  · simp
  · intro j hj hj'
    simp only [List.getElem_modify, List.getElem_ofFn, Fin.ext_iff, eq_comm]

theorem getD_ofFn (f : Fin n → α) (i : Fin n) (default : α) :
    (List.ofFn f).getD i default = f i := by
  simp [List.getD_eq_getElem?_getD]

theorem take_ofFn {m : ℕ} (hmn : m ≤ n) (f : Fin n → α) :
    (List.ofFn f).take m = List.ofFn fun i => f (Fin.castLE hmn i) := by
  apply List.ext_getElem
  · simpa using hmn
  · simp

theorem map_range_eq_ofFn (g : ℕ → α) : (List.range n).map g = List.ofFn fun i : Fin n => g i := by
  apply List.ext_getElem <;> simp

end Tabulated

theorem zipInto_ofFn {n : ℕ} (g : Byte → Byte → Byte) (f h : Fin n → Byte) :
    zipInto g (List.ofFn f) (List.ofFn h) = List.ofFn fun i => g (f i) (h i) := by
  rw [zipInto, zipWith_ofFn, List.drop_eq_nil_of_le (by simp), List.append_nil]

theorem swap_ofFn {n : ℕ} (f : Fin n → List Byte) (i j : Fin n) :
    swap (List.ofFn f) i j = List.ofFn fun r => f (Equiv.swap i j r) := by
  apply List.ext_getElem
  · simp [swap]
  · intro r hr hr'
    have hrn : r < n := by simpa using hr'
    rw [List.getElem_ofFn]
    simp only [swap, getD_ofFn, List.getElem_set, List.getElem_ofFn]
    split
    next hj =>
      rw [show (⟨r, hrn⟩ : Fin n) = j from Fin.ext hj.symm, Equiv.swap_apply_right]
    next hj =>
      split
      next hi =>
        rw [show (⟨r, hrn⟩ : Fin n) = i from Fin.ext hi.symm, Equiv.swap_apply_left]
      next hi =>
        rw [Equiv.swap_apply_of_ne_of_ne]
        · exact fun h => hi (congrArg Fin.val h).symm
        · exact fun h => hj (congrArg Fin.val h).symm

/-! ## Matrices -/

section Matrices

variable {m k c n w : ℕ} (M : Matrix (Fin m) (Fin c) Byte)

def ofMatrix : Rows :=
  List.ofFn fun r => List.ofFn (M r)

theorem exists_ofMatrix {rows : Rows} (hlength : rows.length = m)
    (hrows : ∀ row ∈ rows, row.length = c) :
    ∃ M : Matrix (Fin m) (Fin c) Byte, rows = ofMatrix M := by
  subst hlength
  refine ⟨Matrix.of fun r j => (rows.get r).get (j.cast (hrows _ (List.get_mem rows r)).symm), ?_⟩
  apply List.ext_getElem
  · simp [ofMatrix]
  · intro r hr hr'
    apply List.ext_getElem
    · simpa [ofMatrix] using hrows _ (List.getElem_mem hr)
    · simp [ofMatrix]

theorem getD_ofMatrix (r : Fin m) : (ofMatrix M).getD r [] = List.ofFn (M r) :=
  getD_ofFn _ r []

theorem entry_ofMatrix (r : Fin m) (j : Fin c) : entry (ofMatrix M) r j = M r j := by
  rw [entry, getD_ofMatrix, getD_ofFn]

theorem length_ofMatrix : (ofMatrix M).length = m :=
  List.length_ofFn

theorem map_ofMatrix {β : Type*} (g : List Byte → β) (M : Matrix (Fin m) (Fin c) Byte) :
    (ofMatrix M).map g = List.ofFn fun r => g (List.ofFn (M r)) :=
  List.map_ofFn

theorem take_ofMatrix (hkm : k ≤ m) (M : Matrix (Fin m) (Fin c) Byte) :
    (ofMatrix M).take k = ofMatrix (M.submatrix (Fin.castLE hkm) id) :=
  take_ofFn hkm _

/-! ## Products -/

theorem foldl_xor (terms : List (Byte × ℕ)) (g : Byte × ℕ → Byte) (start : Byte) :
    terms.foldl (fun s term => s ^^^ g term) start = start + (terms.map g).sum := by
  induction terms generalizing start with
  | nil => simp
  | cons term rest ih =>
    rw [List.foldl_cons, ih, xor_eq_add, List.map_cons, List.sum_cons, add_assoc]

theorem product_ofMatrix (hk : 0 < k) (A : Matrix (Fin m) (Fin k) Byte)
    (B : Matrix (Fin k) (Fin c) Byte) : product (ofMatrix A) (ofMatrix B) = ofMatrix (A * B) := by
  have hwidth : ((ofMatrix B).getD 0 []).length = c := by
    rw [show (0 : ℕ) = (⟨0, hk⟩ : Fin k) from rfl, getD_ofMatrix, List.length_ofFn]
  rw [product, hwidth, map_ofMatrix, ofMatrix]
  congr 1
  funext r
  rw [map_range_eq_ofFn]
  congr 1
  funext j
  rw [foldl_xor, zero_add, Matrix.mul_apply]
  have hterms : ((List.ofFn (A r)).zipIdx.map fun term =>
      mul term.1 (entry (ofMatrix B) term.2 j)) =
      List.ofFn fun i => A r i * B i j := by
    apply List.ext_getElem
    · simp
    · intro i hi hi'
      have hik : i < k := by simpa using hi'
      have hentry := entry_ofMatrix B ⟨i, hik⟩ j
      simp only [List.getElem_map, List.getElem_zipIdx, List.getElem_ofFn, Nat.zero_add, mul_eq]
      rw [hentry]
  exact (congrArg List.sum hterms).trans List.sum_ofFn

theorem getD_table (coefficient b : Byte) :
    ((List.range 256).map fun b => mul coefficient (Byte.ofNat b)).getD
      b.toNat 0 = coefficient * b := by
  have hlt : b.toNat < 256 := b.bits.isLt
  have hbyte : Byte.ofNat b.toNat = b :=
    Byte.eq_of_bits (BitVec.ofNat_toNat 8 b.bits)
  simp [List.getD_eq_getElem?_getD, hlt, hbyte, mul_eq]

theorem combine_term (coefficient : Byte) (v input : Fin c → Byte) :
    (if coefficient = 0 then List.ofFn v
      else zipInto (fun dst src => dst ^^^
        ((List.range 256).map fun b => mul coefficient (Byte.ofNat b)).getD
          src.toNat 0) (List.ofFn v) (List.ofFn input)) =
      List.ofFn fun j => v j + coefficient * input j := by
  split
  next hzero => simp [hzero]
  next =>
    rw [zipInto_ofFn]
    congr 1
    funext j
    rw [getD_table, xor_eq_add]

theorem combine_foldl (terms : List (Byte × (Fin c → Byte))) (v : Fin c → Byte) :
    (terms.map fun term => (term.1, List.ofFn term.2)).foldl
      (fun out term =>
        if term.1 = 0 then out
        else
          let table := (List.range 256).map fun b => mul term.1 (Byte.ofNat b)
          zipInto (fun dst src => dst ^^^ table.getD src.toNat 0) out term.2)
      (List.ofFn v) =
      List.ofFn fun j => v j + (terms.map fun term => term.1 * term.2 j).sum := by
  induction terms generalizing v with
  | nil => simp
  | cons term rest ih =>
    simp only [List.map_cons, List.foldl_cons, List.sum_cons]
    rw [combine_term, ih]
    simp only [add_assoc]

theorem combine_ofMatrix (row : Fin k → Byte) (D : Matrix (Fin k) (Fin c) Byte) :
    combine (List.ofFn row) (ofMatrix D) c = List.ofFn fun j => ∑ i, row i * D i j := by
  have hterms : (List.ofFn row).zip (ofMatrix D) = (List.ofFn fun i => (row i, D i)).map fun term =>
        (term.1, List.ofFn term.2) := by
    rw [List.zip, ofMatrix, zipWith_ofFn, List.map_ofFn]
    rfl
  have hzero : List.replicate c (0 : Byte) = List.ofFn fun _ : Fin c => 0 :=
    (List.ofFn_const c 0).symm
  rw [combine, hterms, hzero, combine_foldl]
  congr 1
  funext j
  rw [zero_add, List.map_ofFn, List.sum_ofFn]
  rfl

theorem map_combine_ofMatrix (A : Matrix (Fin m) (Fin k) Byte) (D : Matrix (Fin k) (Fin c) Byte) :
    (ofMatrix A).map (fun row => combine row (ofMatrix D) c) = ofMatrix (A * D) := by
  rw [map_ofMatrix, ofMatrix]
  congr 1
  funext r
  exact combine_ofMatrix (A r) D

/-! ## Inversion -/

def beside (A B : Matrix (Fin n) (Fin n) Byte) : Matrix (Fin n) (Fin (n + n)) Byte :=
  Matrix.of fun r => Fin.append (A r) (B r)

theorem beside_left (A B : Matrix (Fin n) (Fin n) Byte) (r j : Fin n) :
    beside A B r (Fin.castAdd n j) = A r j :=
  Fin.append_left _ _ j

theorem beside_right (A B : Matrix (Fin n) (Fin n) Byte) (r j : Fin n) :
    beside A B r (Fin.natAdd n j) = B r j :=
  Fin.append_right _ _ j

theorem ofFn_beside (A B : Matrix (Fin n) (Fin n) Byte) (r : Fin n) :
    List.ofFn (beside A B r) = List.ofFn (A r) ++ List.ofFn (B r) :=
  List.ofFn_fin_append _ _

theorem pass_beside {col pivot : Fin n} {scale : Byte}
    {factors : Fin n → Byte} (A B : Matrix (Fin n) (Fin n) Byte) :
    pass col pivot scale factors (beside A B) = beside (pass col pivot scale factors A)
        (pass col pivot scale factors B) := by
  ext r j
  by_cases hr : r = col
  · subst hr
    refine Fin.addCases (fun j => ?_) (fun j => ?_) j
    · simp only [pass_apply_col, beside_left]
    · simp only [pass_apply_col, beside_right]
  · refine Fin.addCases (fun j => ?_) (fun j => ?_) j
    · simp only [pass_apply_ne _ hr, beside_left]
    · simp only [pass_apply_ne _ hr, beside_right]

theorem augment_ofMatrix (M : Matrix (Fin n) (Fin n) Byte) :
    augment (ofMatrix M) = ofMatrix (beside M 1) := by
  rw [augment, length_ofMatrix, ofMatrix, mapIdx_ofFn, ofMatrix]
  congr 1
  funext r
  rw [map_range_eq_ofFn, ofFn_beside]
  congr 2
  funext j
  simp [Matrix.one_apply, Fin.ext_iff]

theorem invertColumn_ofMatrix (W : Matrix (Fin n) (Fin w) Byte) (col : Fin n)
    (j : Fin w) (hj : (j : ℕ) = col) (hexists : ∃ r, col ≤ r ∧ W r j ≠ 0) :
    ∃ pivot, col ≤ pivot ∧ W pivot j ≠ 0 ∧ invertColumn n (ofMatrix W) col = .ok (ofMatrix
        (pass col pivot (W pivot j)⁻¹ (fun r => W (Equiv.swap col pivot r) j) W)) := by
  have hentry : ∀ r : Fin n, entry (ofMatrix W) r col = W r j := by
    intro r
    rw [← hj]
    exact entry_ofMatrix W r j
  cases hfind : (List.range' col (n - col)).find? fun r =>
      decide (entry (ofMatrix W) r col ≠ 0) with
  | none =>
    exfalso
    obtain ⟨r, hle, hne⟩ := hexists
    have hmem : (r : ℕ) ∈ List.range' col (n - col) := by
      rw [List.mem_range'_1]
      omega
    have hzero := List.find?_eq_none.mp hfind r hmem
    rw [hentry r] at hzero
    exact hzero (decide_eq_true hne)
  | some found =>
    have hmem := List.mem_range'_1.mp (List.mem_of_find?_eq_some hfind)
    have hfound := List.find?_some hfind
    have hne := of_decide_eq_true hfound
    obtain ⟨pivot, rfl⟩ : ∃ pivot : Fin n, (pivot : ℕ) = found :=
      ⟨⟨found, by omega⟩, rfl⟩
    rw [hentry pivot] at hne
    refine ⟨pivot, hmem.1, hne, ?_⟩
    rw [invertColumn, hfind]
    dsimp only
    have hswap : swap (ofMatrix W) col pivot = ofMatrix (W.submatrix (Equiv.swap col pivot) id) :=
      swap_ofFn _ col pivot
    have hscale : power (entry (swap (ofMatrix W) col pivot) col col) 254 = (W pivot j)⁻¹ := by
      rw [hswap, power_254_eq_inv]
      nth_rewrite 2 [← hj]
      rw [entry_ofMatrix, Matrix.submatrix_apply, Equiv.swap_apply_left]
      rfl
    rw [hscale, hswap, ofMatrix, modify_ofFn, getD_ofFn, mapIdx_ofFn, ofMatrix]
    congr 2
    funext r
    by_cases hr : r = col
    · subst hr
      simp only [if_true, List.map_ofFn]
      congr 1
      funext i
      rw [pass_apply_col, Function.comp_apply, mul_eq]
      simp
    · have hrn : (r : ℕ) ≠ col := fun h => hr (Fin.ext h)
      have hfactor : (List.ofFn (W.submatrix (Equiv.swap col pivot) id r)).getD col 0 =
          W (Equiv.swap col pivot r) j := by
        rw [← hj, getD_ofFn]
        rfl
      simp only [if_neg hrn, if_neg hr, if_true, List.map_ofFn, hfactor]
      rw [zipInto_ofFn]
      congr 1
      funext i
      rw [pass_apply_ne _ hr, Function.comp_apply, mul_eq, mul_eq, xor_eq_sub]
      simp

theorem foldlM_invertColumn {M : Matrix (Fin n) (Fin n) Byte}
    (hkernel : TrivialKernel M) (hk : k ≤ n) :
    ∃ A B, Reducing M k A B ∧ (List.range k).foldlM (invertColumn n) (augment (ofMatrix M)) =
        .ok (ofMatrix (beside A B)) := by
  induction k with
  | zero => exact ⟨M, 1, .start hkernel, by rw [augment_ofMatrix]; rfl⟩
  | succ k ih =>
    obtain ⟨A, B, hreducing, hrun⟩ := ih (by omega)
    let col : Fin n := ⟨k, hk⟩
    have hpivot : ∃ r, col ≤ r ∧ A r col ≠ 0 :=
      exists_pivot hreducing.unit hreducing.kernel
    obtain ⟨pivot, hle, hne, hpass⟩ := invertColumn_ofMatrix (beside A B)
      col (Fin.castAdd n col) rfl
      (by simpa only [beside_left] using hpivot)
    simp only [beside_left] at hne hpass
    refine ⟨_, _, hreducing.pass hle hne, ?_⟩
    rw [List.range_succ, List.foldlM_append, hrun, ← pass_beside]
    simp only [List.foldlM_cons, List.foldlM_nil]
    exact congrArg (· >>= pure) hpass

/-- `invert` finds the inverse of every matrix with a trivial kernel. -/
theorem invert_ofMatrix {M : Matrix (Fin n) (Fin n) Byte} (hkernel : TrivialKernel M) :
    ∃ N, invert (ofMatrix M) = .ok (ofMatrix N) ∧ N * M = 1 := by
  obtain ⟨A, B, hreducing, hrun⟩ := foldlM_invertColumn hkernel le_rfl
  refine ⟨B, ?_, hreducing.finish⟩
  rw [invert, length_ofMatrix, hrun, Except.map, map_ofMatrix, ofMatrix]
  congr 2
  funext r
  rw [ofFn_beside, List.drop_left' List.length_ofFn]

/-! ## The generator -/

def powerMatrix (k n : ℕ) : Matrix (Fin n) (Fin k) Byte :=
  Matrix.of fun r c => Byte.ofNat r ^ (c : ℕ)

theorem powers_eq (k n : ℕ) : powers k n = ofMatrix (powerMatrix k n) := by
  simp only [powers, map_range_eq_ofFn, power_eq_pow]
  rfl

theorem ofNat_injective {i j : ℕ} (hi : i < 256) (hj : j < 256)
    (heq : Byte.ofNat i = Byte.ofNat j) : i = j := by
  have hbits := congrArg (fun b => b.bits.toNat) heq
  simpa [Byte.ofNat, Nat.mod_eq_of_lt hi, Nat.mod_eq_of_lt hj] using hbits

theorem isUnit_det_powerMatrix (hn : n ≤ 256) {e : Fin k → Fin n} (he : Function.Injective e) :
    IsUnit ((powerMatrix k n).submatrix e id).det := by
  have hvandermonde : (powerMatrix k n).submatrix e id =
      Matrix.vandermonde fun i => Byte.ofNat (e i) := rfl
  rw [hvandermonde, isUnit_iff_ne_zero, Matrix.det_vandermonde_ne_zero_iff]
  intro i j heq
  exact he (Fin.ext (ofNat_injective (by omega) (by omega) heq))

theorem trivialKernel_of_isUnit_det {M : Matrix (Fin k) (Fin k) Byte}
    (hunit : IsUnit M.det) : TrivialKernel M :=
  trivialKernel_of_mul_eq_one (Matrix.nonsing_inv_mul M hunit)

theorem generator_eq (hk : 2 ≤ k) (hkn : k < n) (hn : n ≤ 16) : ∃ N : Matrix (Fin k) (Fin k) Byte,
      generator k n = .ok (ofMatrix (powerMatrix k n * N)) ∧
      N * (powerMatrix k n).submatrix (Fin.castLE hkn.le) id = 1 := by
  have hunit : IsUnit ((powerMatrix k n).submatrix (Fin.castLE hkn.le) id).det :=
    isUnit_det_powerMatrix (by omega) (Fin.castLE_injective hkn.le)
  obtain ⟨N, hinvert, hone⟩ :=
    invert_ofMatrix (trivialKernel_of_isUnit_det hunit)
  refine ⟨N, ?_, hone⟩
  rw [generator, if_neg (by omega), powers_eq, take_ofMatrix hkn.le, hinvert,
    Except.map, product_ofMatrix (by omega)]

end Matrices

end Coding
end Wildbloom
