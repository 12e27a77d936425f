import Wildbloom.ErasureModel
import Mathlib.Algebra.Field.Defs
import Mathlib.Tactic

/-!
# Bytes are a field

`mul a b` adds up the doublings of `a` that the bits of `b` select.  Doubling
is additive, so the selections of two bytes commute, and one times a byte is
the byte; the laws of a commutative ring follow without looking at the
reduction polynomial.  That the 254th power of a nonzero byte is its inverse
is computed for each of them.
-/

namespace Wildbloom
namespace Coding

/-! ## Multiplication as a sum of doublings -/

def pick (a b : BitVec 8) : BitVec 8 := if b.getLsbD 0 then a else 0#8

def spread : ℕ → BitVec 8 → BitVec 8 → BitVec 8
  | 0, _, _ => 0#8
  | fuel + 1, a, b => pick a b ^^^ spread fuel (double a) (b >>> 1)

theorem pick_xor_left (a c b : BitVec 8) : pick (a ^^^ c) b = pick a b ^^^ pick c b := by
  unfold pick
  split <;> simp

theorem pick_xor_right (a b c : BitVec 8) : pick a (b ^^^ c) = pick a b ^^^ pick a c := by
  unfold pick
  rw [BitVec.getLsbD_xor]
  cases b.getLsbD 0 <;> cases c.getLsbD 0 <;> simp

theorem lowest_bit (b : BitVec 8) : b &&& 1#8 ≠ 0#8 ↔ b.getLsbD 0 = true := by
  revert b
  decide +kernel

theorem double_eq (a : BitVec 8) :
    double a = (a <<< 1) ^^^ if a.getLsbD 7 then 0x1d#8 else 0#8 := by
  have hbit : ∀ a : BitVec 8, a &&& 128#8 ≠ 0#8 ↔ a.getLsbD 7 = true := by
    decide +kernel
  rw [double, if_congr (hbit a) rfl rfl]

theorem double_xor (a b : BitVec 8) : double (a ^^^ b) = double a ^^^ double b := by
  have hreduce : (if (a ^^^ b).getLsbD 7 then 0x1d#8 else 0#8) =
      (if a.getLsbD 7 then 0x1d#8 else 0#8) ^^^
        if b.getLsbD 7 then 0x1d#8 else 0#8 := by
    rw [BitVec.getLsbD_xor]
    cases a.getLsbD 7 <;> cases b.getLsbD 7 <;> decide
  rw [double_eq, double_eq, double_eq, hreduce, BitVec.shiftLeft_xor_distrib]
  ac_rfl

theorem double_pick (a b : BitVec 8) : double (pick a b) = pick (double a) b := by
  unfold pick
  split
  · rfl
  · decide

theorem spread_zero_right (fuel : ℕ) (a : BitVec 8) : spread fuel a 0#8 = 0#8 := by
  induction fuel generalizing a with
  | zero => rfl
  | succ fuel ih => simp [spread, pick, ih]

theorem spread_xor_left (fuel : ℕ) (a c b : BitVec 8) :
    spread fuel (a ^^^ c) b = spread fuel a b ^^^ spread fuel c b := by
  induction fuel generalizing a c b with
  | zero => simp [spread]
  | succ fuel ih =>
    rw [spread, spread, spread, pick_xor_left, double_xor, ih]
    ac_rfl

theorem spread_xor_right (fuel : ℕ) (a b c : BitVec 8) :
    spread fuel a (b ^^^ c) = spread fuel a b ^^^ spread fuel a c := by
  induction fuel generalizing a b c with
  | zero => simp [spread]
  | succ fuel ih =>
    rw [spread, spread, spread, pick_xor_right, BitVec.ushiftRight_xor_distrib, ih]
    ac_rfl

theorem double_spread (fuel : ℕ) (a b : BitVec 8) :
    double (spread fuel a b) = spread fuel (double a) b := by
  induction fuel generalizing a b with
  | zero => simp only [spread]; decide
  | succ fuel ih => rw [spread, spread, double_xor, double_pick, ih]

theorem spread_pick (fuel : ℕ) (a b c : BitVec 8) :
    spread fuel (pick a b) c = pick (spread fuel a c) b := by
  unfold pick
  split
  · rfl
  · have hself := spread_xor_left fuel 0#8 0#8 c
    simpa using hself

theorem spread_right_comm (fuel rounds : ℕ) (a b c : BitVec 8) :
    spread fuel (spread rounds a b) c = spread rounds (spread fuel a c) b := by
  induction rounds generalizing a b with
  | zero =>
    have hself := spread_xor_left fuel 0#8 0#8 c
    simpa [spread] using hself
  | succ rounds ih =>
    rw [spread, spread, spread_xor_left, spread_pick, ih, double_spread]

theorem mulRounds_eq (fuel : ℕ) (a b out : BitVec 8) :
    mulRounds fuel a b out = out ^^^ spread fuel a b := by
  induction fuel generalizing a b out with
  | zero => simp [mulRounds, spread]
  | succ fuel ih =>
    rw [mulRounds]
    split
    next hzero => rw [hzero, spread_zero_right, BitVec.xor_zero]
    next =>
      rw [ih, spread, pick, if_congr (lowest_bit b) rfl rfl]
      split
      · rw [BitVec.xor_assoc]
      · rw [BitVec.zero_xor]

theorem mul_bits (a b : Byte) : (mul a b).bits = spread 8 a.bits b.bits := by
  rw [mul, mulRounds_eq, BitVec.zero_xor]

/-! ## Ring laws -/

theorem Byte.eq_of_bits {a b : Byte} (hbits : a.bits = b.bits) : a = b := by
  cases a
  cases b
  exact congrArg Byte.mk hbits

section Laws

variable (a b c : Byte)

theorem one_mul_byte : mul 1 a = a := by
  have hall : ∀ a : BitVec 8, spread 8 1#8 a = a := by
    decide +kernel
  apply Byte.eq_of_bits
  rw [mul_bits]
  exact hall a.bits

theorem mul_right_comm_byte : mul (mul a b) c = mul (mul a c) b := by
  apply Byte.eq_of_bits
  simp only [mul_bits]
  exact spread_right_comm 8 8 _ _ _

theorem mul_comm_byte : mul a b = mul b a := by
  calc mul a b = mul (mul 1 a) b := by rw [one_mul_byte]
    _ = mul (mul 1 b) a := mul_right_comm_byte 1 a b
    _ = mul b a := by rw [one_mul_byte]

theorem mul_assoc_byte : mul (mul a b) c = mul a (mul b c) := by
  calc mul (mul a b) c = mul (mul b a) c := by rw [mul_comm_byte a b]
    _ = mul (mul b c) a := mul_right_comm_byte b a c
    _ = mul a (mul b c) := mul_comm_byte _ _

theorem mul_xor_byte : mul a (b ^^^ c) = mul a b ^^^ mul a c := by
  apply Byte.eq_of_bits
  rw [mul_bits]
  exact (spread_xor_right 8 _ _ _).trans
    (congrArg₂ (· ^^^ ·) (mul_bits a b).symm (mul_bits a c).symm)

theorem mul_zero_byte : mul a 0 = 0 := by
  apply Byte.eq_of_bits
  rw [mul_bits]
  exact spread_zero_right 8 a.bits

end Laws

instance : Add Byte := ⟨(· ^^^ ·)⟩

instance : Neg Byte := ⟨id⟩

instance : Sub Byte := ⟨(· ^^^ ·)⟩

instance : Mul Byte := ⟨mul⟩

theorem mul_eq (a b : Byte) : mul a b = a * b := rfl

theorem xor_eq_add (a b : Byte) : a ^^^ b = a + b := rfl

theorem xor_eq_sub (a b : Byte) : a ^^^ b = a - b := rfl

/-- Addition and subtraction are exclusive or. -/
instance : CommRing Byte where
  add_assoc a b c := Byte.eq_of_bits (BitVec.xor_assoc _ _ _)
  zero_add a := Byte.eq_of_bits BitVec.zero_xor
  add_zero a := Byte.eq_of_bits BitVec.xor_zero
  add_comm a b := Byte.eq_of_bits (BitVec.xor_comm _ _)
  neg_add_cancel a := Byte.eq_of_bits BitVec.xor_self
  sub_eq_add_neg _ _ := rfl
  mul_assoc := mul_assoc_byte
  mul_comm := mul_comm_byte
  one_mul := one_mul_byte
  mul_one a := (mul_comm_byte a 1).trans (one_mul_byte a)
  left_distrib := mul_xor_byte
  right_distrib a b c := by
    change mul (a ^^^ b) c = mul a c ^^^ mul b c
    rw [mul_comm_byte, mul_xor_byte, mul_comm_byte c a, mul_comm_byte c b]
  zero_mul a := (mul_comm_byte 0 a).trans (mul_zero_byte a)
  mul_zero := mul_zero_byte
  nsmul := nsmulRec
  zsmul := zsmulRec

theorem power_eq_pow (a : Byte) (n : ℕ) : power a n = a ^ n := by
  induction n with
  | zero => rw [pow_zero]; rfl
  | succ n ih =>
    rw [power, List.range_succ, List.foldl_append, pow_succ, ← ih]
    rfl

/-! ## Inverses -/

def x : Byte := ⟨2#8⟩

theorem x_mul_bits (a : Byte) : (x * a).bits = double a.bits := by
  calc (x * a).bits = spread 8 (double 1#8) a.bits := mul_bits x a
    _ = double (mul 1 a).bits := by rw [← double_spread, mul_bits]; rfl
    _ = double a.bits := by rw [one_mul_byte]

theorem x_pow_bits (n : ℕ) : (x ^ n).bits = double^[n] 1#8 := by
  induction n with
  | zero => rw [pow_zero]; rfl
  | succ n ih =>
    rw [pow_succ', x_mul_bits, ih, Function.iterate_succ_apply']

theorem x_pow_eq_one_iff (n : ℕ) : x ^ n = 1 ↔ double^[n] 1#8 = 1#8 := by
  rw [← x_pow_bits]
  exact ⟨fun h => by rw [h]; rfl, Byte.eq_of_bits⟩

theorem orderOf_x : orderOf x = 255 := by
  refine orderOf_eq_of_pow_and_pow_div_prime (by norm_num) ?_ ?_
  · rw [x_pow_eq_one_iff]
    decide +kernel
  · intro p hp hdvd
    have hmem : p ∈ Nat.primeFactors 255 :=
      Nat.mem_primeFactors.mpr ⟨hp, hdvd, by norm_num⟩
    rw [show Nat.primeFactors 255 = {3, 5, 17} by decide +kernel] at hmem
    rw [Ne, x_pow_eq_one_iff]
    fin_cases hmem <;> decide +kernel

def Byte.equivFin : Byte ≃ Fin 256 where
  toFun a := a.bits.toFin
  invFun n := ⟨⟨n⟩⟩
  left_inv _ := rfl
  right_inv _ := rfl

instance : Fintype Byte := Fintype.ofEquiv (Fin 256) Byte.equivFin.symm

instance : Nontrivial Byte := ⟨0, 1, by decide⟩

/-- The powers of two are 255 nonzero bytes, and there are no more. -/
theorem exists_x_pow_eq {a : Byte} (ha : a ≠ 0) : ∃ n, x ^ n = a := by
  have hone : x ^ 255 = 1 := orderOf_x ▸ pow_orderOf_eq_one x
  have hunit : IsUnit x := IsUnit.of_pow_eq_one hone (by norm_num)
  let found : Finset Byte := (Finset.range 255).image (x ^ ·)
  have hcard : found.card = 255 := by
    rw [Finset.card_image_of_injOn, Finset.card_range]
    intro m hm n hn heq
    rw [Finset.coe_range, Set.mem_Iio, ← orderOf_x] at hm hn
    exact pow_injOn_Iio_orderOf hm hn heq
  have hsub : found ⊆ Finset.univ.erase 0 := by
    intro b hb
    obtain ⟨n, -, rfl⟩ := Finset.mem_image.mp hb
    exact Finset.mem_erase.mpr ⟨(hunit.pow n).ne_zero, Finset.mem_univ _⟩
  have hall : (Finset.univ.erase (0 : Byte)).card = 255 := by
    rw [Finset.card_erase_of_mem (Finset.mem_univ _), Finset.card_univ,
      Fintype.card_congr Byte.equivFin, Fintype.card_fin]
  have heq : found = Finset.univ.erase 0 :=
    Finset.eq_of_subset_of_card_le hsub (hall.trans hcard.symm).le
  have hmem : a ∈ found := heq ▸ Finset.mem_erase.mpr ⟨ha, Finset.mem_univ _⟩
  obtain ⟨n, -, hn⟩ := Finset.mem_image.mp hmem
  exact ⟨n, hn⟩

theorem pow_255_eq_one {a : Byte} (ha : a ≠ 0) : a ^ 255 = 1 := by
  obtain ⟨n, rfl⟩ := exists_x_pow_eq ha
  rw [← pow_mul, mul_comm, pow_mul, ← orderOf_x, pow_orderOf_eq_one, one_pow]

@[irreducible] def inverse (a : Byte) : Byte := power a 254

instance : Inv Byte := ⟨inverse⟩

theorem power_254_eq_inv (a : Byte) : power a 254 = a⁻¹ := by
  change power a 254 = inverse a
  unfold inverse
  rfl

instance : Field Byte where
  exists_pair_ne := exists_pair_ne Byte
  mul_inv_cancel a ha := by
    rw [← power_254_eq_inv, power_eq_pow, ← pow_succ']
    exact pow_255_eq_one ha
  inv_zero := by
    rw [← power_254_eq_inv, power_eq_pow, zero_pow (by decide)]
  nnqsmul := _
  nnqsmul_def := fun _ _ => rfl
  qsmul := _
  qsmul_def := fun _ _ => rfl

end Coding
end Wildbloom
