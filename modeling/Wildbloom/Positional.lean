import Mathlib.Algebra.Order.Ring.Nat
import Mathlib.Data.List.Induction

/-!
# Numbers in a base

A number and its digits in a base, most significant first, with as many leading
zeros as a fixed count asks for.
-/

namespace Wildbloom
namespace Positional

/-- Digits stand most significant first. -/
def value (base : ℕ) (digits : List ℕ) : ℕ := digits.foldl (fun n digit => n * base + digit) 0

def digits (base : ℕ) : ℕ → ℕ → List ℕ
  | 0, _ => []
  | count + 1, n => digits base count (n / base) ++ [n % base]

variable {base : ℕ}

@[simp]
theorem value_concat (l : List ℕ) (digit : ℕ) :
    value base (l ++ [digit]) = value base l * base + digit := by
  simp [value]

@[simp]
theorem length_digits (count n : ℕ) : (digits base count n).length = count := by
  induction count generalizing n with
  | zero => rfl
  | succ count ih => simp [digits, ih]

theorem digits_value {l : List ℕ} (hl : ∀ digit ∈ l, digit < base) :
    digits base l.length (value base l) = l := by
  induction l using List.reverseRecOn with
  | nil => rfl
  | append_singleton l digit ih =>
    have hdigit := hl digit (by simp)
    have hpos : 0 < base := by omega
    rw [List.length_append, List.length_singleton, digits, value_concat,
      Nat.mul_comm, Nat.mul_add_div hpos, Nat.mul_add_mod, Nat.div_eq_of_lt hdigit,
      Nat.mod_eq_of_lt hdigit, Nat.add_zero, ih fun other hother => hl other (by simp [hother])]

theorem value_digits (count n : ℕ) : value base (digits base count n) = n % base ^ count := by
  induction count generalizing n with
  | zero => simp [digits, value, Nat.mod_one]
  | succ count ih =>
    rw [digits, value_concat, ih, pow_succ', Nat.mod_mul, Nat.mul_comm, Nat.add_comm]

theorem value_lt {l : List ℕ} (hl : ∀ digit ∈ l, digit < base) :
    value base l < base ^ l.length := by
  induction l using List.reverseRecOn with
  | nil => simp [value]
  | append_singleton l digit ih =>
    have hdigit := hl digit (by simp)
    have hle := Nat.mul_le_mul_right base (ih fun other hother => hl other (by simp [hother]))
    rw [value_concat, List.length_append, List.length_singleton, pow_succ]
    rw [Nat.succ_mul] at hle
    omega

theorem digits_lt (hbase : 0 < base) (count n : ℕ) :
    ∀ digit ∈ digits base count n, digit < base := by
  induction count generalizing n with
  | zero => simp [digits]
  | succ count ih =>
    intro digit hdigit
    rcases List.mem_append.mp hdigit with hold | hnew
    · exact ih _ digit hold
    · rw [List.mem_singleton.mp hnew]
      exact Nat.mod_lt _ hbase

end Positional
end Wildbloom
