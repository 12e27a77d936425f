import Mathlib.Data.List.Basic
import Mathlib.Tactic

/-!
# Slices of lists and big-endian numbers

A long list is often handled in pieces: a stretch is cut out of it, overwritten
or put together again.  The lemmas say how a slice of two lists put together
falls into a slice of each, and what an overwritten list holds.

Numbers below `2^32` are written as four bytes.
-/

namespace Wildbloom
namespace Slices

section Lists

variable {α : Type*} {start : ℕ} (l : List α)

/-- `count` elements from `start`, or fewer where the list ends. -/
def slice (start count : ℕ) : List α :=
  (l.drop start).take count

def splice (start : ℕ) (new : List α) : List α :=
  l.take start ++ new ++ l.drop (start + new.length)

theorem length_slice (start count : ℕ) :
    (slice l start count).length = min count (l.length - start) := by
  rw [slice, List.length_take, List.length_drop]

theorem slice_append (a b : List α) (start count : ℕ) : slice (a ++ b) start count =
      slice a start count ++ slice b (start - a.length) (count - (a.length - start)) := by
  rw [slice, slice, slice, List.drop_append, List.take_append, List.length_drop]

/-- A slice that reaches past the end of the list can be cut short. -/
theorem slice_eq_slice {count other : ℕ}
    (h : min count (l.length - start) = min other (l.length - start)) :
    slice l start count = slice l start other := by
  rw [slice, slice, List.take_eq_take_iff, List.length_drop]
  exact h

theorem slice_zero_length : slice l 0 l.length = l := by
  rw [slice, List.drop_zero, List.take_length]

theorem slice_add (start first second : ℕ) :
    slice l start (first + second) = slice l start first ++ slice l (start + first) second := by
  rw [slice, slice, slice, List.take_add, List.drop_drop]

theorem getElem?_splice {l new : List α} (h : start + new.length ≤ l.length) (i : ℕ) :
    (splice l start new)[i]? =
      if start ≤ i ∧ i < start + new.length then new[i - start]? else l[i]? := by
  have hstart : (l.take start).length = start := by
    rw [List.length_take]
    omega
  have htaken : (l.take start ++ new).length = start + new.length := by
    rw [List.length_append, hstart]
  rw [splice]
  rcases lt_or_ge i start with hbefore | hafter
  · rw [if_neg (by omega), List.append_assoc,
      List.getElem?_append_left (by omega), List.getElem?_take_of_lt hbefore]
  rcases lt_or_ge i (start + new.length) with hin | hbeyond
  · rw [if_pos ⟨hafter, hin⟩, List.getElem?_append_left (by omega),
      List.getElem?_append_right (by omega), hstart]
  · rw [if_neg (by omega), List.getElem?_append_right (by omega), htaken, List.getElem?_drop]
    congr 1
    omega

theorem slice_eq_map_range (default : α) {count : ℕ} (h : start + count ≤ l.length) :
    slice l start count = (List.range count).map fun i => l.getD (start + i) default := by
  apply List.ext_getElem
  · rw [length_slice, List.length_map, List.length_range]
    omega
  · intro i hi hi'
    have hlt : start + i < l.length := by
      rw [length_slice] at hi
      omega
    simp [slice, hlt]

theorem splice_map_range (f g : ℕ → α) (first last len : ℕ)
    (hle : first ≤ last) (hlast : last ≤ len) :
    splice ((List.range len).map f) first ((List.range (last - first)).map fun i => g (first + i)) =
      (List.range len).map fun i =>
        if first ≤ i ∧ i < last then g i else f i := by
  have hfits : first + ((List.range (last - first)).map fun i =>
      g (first + i)).length ≤ ((List.range len).map f).length := by
    simp only [List.length_map, List.length_range]
    omega
  apply List.ext_getElem?
  intro i
  rw [getElem?_splice hfits]
  simp only [List.length_map, List.length_range, List.getElem?_map, Nat.add_sub_cancel' hle]
  by_cases hin : first ≤ i ∧ i < last
  · rw [if_pos hin, List.getElem?_range (by omega),
      List.getElem?_range (by omega), Option.map_some, Option.map_some,
      if_pos hin, Nat.add_sub_cancel' hin.1]
  · rw [if_neg hin]
    rcases lt_or_ge i len with hlt | hge
    · rw [List.getElem?_range hlt, Option.map_some, Option.map_some, if_neg hin]
    · rw [List.getElem?_eq_none (by simpa using hge)]
      rfl

end Lists

/-! ## Big-endian numbers -/

def toBigEndian (n : ℕ) : List UInt8 :=
  [UInt8.ofNat (n / 2 ^ 24), UInt8.ofNat (n / 2 ^ 16), UInt8.ofNat (n / 2 ^ 8), UInt8.ofNat n]

def ofBigEndian : List UInt8 → ℕ
  | [a, b, c, d] =>
    ((a.toNat * 256 + b.toNat) * 256 + c.toNat) * 256 + d.toNat
  | _ => 0

theorem length_toBigEndian (n : ℕ) : (toBigEndian n).length = 4 := rfl

theorem ofBigEndian_toBigEndian {n : ℕ} (hn : n < 2 ^ 32) : ofBigEndian (toBigEndian n) = n := by
  simp only [toBigEndian, ofBigEndian, UInt8.toNat_ofNat']
  omega

theorem toBigEndian_ofBigEndian {bytes : List UInt8} (hlength : bytes.length = 4) :
    toBigEndian (ofBigEndian bytes) = bytes := by
  match bytes, hlength with
  | [a, b, c, d], _ =>
    have ha := a.toNat_lt
    have hb := b.toNat_lt
    have hc := c.toNat_lt
    have hd := d.toNat_lt
    simp only [ofBigEndian, toBigEndian, List.cons.injEq, and_true,
      ← UInt8.toNat_inj, UInt8.toNat_ofNat']
    omega

theorem ofBigEndian_lt (bytes : List UInt8) : ofBigEndian bytes < 2 ^ 32 := by
  unfold ofBigEndian
  split
  next a b c d =>
    have ha := a.toNat_lt
    have hb := b.toNat_lt
    have hc := c.toNat_lt
    have hd := d.toNat_lt
    omega
  next => norm_num

end Slices
end Wildbloom
