import Wildbloom.Positional
import Mathlib.Tactic.IntervalCases

/-!
# Onion hosts

`valid_onion` decodes the label of a host from base32, five bits at a time through
an accumulator of sixteen bits, and checks the checksum and the version of the 35
bytes.  It accepts the encodings of such bytes and nothing else.  A string is its
bytes.
-/

namespace Wildbloom
namespace OnionHosts

open Positional

/-- The state of the loop over the label. -/
structure Decoder where
  decoded : List UInt8
  accumulator : UInt32
  bits : ℕ

def digit (byte : UInt8) : Option UInt8 :=
  if 97 ≤ byte ∧ byte ≤ 122 then some (byte - 97)
  else if 50 ≤ byte ∧ byte ≤ 55 then some (byte - 50 + 26)
  else none

def Decoder.push (state : Decoder) (value : UInt8) : Decoder :=
  let accumulator := (state.accumulator <<< 5 ||| value.toUInt32) &&& 0xffff
  if 8 ≤ state.bits + 5 then
    { decoded := state.decoded ++ [(accumulator >>> UInt32.ofNat (state.bits + 5 - 8)).toUInt8]
      accumulator := accumulator
      bits := state.bits + 5 - 8 }
  else
    { state with accumulator := accumulator, bits := state.bits + 5 }

def decode (label : List UInt8) : Option Decoder :=
  label.foldlM (fun state byte => (digit byte).map state.push) ⟨[], 0, 0⟩

def onion : List UInt8 := ".onion".toUTF8.data.toList

def checksumLabel : List UInt8 := ".onion checksum".toUTF8.data.toList

/-- `sha3` is SHA3-256. -/
def validOnion (sha3 : List UInt8 → Vector UInt8 32) (host : List UInt8) : Bool :=
  if onion <:+ host then
    let label := host.take (host.length - onion.length)
    if label.length ≠ 56 then false
    else match decode label with
    | none => false
    | some state =>
      if state.decoded.length ≠ 35 ∨ state.bits ≠ 0 ∨ state.decoded[34]? ≠ some 3 then false
      else (state.decoded.drop 32).take 2 =
        (sha3 (checksumLabel ++ state.decoded.take 32 ++ [3])).toList.take 2
  else false

/-! ## Base32 -/

/-- The alphabet: `a` to `z`, then `2` to `7`. -/
def letter (digit : ℕ) : UInt8 := UInt8.ofNat (if digit < 26 then 97 + digit else 24 + digit)

/-- Groups of five bits; a multiple of five bytes needs no padding. -/
def base32 (bytes : List UInt8) : List UInt8 :=
  (digits 32 (bytes.length * 8 / 5) (value 256 (bytes.map UInt8.toNat))).map letter

theorem digit_letter : ∀ n < 32, digit (letter n) = some (UInt8.ofNat n) := by
  decide

theorem letter_of_digit {byte v : UInt8} (hdigit : digit byte = some v) :
    v.toNat < 32 ∧ letter v.toNat = byte := by
  unfold digit at hdigit
  split_ifs at hdigit with hlower hnumber
  · cases hdigit
    have hsub := UInt8.toNat_sub_of_le _ _ hlower.1
    simp only [UInt8.le_iff_toNat_le, UInt8.reduceToNat] at hlower hsub
    refine ⟨by omega, UInt8.toNat_inj.mp ?_⟩
    rw [hsub, letter, if_pos (by omega), UInt8.toNat_ofNat']
    omega
  · cases hdigit
    have hsub := UInt8.toNat_sub_of_le _ _ hnumber.1
    simp only [UInt8.le_iff_toNat_le, UInt8.reduceToNat] at hnumber hsub
    simp only [UInt8.toNat_add, hsub, UInt8.reduceToNat]
    refine ⟨by omega, UInt8.toNat_inj.mp ?_⟩
    rw [letter, if_neg (by omega), UInt8.toNat_ofNat']
    omega

/-! ## The loop -/

theorem accumulator_eq {a : UInt32} {v : UInt8} (ha : a.toNat < 2 ^ 16) (hv : v.toNat < 32) :
    ((a <<< 5 ||| v.toUInt32) &&& 0xffff).toNat = (a.toNat * 32 + v.toNat) % 2 ^ 16 := by
  rw [UInt32.toNat_and, UInt32.toNat_or, UInt32.toNat_shiftLeft, UInt8.toNat_toUInt32]
  have h5 : (5 : UInt32).toNat % 32 = 5 := rfl
  rw [h5, Nat.mod_eq_of_lt (by rw [Nat.shiftLeft_eq]; omega), ← Nat.shiftLeft_add_eq_or_of_lt hv,
    Nat.shiftLeft_eq]
  exact Nat.and_two_pow_sub_one_eq_mod _ 16

theorem byte_eq (a : UInt32) {k : ℕ} (hk : k < 8) :
    (a >>> UInt32.ofNat k).toUInt8.toNat = a.toNat / 2 ^ k % 256 := by
  rw [UInt32.toNat_toUInt8, UInt32.toNat_shiftRight, Nat.shiftRight_eq_div_pow,
    UInt32.toNat_ofNat_of_lt' (by unfold UInt32.size; omega), Nat.mod_eq_of_lt (a := k) (by omega)]

/-- What is decoded and what is still to be emitted are the bits read so far. -/
structure Decoder.Reads (state : Decoder) (values : List ℕ) : Prop where
  length : 8 * state.decoded.length + state.bits = 5 * values.length
  bits : state.bits < 8
  accumulator : state.accumulator.toNat = value 32 values % 2 ^ 16
  decoded : value 256 (state.decoded.map UInt8.toNat) = value 32 values / 2 ^ state.bits

variable {state : Decoder} {values : List ℕ} {label bytes : List UInt8}

/-- The mask keeps the bits that are still to be emitted. -/
theorem emit_eq {n v bits : ℕ} (hfull : 8 ≤ bits + 5) (hbits : bits < 8) (hv : v < 32) :
    n / 2 ^ bits * 256 + (n * 32 + v) % 2 ^ 16 / 2 ^ (bits + 5 - 8) % 256 =
      (n * 32 + v) / 2 ^ (bits + 5 - 8) := by
  interval_cases bits <;> norm_num <;> omega

theorem keep_eq {n v bits : ℕ} (hbits : bits < 3) (hv : v < 32) :
    n / 2 ^ bits = (n * 32 + v) / 2 ^ (bits + 5) := by
  interval_cases bits <;> norm_num <;> omega

theorem Decoder.Reads.push {v : UInt8} (hreads : state.Reads values) (hv : v.toNat < 32) :
    (state.push v).Reads (values ++ [v.toNat]) := by
  obtain ⟨hlength, hbits, hread, hdecoded⟩ := hreads
  have haccumulator : ((state.accumulator <<< 5 ||| v.toUInt32) &&& 0xffff).toNat =
      value 32 (values ++ [v.toNat]) % 2 ^ 16 := by
    rw [accumulator_eq (by omega) hv, hread, value_concat]
    omega
  unfold Decoder.push
  split_ifs with hfull
  · constructor
    · simp only [List.length_append, List.length_singleton]
      omega
    · simp only
      omega
    · exact haccumulator
    · simp only [List.map_append, List.map_cons, List.map_nil, value_concat, hdecoded]
      rw [byte_eq _ (by omega), haccumulator, value_concat, emit_eq hfull hbits hv]
  · constructor
    · simp only [List.length_append, List.length_singleton]
      omega
    · simp only
      omega
    · exact haccumulator
    · simp only [value_concat, hdecoded]
      exact keep_eq (by omega) hv

/-- A decoded label is in the alphabet. -/
theorem letters_of_foldlM {start : Decoder}
    (hlabel : label.foldlM (fun state byte => (digit byte).map state.push) start = some state) :
    ∃ values : List ℕ, label = values.map letter ∧ ∀ v ∈ values, v < 32 := by
  induction label generalizing start with
  | nil => exact ⟨[], rfl, by simp⟩
  | cons byte rest ih =>
    rw [List.foldlM_cons] at hlabel
    obtain ⟨next, hnext, hrest⟩ := Option.bind_eq_some_iff.mp hlabel
    obtain ⟨v, hdigit, rfl⟩ := Option.map_eq_some_iff.mp hnext
    obtain ⟨hv, hletter⟩ := letter_of_digit hdigit
    obtain ⟨values, rfl, hvalues⟩ := ih hrest
    exact ⟨v.toNat :: values, by simp [hletter], List.forall_mem_cons.mpr ⟨hv, hvalues⟩⟩

/-- A label in the alphabet is decoded, bit by bit. -/
theorem Decoder.Reads.foldlM {start : Decoder} {read : List ℕ} (hreads : start.Reads read)
    (hvalues : ∀ v ∈ values, v < 32) :
    ∃ state, (values.map letter).foldlM (fun state byte => (digit byte).map state.push) start =
      some state ∧ state.Reads (read ++ values) := by
  induction values generalizing start read with
  | nil => exact ⟨start, rfl, by simpa using hreads⟩
  | cons v rest ih =>
    obtain ⟨hv, hrest⟩ := List.forall_mem_cons.mp hvalues
    have hnat : (UInt8.ofNat v).toNat = v := by
      rw [UInt8.toNat_ofNat']
      omega
    have hpush := hreads.push (v := UInt8.ofNat v) (by omega)
    rw [hnat] at hpush
    obtain ⟨state, hstate, hreads⟩ := ih hpush hrest
    refine ⟨state, ?_, by simpa using hreads⟩
    rw [List.map_cons, List.foldlM_cons, digit_letter v hv]
    exact hstate

theorem exists_decode (hvalues : ∀ v ∈ values, v < 32) :
    ∃ state, decode (values.map letter) = some state ∧ state.Reads values := by
  have hstart : Decoder.Reads ⟨[], 0, 0⟩ [] := ⟨rfl, by decide, rfl, rfl⟩
  exact hstart.foldlM hvalues

theorem reads_of_decode (hdecode : decode label = some state) :
    ∃ values : List ℕ, label = values.map letter ∧ (∀ v ∈ values, v < 32) ∧ state.Reads values := by
  obtain ⟨values, rfl, hvalues⟩ := letters_of_foldlM hdecode
  obtain ⟨found, hfound, hreads⟩ := exists_decode hvalues
  cases hdecode.symm.trans hfound
  exact ⟨values, rfl, hvalues, hreads⟩

/-! ## Onion hosts -/

/-- The bits of 56 characters are 35 whole bytes. -/
theorem Decoder.Reads.whole (hreads : state.Reads values) (hlength : values.length = 56) :
    state.decoded.length = 35 ∧ state.bits = 0 ∧
      value 256 (state.decoded.map UInt8.toNat) = value 32 values := by
  obtain ⟨hcount, hbits, -, hdecoded⟩ := hreads
  have hzero : state.bits = 0 := by omega
  rw [hzero, pow_zero, Nat.div_one] at hdecoded
  exact ⟨by omega, hzero, hdecoded⟩

theorem toNat_lt_of_mem (bytes : List UInt8) : ∀ n ∈ bytes.map UInt8.toNat, n < 256 := by
  intro n hn
  obtain ⟨byte, -, rfl⟩ := List.mem_map.mp hn
  exact byte.toNat_lt

theorem base32_of_decode (hlength : label.length = 56) (hdecode : decode label = some state) :
    state.decoded.length = 35 ∧ state.bits = 0 ∧ label = base32 state.decoded := by
  obtain ⟨values, rfl, hvalues, hreads⟩ := reads_of_decode hdecode
  rw [List.length_map] at hlength
  obtain ⟨hdecoded, hbits, hvalue⟩ := hreads.whole hlength
  refine ⟨hdecoded, hbits, ?_⟩
  have hdigits := digits_value hvalues
  rw [hlength] at hdigits
  rw [base32, hdecoded, hvalue, hdigits]

theorem decode_base32 (hlength : bytes.length = 35) :
    (base32 bytes).length = 56 ∧
      ∃ state, decode (base32 bytes) = some state ∧ state.decoded = bytes ∧ state.bits = 0 := by
  have hlt := value_lt (toNat_lt_of_mem bytes)
  rw [List.length_map, hlength, show 256 ^ 35 = 32 ^ 56 by norm_num] at hlt
  rw [base32, hlength]
  generalize hvalue : value 256 (bytes.map UInt8.toNat) = n at hlt
  obtain ⟨state, hstate, hreads⟩ := exists_decode (digits_lt (by decide : 0 < 32) 56 n)
  obtain ⟨hdecoded, hbits, hsame⟩ := hreads.whole (length_digits 56 n)
  refine ⟨by simp, state, hstate, ?_, hbits⟩
  rw [value_digits, Nat.mod_eq_of_lt hlt, ← hvalue] at hsame
  have hdigits := digits_value (toNat_lt_of_mem state.decoded)
  rw [hsame, List.length_map, hdecoded, ← hlength, ← List.length_map UInt8.toNat,
    digits_value (toNat_lt_of_mem bytes)] at hdigits
  exact (List.map_inj_right fun _ _ => UInt8.toNat_inj.mp).mp hdigits.symm

/-- The key, the checksum and the version of an address. -/
theorem address_eq (hlength : bytes.length = 35) (hversion : bytes[34]? = some 3) :
    bytes = bytes.take 32 ++ (bytes.drop 32).take 2 ++ [3] := by
  have hlast : bytes.drop 34 = [3] := by
    obtain ⟨hlt, hthree⟩ := List.getElem?_eq_some_iff.mp hversion
    rw [List.drop_eq_getElem_cons hlt, hthree, List.drop_of_length_le (by omega)]
  have hrest := List.take_append_drop 2 (bytes.drop 32)
  rw [List.drop_drop, hlast] at hrest
  rw [List.append_assoc, hrest, List.take_append_drop]

/-- The check is exact, and after each character what is decoded and what the
accumulator still holds are the bits read so far. -/
theorem validOnion_exact (sha3 : List UInt8 → Vector UInt8 32) (host : List UInt8) :
    (validOnion sha3 host = true ↔ ∃ key, key.length = 32 ∧ host = base32 (key ++
        (sha3 (checksumLabel ++ key ++ [3])).toList.take 2 ++ [3]) ++ onion) ∧
      ∀ label state, decode label = some state → ∃ values, label = values.map letter ∧
        (∀ v ∈ values, v < 32) ∧ state.Reads values := by
  refine ⟨⟨fun hvalid => ?_, ?_⟩, fun _ _ => reads_of_decode⟩
  · unfold validOnion at hvalid
    split at hvalid
    next hsuffix =>
      obtain ⟨label, rfl⟩ := hsuffix
      simp only [List.length_append, Nat.add_sub_cancel, List.take_left] at hvalid
      split at hvalid
      · cases hvalid
      next hlabel =>
        split at hvalid
        · cases hvalid
        next state hdecode =>
          split_ifs at hvalid with hrefused
          obtain ⟨hlength, -, rfl⟩ := base32_of_decode (not_not.mp hlabel) hdecode
          have hversion : state.decoded[34]? = some 3 := by
            by_contra hne
            exact hrefused (Or.inr (Or.inr hne))
          refine ⟨state.decoded.take 32, by simp [hlength], ?_⟩
          rw [← of_decide_eq_true hvalid, ← address_eq hlength hversion]
    · cases hvalid
  · rintro ⟨key, hkey, rfl⟩
    generalize hsum : (sha3 (checksumLabel ++ key ++ [3])).toList.take 2 = sum
    have hlength : sum.length = 2 := by simp [← hsum]
    obtain ⟨hlabel, state, hdecode, hdecoded, hbits⟩ :=
      decode_base32 (by simp [hkey, hlength] : (key ++ sum ++ [3]).length = 35)
    unfold validOnion
    rw [if_pos (List.suffix_append _ _)]
    simp only [List.length_append, Nat.add_sub_cancel, List.take_left]
    rw [if_neg (not_not.mpr hlabel), hdecode]
    have hchecked : sum = (sha3 (checksumLabel ++ (key ++ [3]))).toList.take 2 := by
      rw [← hsum, List.append_assoc]
    simpa [hdecoded, hbits, hkey, hlength] using hchecked

/-- The bytes of SHA3-256 at the checksum input of the key of 32 times 2. -/
def checksumOfTwos (input : List UInt8) : Vector UInt8 32 :=
  if input = checksumLabel ++ List.replicate 32 2 ++ [3] then
    #v[68, 202, 166, 225, 35, 25, 218, 94, 195, 114, 1, 206, 113, 62, 100, 151, 186, 31, 111, 239,
      191, 252, 92, 40, 22, 117, 133, 252, 28, 123, 120, 216]
  else Vector.replicate 32 0

/-- The onion address of the storage fixtures. -/
theorem validOnion_exact_of_twos : validOnion checksumOfTwos
    "aibaeaqcaibaeaqcaibaeaqcaibaeaqcaibaeaqcaibaeaqcaibejsqd.onion".toUTF8.data.toList = true :=
  (validOnion_exact _ _).1.mpr ⟨List.replicate 32 2, rfl, by decide +kernel⟩

end OnionHosts
end Wildbloom
