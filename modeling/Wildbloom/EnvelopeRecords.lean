import Wildbloom.EnvelopeModel
import Mathlib.Tactic

/-!
# What encryption writes

The plaintext of an envelope is one list: the length and the metadata, the
source, the padding.  The record loop lays these over each record, and what it
lays there is the stretch of the plaintext that the record covers.  So an
encryption that succeeds writes the header and the sealed stretches, and it
succeeds whenever there is a layout and the source has the stated length.
-/

namespace Wildbloom
namespace Envelope

open Slices

variable {InputKey Key : Type} {rules : Rules InputKey Key}

theorem ok_bind {α β : Type} (a : α) (f : α → Except Error β) : (Except.ok a >>= f) = f a := rfl

theorem bind_eq_ok {α β : Type} {x : Except Error α} {f : α → Except Error β}
    {b : β} (h : (x >>= f) = .ok b) : ∃ a, x = .ok a ∧ f a = .ok b := by
  cases x with
  | error e => cases h
  | ok a => exact ⟨a, rfl, h⟩

/-! ## Layouts -/

structure LaidOut (rules : Rules InputKey Key) (name mediaType : Text)
    (sourceBytes : ℕ) (limits : Limits) (found : Layout) : Prop where
  fits : sourceBytes ≤ limits.maxSourceBytes
  mediaType : normaliseMediaType rules mediaType = .ok found.metadata.mediaType
  name : found.metadata.name = sanitiseName rules name
  size : found.metadata.size = sourceBytes
  json : (rules.json found.metadata).length ≤ maxMetadataBytes
  start : found.start = toBigEndian (rules.json found.metadata).length ++ rules.json found.metadata
  logical : found.start.length + sourceBytes < 2 ^ 64
  plaintextLen : found.plaintextLen = paddedLength (found.start.length + sourceBytes)
  recordCount : found.recordCount = divCeil found.plaintextLen chunkBytes
  count_lt : found.recordCount < 2 ^ 32
  count_ne : found.recordCount ≠ 0
  count_le : found.recordCount ≤ limits.maxRecords

variable {name mediaType : Text} {sourceBytes : ℕ} {limits : Limits} {found : Layout}

theorem layout_eq_ok_iff :
    layout rules name mediaType sourceBytes limits = .ok found ↔
      LaidOut rules name mediaType sourceBytes limits found := by
  constructor
  · intro hok
    unfold layout at hok
    by_cases hfits : limits.maxSourceBytes < sourceBytes
    · rw [if_pos hfits] at hok
      cases hok
    rw [if_neg hfits] at hok
    cases htype : normaliseMediaType rules mediaType with
    | error e =>
      rw [htype] at hok
      cases hok
    | ok lowered =>
      rw [htype] at hok
      simp only [ok_bind, canonicalMetadata] at hok
      by_cases hjson : maxMetadataBytes < (rules.json
          ⟨sanitiseName rules name, sourceBytes, lowered⟩).length
      · rw [if_pos hjson] at hok
        cases hok
      rw [if_neg hjson] at hok
      simp only [ok_bind] at hok
      split at hok
      · cases hok
      next hlogical =>
        split at hok
        · cases hok
        next hcount =>
          split at hok
          · cases hok
          next hrecords =>
            cases hok
            rw [not_or, not_lt] at hrecords
            exact ⟨not_lt.mp hfits, htype, rfl, rfl, not_lt.mp hjson, rfl,
              not_le.mp hlogical, rfl, rfl, not_le.mp hcount, hrecords.1,
              hrecords.2⟩
  · rintro ⟨hfits, htype, hname, hsize, hjson, hstart, hlogical, hlen, hcount, hlt, hne, hle⟩
    obtain ⟨metadata, start, plaintextLen, recordCount⟩ := found
    obtain ⟨found, size, lowered⟩ := metadata
    dsimp only at *
    subst hname hsize hstart hlen hcount
    unfold layout
    rw [if_neg (not_lt.mpr hfits), htype]
    simp only [ok_bind, canonicalMetadata, if_neg (not_lt.mpr hjson)]
    rw [if_neg (not_le.mpr hlogical), if_neg (not_le.mpr hlt),
      if_neg (not_or.mpr ⟨hne, not_lt.mpr hle⟩)]
    rfl

theorem mul_eq_pred_mul_add {n : ℕ} (hn : 0 < n) (m : ℕ) : n * m = (n - 1) * m + m := by
  rw [Nat.sub_mul, Nat.one_mul, Nat.sub_add_cancel (Nat.le_mul_of_pos_left m hn)]

theorem divCeil_mul_ge (a : ℕ) {b : ℕ} (hb : 0 < b) : a ≤ divCeil a b * b := by
  unfold divCeil
  have hmod := Nat.div_add_mod (a + b - 1) b
  have hlt := Nat.mod_lt (a + b - 1) hb
  rw [Nat.mul_comm]
  omega

/-- The bucket holds what is padded, unless its size wrapped to zero. -/
theorem paddedLength_cases {length : ℕ} (hlength : length < 2 ^ 64) : paddedLength length = 0 ∨
      length ≤ paddedLength length ∧ minPaddingBucket ≤ paddedLength length := by
  unfold paddedLength
  split
  next hsmall => exact .inr ⟨hsmall, le_rfl⟩
  next hsmall =>
    split
    next hchunk =>
      have hpow := Nat.le_pow_clog one_lt_two length
      exact .inr ⟨hpow, by omega⟩
    next hlarge =>
      have hceil : length ≤ divCeil length chunkBytes * chunkBytes :=
        divCeil_mul_ge length (by decide)
      have htop : divCeil length chunkBytes * chunkBytes ≤ 2 ^ 64 := by
        have hdiv : divCeil length chunkBytes ≤ 2 ^ 44 := by
          unfold divCeil chunkBytes
          omega
        calc divCeil length chunkBytes * chunkBytes ≤ 2 ^ 44 * chunkBytes :=
              Nat.mul_le_mul_right _ hdiv
          _ = 2 ^ 64 := by decide
      rcases htop.lt_or_eq with hlt | heq
      · rw [Nat.mod_eq_of_lt hlt]
        exact .inr ⟨hceil, by omega⟩
      · exact .inl (by rw [heq, Nat.mod_self])

theorem LaidOut.bounds (hlaid : LaidOut rules name mediaType sourceBytes limits found) :
    found.start.length + sourceBytes ≤ found.plaintextLen ∧ minPaddingBucket ≤ found.plaintextLen ∧
      found.start.length ≤ 4 + maxMetadataBytes := by
  have hstart : found.start.length ≤ 4 + maxMetadataBytes := by
    rw [hlaid.start, List.length_append, length_toBigEndian]
    have := hlaid.json
    omega
  rcases paddedLength_cases hlaid.logical with hzero | ⟨hle, hbucket⟩
  · have hcount := hlaid.recordCount
    rw [hlaid.plaintextLen, hzero] at hcount
    exact absurd hcount hlaid.count_ne
  · rw [← hlaid.plaintextLen] at hle hbucket
    exact ⟨hle, hbucket, hstart⟩

/-! ## The plaintext -/

def byteAt (start source : Bytes) (sourceBytes : ℕ) (padding : ℕ → UInt8) (i : ℕ) : UInt8 :=
  if i < start.length then start.getD i 0
  else if i < start.length + sourceBytes then source.getD (i - start.length) 0
  else padding i

def plaintext (start source : Bytes) (sourceBytes : ℕ) (padding : ℕ → UInt8) (len : ℕ) : Bytes :=
  (List.range len).map (byteAt start source sourceBytes padding)

def passed (start count offset : ℕ) : ℕ := min (offset - start) count

theorem overlap_eq_some_iff {offset recordLen start len first last : ℕ} :
    overlap offset recordLen start len = some (first, last) ↔
      max start offset < min (start + len) (offset + recordLen) ∧
        first = max start offset - offset ∧
        last = min (start + len) (offset + recordLen) - offset := by
  rw [overlap, Option.ite_none_right_eq_some, Option.some.injEq, Prod.mk.injEq]
  constructor <;> rintro ⟨hlt, rfl, rfl⟩ <;> exact ⟨hlt, rfl, rfl⟩

theorem overlap_eq_none_iff {offset recordLen start len : ℕ} :
    overlap offset recordLen start len = none ↔
      min (start + len) (offset + recordLen) ≤ max start offset := by
  rw [overlap, ite_eq_right_iff, ← not_lt]
  simp only [reduceCtorEq, imp_false]

theorem copyStart_padding (start : Bytes) (padding : ℕ → UInt8) (offset len : ℕ) :
    copyStart start offset len ((List.range len).map fun i => padding (offset + i)) =
      (List.range len).map fun i =>
        if offset + i < start.length then start.getD (offset + i) 0
        else padding (offset + i) := by
  unfold copyStart
  split
  next first last hover =>
    obtain ⟨hlt, rfl, rfl⟩ := overlap_eq_some_iff.mp hover
    rw [slice_eq_map_range start 0 (by omega)]
    have hlay := splice_map_range (fun i => padding (offset + i))
      (fun i => start.getD (offset + i) 0) (max 0 offset - offset)
      (min (0 + start.length) (offset + len) - offset) len (by omega) (by omega)
    simp only [Nat.add_assoc] at hlay ⊢
    rw [hlay]
    apply List.map_congr_left
    intro i hi
    have := List.mem_range.mp hi
    by_cases h : offset + i < start.length
    · rw [if_pos h, if_pos (by omega)]
    · rw [if_neg h, if_neg (by omega)]
  next hover =>
    have hnone := overlap_eq_none_iff.mp hover
    apply List.map_congr_left
    intro i hi
    have := List.mem_range.mp hi
    rw [if_neg (by omega)]

/-- One record is the stretch of the plaintext it covers, and it takes from
the source what lies in it. -/
theorem fillRecord_eq (start source : Bytes) (sourceBytes : ℕ)
    (padding : ℕ → UInt8) (offset len : ℕ)
    (hpassed : passed start.length sourceBytes offset ≤ source.length) :
    fillRecord start sourceBytes padding offset len
        (source.drop (passed start.length sourceBytes offset)) =
      if source.length < passed start.length sourceBytes (offset + len) then
        .error .sourceChanged
      else
        .ok ((List.range len).map fun i =>
            byteAt start source sourceBytes padding (offset + i),
          source.drop (passed start.length sourceBytes (offset + len))) := by
  unfold fillRecord
  dsimp only
  rw [copyStart_padding]
  unfold passed at *
  split
  next first last hover =>
    obtain ⟨hlt, rfl, rfl⟩ := overlap_eq_some_iff.mp hover
    rw [List.length_drop]
    by_cases hshort : source.length < min (offset + len - start.length) sourceBytes
    · rw [if_pos hshort, if_pos (by omega)]
    · rw [if_neg hshort, if_neg (by omega), List.drop_drop]
      have htake : (source.drop (min (offset - start.length) sourceBytes)).take
          (min (start.length + sourceBytes) (offset + len) - offset -
            (max start.length offset - offset)) =
          (List.range (min (start.length + sourceBytes) (offset + len) -
            offset - (max start.length offset - offset))).map fun i =>
              source.getD (offset + (max start.length offset - offset + i) - start.length) 0 := by
        rw [← slice, slice_eq_map_range source 0 (by omega)]
        apply List.map_congr_left
        intro i hi
        have := List.mem_range.mp hi
        congr 1
        omega
      have hlay := splice_map_range (fun i =>
          if offset + i < start.length then start.getD (offset + i) 0
          else padding (offset + i))
        (fun i => source.getD (offset + i - start.length) 0) (max start.length offset - offset)
        (min (start.length + sourceBytes) (offset + len) - offset) len
        (by omega) (by omega)
      rw [htake, hlay]
      congr 2
      · apply List.map_congr_left
        intro i hi
        have := List.mem_range.mp hi
        unfold byteAt
        by_cases hstart : offset + i < start.length
        · rw [if_pos hstart, if_pos hstart, if_neg (by omega)]
        · rw [if_neg hstart, if_neg hstart]
          by_cases hsource : offset + i < start.length + sourceBytes
          · rw [if_pos hsource, if_pos (by omega)]
          · rw [if_neg hsource, if_neg (by omega)]
      · congr 1
        omega
  next hover =>
    have hnone := overlap_eq_none_iff.mp hover
    have hsame : min (offset + len - start.length) sourceBytes =
        min (offset - start.length) sourceBytes ∨ len = 0 := by
      omega
    rw [if_neg (by omega)]
    congr 2
    · apply List.map_congr_left
      intro i hi
      have := List.mem_range.mp hi
      unfold byteAt
      by_cases hstart : offset + i < start.length
      · rw [if_pos hstart, if_pos hstart]
      · rw [if_neg hstart, if_neg hstart, if_neg (by omega)]
    · congr 1
      omega

/-! ## Records -/

def sealRecord (rules : Rules InputKey Key) (key : Key)
    (noncePrefix head : Bytes) (counter : ℕ) (data : Bytes) : Bytes :=
  let sealed := rules.encryptDetached key (nonce noncePrefix counter) (aad head counter) data
  sealed.1 ++ sealed.2

def chunk (plain : Bytes) (counter : ℕ) : Bytes :=
  slice plain (counter * chunkBytes) chunkBytes

def sealRecords (rules : Rules InputKey Key) (key : Key)
    (noncePrefix head plain : Bytes) (counters : List ℕ) : Bytes :=
  (counters.map fun counter =>
    sealRecord rules key noncePrefix head counter (chunk plain counter)).flatten

theorem sealRecords_append (key : Key) (noncePrefix head plain : Bytes) (first second : List ℕ) :
    sealRecords rules key noncePrefix head plain (first ++ second) =
      sealRecords rules key noncePrefix head plain first ++
        sealRecords rules key noncePrefix head plain second := by
  rw [sealRecords, List.map_append, List.flatten_append]
  rfl

theorem chunk_plaintext (start source : Bytes) (sourceBytes : ℕ)
    (padding : ℕ → UInt8) (len counter : ℕ) :
    chunk (plaintext start source sourceBytes padding len) counter =
      (List.range (min (len - counter * chunkBytes) chunkBytes)).map fun i =>
        byteAt start source sourceBytes padding (counter * chunkBytes + i) := by
  rw [chunk, plaintext, slice, ← List.map_drop, ← List.map_take]
  apply List.ext_getElem
  · simp [Nat.min_comm]
  · simp

section Encrypt

variable {key : Key} {fresh : Fresh} {found : Layout} {sourceBytes : ℕ} {head source : Bytes}

theorem foldlM_encryptRecord {k : ℕ} (hk : ∀ i < k, i * chunkBytes ≤ found.plaintextLen) :
    (List.range k).foldlM (encryptRecord rules key fresh found sourceBytes head) ⟨source, head⟩ =
      if source.length < passed found.start.length sourceBytes
          (min found.plaintextLen (k * chunkBytes)) then
        .error .sourceChanged
      else
        .ok ⟨source.drop (passed found.start.length sourceBytes
            (min found.plaintextLen (k * chunkBytes))),
          head ++ sealRecords rules key fresh.noncePrefix head
            (plaintext found.start source sourceBytes fresh.padding
              found.plaintextLen) (List.range k)⟩ := by
  induction k with
  | zero => simp [passed, sealRecords, pure, Except.pure]
  | succ k ih =>
    have hoffset := hk k (by omega)
    have hstep : k * chunkBytes + min (found.plaintextLen - k * chunkBytes) chunkBytes =
        min found.plaintextLen ((k + 1) * chunkBytes) := by
      rw [Nat.succ_mul]
      omega
    have hmono : passed found.start.length sourceBytes (k * chunkBytes) ≤
        passed found.start.length sourceBytes (min found.plaintextLen ((k + 1) * chunkBytes)) := by
      rw [← hstep]
      unfold passed
      omega
    rw [List.range_succ, List.foldlM_append, ih fun i hi => hk i (by omega),
      Nat.min_eq_right hoffset]
    by_cases hbefore : source.length < passed found.start.length sourceBytes (k * chunkBytes)
    · rw [if_pos hbefore, if_pos (by omega)]
      rfl
    rw [if_neg hbefore]
    change (encryptRecord rules key fresh found sourceBytes head _ k >>= pure) = _
    rw [encryptRecord]
    rw [fillRecord_eq _ _ _ _ _ _ (not_lt.mp hbefore), hstep]
    by_cases hafter : source.length < passed found.start.length sourceBytes
        (min found.plaintextLen ((k + 1) * chunkBytes))
    · rw [if_pos hafter, if_pos hafter]
      rfl
    · rw [if_neg hafter, if_neg hafter, sealRecords_append, ← chunk_plaintext]
      simp [Except.map, pure, Except.pure, bind, Except.bind, sealRecords, sealRecord]

end Encrypt

theorem mul_le_of_lt_divCeil {a b i : ℕ} (hi : i < divCeil a b) : i * b ≤ a := by
  unfold divCeil at hi
  rcases Nat.eq_zero_or_pos b with rfl | hb
  · omega
  have hle : (i + 1) * b ≤ a + b - 1 :=
    (Nat.le_div_iff_mul_le hb).mp hi
  rw [Nat.succ_mul] at hle
  omega

def envelopeOf (rules : Rules InputKey Key) (key : InputKey) (found : Layout)
    (fresh : Fresh) (source : Bytes) : Bytes :=
  let head := header found.recordCount fresh.noncePrefix fresh.salt
  head ++ sealRecords rules (rules.deriveEnvelopeKey key fresh.salt) fresh.noncePrefix head
    (plaintext found.start source source.length fresh.padding
      found.plaintextLen) (List.range found.recordCount)

theorem LaidOut.foldlM_encryptRecord (hlaid : LaidOut rules name mediaType sourceBytes limits found)
    (key : Key) (fresh : Fresh) (head source : Bytes) :
    (List.range found.recordCount).foldlM
        (encryptRecord rules key fresh found sourceBytes head) ⟨source, head⟩ =
      if source.length < sourceBytes then .error .sourceChanged
      else
        .ok ⟨source.drop sourceBytes, head ++ sealRecords rules key fresh.noncePrefix head
            (plaintext found.start source sourceBytes fresh.padding
              found.plaintextLen) (List.range found.recordCount)⟩ := by
  have hcovers : found.plaintextLen ≤ found.recordCount * chunkBytes := by
    rw [hlaid.recordCount]
    exact divCeil_mul_ge _ (by decide)
  have hall : passed found.start.length sourceBytes found.plaintextLen = sourceBytes := by
    have := hlaid.bounds.1
    unfold passed
    omega
  rw [Envelope.foldlM_encryptRecord, Nat.min_eq_left hcovers, hall]
  intro i hi
  rw [hlaid.recordCount] at hi
  exact mul_le_of_lt_divCeil hi

/-- An encryption succeeds exactly when there is a layout and the source is as
long as stated. -/
theorem encryptWith_eq_ok_iff {key : InputKey} {source : Bytes} {fresh : Fresh}
    {result : Sealed × Bytes} :
    encryptWith rules key source sourceBytes name mediaType limits fresh = .ok result ↔
      ∃ found, LaidOut rules name mediaType sourceBytes limits found ∧ source.length = sourceBytes ∧
        result.2 = envelopeOf rules key found fresh source ∧
        result.1 = ⟨found.metadata, result.2.length, rules.sha256 result.2⟩ := by
  constructor
  · intro hok
    unfold encryptWith at hok
    cases hlayout : layout rules name mediaType sourceBytes limits with
    | error e =>
      rw [hlayout] at hok
      cases hok
    | ok found =>
      have hlaid := layout_eq_ok_iff.mp hlayout
      rw [hlayout, ok_bind] at hok
      simp only [hlaid.foldlM_encryptRecord] at hok
      by_cases hshort : source.length < sourceBytes
      · rw [if_pos hshort] at hok
        cases hok
      rw [if_neg hshort, ok_bind] at hok
      by_cases hlong : source.drop sourceBytes = []
      · have hlength : source.length = sourceBytes := by
          rw [List.drop_eq_nil_iff] at hlong
          omega
        rw [if_neg (not_not.mpr hlong)] at hok
        cases hok
        subst hlength
        exact ⟨found, hlaid, rfl, rfl, rfl⟩
      · rw [if_pos hlong] at hok
        cases hok
  · rintro ⟨found, hlaid, rfl, hout, hsealed⟩
    obtain ⟨sealed, out⟩ := result
    dsimp only at hout hsealed
    subst hout hsealed
    unfold encryptWith
    rw [layout_eq_ok_iff.mpr hlaid, ok_bind]
    simp only [hlaid.foldlM_encryptRecord, lt_irrefl, if_false, ok_bind,
      List.drop_length, ne_eq, not_true]
    rfl

end Envelope
end Wildbloom
