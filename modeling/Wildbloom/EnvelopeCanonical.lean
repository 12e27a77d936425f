import Wildbloom.EnvelopeRoundTrip
import Mathlib.Tactic

/-!
# What can be decrypted was encrypted

Decryption reads an envelope record by record.  After any number of records,
what was read is the sealing of a plaintext, and what was written is the stretch
of the source in it.  The checks of the header, of the metadata and of the
padding leave nothing open but the salt, the nonce prefix and the padding, so
encryption with these gives back the envelope.
-/

namespace Wildbloom
namespace Envelope

open Slices

variable {InputKey Key : Type} {rules : Rules InputKey Key}

/-- Opening succeeds exactly on what sealing produces. -/
structure OpenLaws (rules : Rules InputKey Key) : Prop extends SealLaws rules where
  encrypt_of_decrypt : ∀ {key nonce aad data tag plain},
    rules.decryptDetached key nonce aad data tag = some plain →
      rules.encryptDetached key nonce aad plain = (data, tag)

/-! ## The metadata -/

variable {data : Bytes} {metadata : Metadata}

/-- What `parseMetadata` accepts starts as encryption would start it. -/
theorem parseMetadata_eq_ok {start : ℕ} (hok : parseMetadata rules data = .ok (metadata, start)) :
    start = 4 + (rules.json metadata).length ∧ (rules.json metadata).length ≤ maxMetadataBytes ∧
      sanitiseName rules metadata.name = metadata.name ∧
      normaliseMediaType rules metadata.mediaType = .ok metadata.mediaType ∧
      data.take start = toBigEndian (rules.json metadata).length ++ rules.json metadata := by
  unfold parseMetadata at hok
  split at hok
  · cases hok
  next hfour =>
    dsimp only at hok
    split at hok
    · cases hok
    next hlength =>
      split at hok
      · cases hok
      split at hok
      · cases hok
      next found hfound =>
        obtain ⟨json, hjson, hok⟩ := bind_eq_ok hok
        rw [canonicalMetadata] at hjson
        split at hjson
        · cases hjson
        next hsmall =>
          cases hjson
          split at hok
          · cases hok
          next htext =>
            split at hok
            · cases hok
            next hname =>
              split at hok
              · cases hok
              next htype =>
                cases hok
                have hlen : (rules.json metadata).length = ofBigEndian (data.take 4) := by
                  rw [not_not.mp htext, length_slice]
                  omega
                have htake : (data.take 4).length = 4 := by
                  rw [List.length_take]
                  omega
                refine ⟨by rw [hlen], not_lt.mp hsmall, not_not.mp hname, ?_, ?_⟩
                · cases hresult : normaliseMediaType rules metadata.mediaType with
                  | error e =>
                    rw [hresult] at htype
                    exact absurd (fun h => by cases h) htype
                  | ok lowered =>
                    rw [hresult] at htype
                    exact congrArg _ (Option.some.inj (not_not.mp htype))
                · rw [List.take_add, hlen, toBigEndian_ofBigEndian htake, not_not.mp htext]
                  rfl

variable {limits : Limits}

theorem openMetadata_none_eq_ok {plaintextLen : ℕ} {found : Metadata × ℕ}
    (hok : openMetadata rules limits plaintextLen data none = .ok found) :
    parseMetadata rules data = .ok found ∧ found.1.size ≤ plaintextLen ∧
      paddedLength (found.2 + found.1.size) = plaintextLen ∧
      found.1.size ≤ limits.maxSourceBytes := by
  unfold openMetadata at hok
  obtain ⟨parsed, hparsed, hok⟩ := bind_eq_ok hok
  split at hok
  · cases hok
  next hpadding =>
    split at hok
    · cases hok
    next hlimit =>
      cases hok
      rw [not_or, not_lt, not_not] at hpadding
      exact ⟨hparsed, hpadding.1, hpadding.2, not_lt.mp hlimit⟩

/-! ## The header -/

structure LengthFits (envelopeLen count : ℕ) : Prop where
  pos : 0 < count
  lower : headerBytes + (count - 1) * recordBytes + 1 + tagBytes ≤ envelopeLen
  upper : envelopeLen ≤ headerBytes + count * recordBytes

variable {envelope : Bytes} {envelopeLen : ℕ}

theorem checkHeader_eq_ok {head : Bytes} {count : ℕ}
    (hok : checkHeader envelope envelopeLen limits = .ok (head, count)) :
    LengthFits envelopeLen count ∧ count < 2 ^ 32 ∧
      count ≤ limits.maxRecords ∧ head.length = headerBytes ∧
      envelope = head ++ envelope.drop headerBytes ∧
      head = header count (slice head 16 8) (slice head 24 32) := by
  unfold checkHeader at hok
  split at hok
  · cases hok
  split at hok
  · cases hok
  next hmagic =>
    split at hok
    · cases hok
    next hlong =>
      dsimp only at hok
      split at hok
      · cases hok
      next hfields =>
        split at hok
        · cases hok
        next hlengths =>
          cases hok
          rw [not_or, not_or, not_not, not_lt] at hfields
          obtain ⟨hchunk, hpos, hle⟩ := hfields
          have hheader : headerBytes = 56 := rfl
          have hhead : (envelope.take headerBytes).length = 56 := by
            rw [List.length_take]
            omega
          have hfirst : (envelope.take headerBytes).take 8 = magic := by
            rw [List.take_take]
            exact not_not.mp hmagic
          have hfour : ∀ i, i ≤ 12 → (slice (envelope.take headerBytes) i 4).length = 4 := by
            intro i hi
            rw [length_slice]
            omega
          refine ⟨⟨by omega, by omega, by omega⟩, ofBigEndian_lt _, hle, hhead,
            (List.take_append_drop _ _).symm, ?_⟩
          generalize envelope.take headerBytes = head at *
          rw [header, ← hchunk, toBigEndian_ofBigEndian (hfour 8 (by omega)),
            toBigEndian_ofBigEndian (hfour 12 le_rfl), ← hfirst]
          -- the fields follow each other
          have hall : head = slice head 0 (8 + 4 + 4 + 8 + 32) := by
            rw [slice, List.drop_zero, List.take_of_length_le (by omega)]
          conv_lhs => rw [hall]
          simp only [slice_add]
          rfl

def plaintextLenOf (envelopeLen count : ℕ) : ℕ :=
  envelopeLen - headerBytes - count * tagBytes

section Sizes

variable {envelopeLen count : ℕ} (hfits : LengthFits envelopeLen count)

include hfits

theorem LengthFits.envelopeLen_eq : envelopeLen =
      headerBytes + plaintextLenOf envelopeLen count + count * tagBytes := by
  have hpos := hfits.pos
  have hlower := hfits.lower
  have hsplit : count * tagBytes = (count - 1) * tagBytes + tagBytes :=
      mul_eq_pred_mul_add hpos _
  unfold recordBytes at hlower
  rw [Nat.mul_add] at hlower
  unfold plaintextLenOf
  omega

theorem LengthFits.plaintextLenOf_bounds :
    (count - 1) * chunkBytes < plaintextLenOf envelopeLen count ∧
      plaintextLenOf envelopeLen count ≤ count * chunkBytes := by
  have hpos := hfits.pos
  have hlower := hfits.lower
  have hupper := hfits.upper
  have hlen := hfits.envelopeLen_eq
  have hsplit : count * tagBytes = (count - 1) * tagBytes + tagBytes :=
      mul_eq_pred_mul_add hpos _
  unfold recordBytes at hlower hupper
  rw [Nat.mul_add] at hlower hupper
  omega

theorem LengthFits.recordLen_eq {k : ℕ} (hk : k < count) : recordLen envelopeLen count k =
      min chunkBytes (plaintextLenOf envelopeLen count - k * chunkBytes) + tagBytes := by
  obtain ⟨hmore, hless⟩ := hfits.plaintextLenOf_bounds
  exact recordLen_eq_chunk hk hfits.envelopeLen_eq hmore hless

theorem LengthFits.divCeil_eq : divCeil (plaintextLenOf envelopeLen count) chunkBytes = count := by
  obtain ⟨hmore, hless⟩ := hfits.plaintextLenOf_bounds
  have hpos := hfits.pos
  unfold divCeil
  apply Nat.div_eq_of_lt_le
  · have hchunks : count * chunkBytes = (count - 1) * chunkBytes + chunkBytes :=
      mul_eq_pred_mul_add hpos _
    omega
  · have hchunk : 0 < chunkBytes := by decide
    rw [Nat.succ_mul]
    omega

end Sizes

/-! ## Records -/

variable {plain : Bytes}

theorem chunk_append_of_le {i : ℕ} (h : (i + 1) * chunkBytes ≤ plain.length) :
    chunk (plain ++ data) i = chunk plain i := by
  rw [Nat.succ_mul] at h
  have hnone : slice data (i * chunkBytes - plain.length)
      (chunkBytes - (plain.length - i * chunkBytes)) = [] := by
    rw [← List.length_eq_zero_iff, length_slice]
    omega
  rw [chunk, slice_append, hnone, List.append_nil]
  rfl

theorem chunk_append_self {k : ℕ} (hplain : plain.length = k * chunkBytes)
    (hdata : data.length ≤ chunkBytes) : chunk (plain ++ data) k = data := by
  rw [chunk, slice, ← hplain, List.drop_left, List.take_of_length_le hdata]

theorem sealRecords_append_range {key : Key} {noncePrefix head : Bytes} {k : ℕ}
    (hplain : k * chunkBytes ≤ plain.length) (data : Bytes) :
    sealRecords rules key noncePrefix head (plain ++ data) (List.range k) =
      sealRecords rules key noncePrefix head plain (List.range k) := by
  rw [sealRecords, sealRecords]
  congr 1
  apply List.map_congr_left
  intro i hi
  have hle : (i + 1) * chunkBytes ≤ k * chunkBytes :=
    Nat.mul_le_mul_right _ (List.mem_range.mp hi)
  rw [chunk_append_of_le (hle.trans hplain)]

section Reading

variable {key : Key} {head body : Bytes} {limits : Limits} {envelopeLen count : ℕ}

/-- What the reader knows after `k` records: the plaintext of these. -/
structure Opened (rules : Rules InputKey Key) (key : Key) (head body : Bytes)
    (limits : Limits) (envelopeLen count k : ℕ) (plain : Bytes) (reader : Reader) : Prop where
  length : plain.length = min (plaintextLenOf envelopeLen count) (k * chunkBytes)
  body : body = sealRecords rules key (slice head 16 8) head plain (List.range k) ++ reader.envelope
  before : reader.opened = none → k = 0 ∧ reader.out = []
  found : ∀ found, reader.opened = some found →
    openMetadata rules limits (plaintextLenOf envelopeLen count) (chunk plain 0) none = .ok found ∧
      reader.out = slice plain found.2 found.1.size

variable {reader : Reader} {k : ℕ}

theorem decryptRecord_eq_ok (hlaws : OpenLaws rules) {next : Reader}
    (hok : decryptRecord rules key head limits envelopeLen count reader k = .ok next)
    (htag : tagBytes ≤ recordLen envelopeLen count k) :
    ∃ data found, data.length + tagBytes = recordLen envelopeLen count k ∧
      reader.envelope = sealRecord rules key (slice head 16 8) head k data ++ next.envelope ∧
      openMetadata rules limits (plaintextLenOf envelopeLen count) data reader.opened = .ok found ∧
      next.opened = some found ∧
      next.out = copySource reader.out data (k * chunkBytes) found.2
        found.1.size := by
  unfold decryptRecord at hok
  dsimp only at hok
  split at hok
  · cases hok
  next hlong =>
    split at hok
    · cases hok
    next data hdata =>
      have hseal := hlaws.encrypt_of_decrypt hdata
      cases hopen : openMetadata rules limits
          (envelopeLen - headerBytes - count * tagBytes) data reader.opened with
      | error e =>
        rw [hopen] at hok
        cases hok
      | ok found =>
        rw [hopen] at hok
        cases hok
        have hlength := hlaws.data_length key (nonce (slice head 16 8) k) (aad head k) data
        rw [hseal, List.length_take, List.length_take] at hlength
        refine ⟨data, found, by omega, ?_, hopen, rfl, rfl⟩
        rw [sealRecord, hseal, List.take_append_drop, List.take_append_drop]

theorem Opened.step (hlaws : OpenLaws rules) (hfits : LengthFits envelopeLen count) (hk : k < count)
    {next : Reader} (hopened : Opened rules key head body limits envelopeLen count k plain reader)
    (hok : decryptRecord rules key head limits envelopeLen count reader k = .ok next) :
    ∃ data, Opened rules key head body limits envelopeLen count (k + 1) (plain ++ data) next := by
  have hlen := hfits.recordLen_eq hk
  obtain ⟨hmore, -⟩ := hfits.plaintextLenOf_bounds
  obtain ⟨data, found, hdata, hrecord, hfound, hnext, hout⟩ :=
    decryptRecord_eq_ok hlaws hok (by omega)
  have hle : k * chunkBytes ≤ (count - 1) * chunkBytes :=
    Nat.mul_le_mul_right _ (by omega)
  have hplain : plain.length = k * chunkBytes := by
    rw [hopened.length]
    omega
  have hsmall : data.length ≤ chunkBytes := by omega
  have hself := chunk_append_self hplain hsmall
  refine ⟨data, ?_, ?_, ?_, ?_⟩
  · rw [List.length_append, Nat.succ_mul]
    omega
  · rw [List.range_succ, sealRecords_append,
      sealRecords_append_range hplain.ge, hopened.body, hrecord]
    simp [sealRecords, hself]
  · intro hnone
    rw [hnext] at hnone
    cases hnone
  · intro other hother
    obtain rfl : found = other := by
      rw [hnext] at hother
      exact Option.some.inj hother
    cases hbefore : reader.opened with
    | none =>
      obtain ⟨rfl, hnil⟩ := hopened.before hbefore
      obtain rfl : plain = [] := by
        rw [← List.length_eq_zero_iff, hplain, Nat.zero_mul]
      rw [hbefore] at hfound
      refine ⟨by rw [hself, hfound], ?_⟩
      have hcopy := copySource_slice [] data found.2 found.1.size
      have hnone : slice ([] : Bytes) found.2 found.1.size = [] := by
        simp [slice]
      rw [hnone] at hcopy
      rw [hout, hnil, Nat.zero_mul]
      exact hcopy
    | some earlier =>
      rw [hbefore] at hfound
      obtain rfl : earlier = found := by
        cases hfound
        rfl
      obtain ⟨hopen, hsource⟩ := hopened.found _ hbefore
      have hpos : 0 < k := by
        by_contra hzero
        obtain rfl : k = 0 := by omega
        obtain rfl : plain = [] := by
          rw [← List.length_eq_zero_iff, hplain, Nat.zero_mul]
        have hparsed := (openMetadata_none_eq_ok hopen).1
        simp [chunk, slice, parseMetadata] at hparsed
      have hfirst : chunk (plain ++ data) 0 = chunk plain 0 := by
        apply chunk_append_of_le
        rw [hplain]
        exact Nat.mul_le_mul_right _ hpos
      rw [hfirst, hout, hsource, ← hplain, copySource_slice]
      exact ⟨hopen, rfl⟩

theorem Opened.of_foldlM (hlaws : OpenLaws rules) (hfits : LengthFits envelopeLen count)
    (hk : k ≤ count)
    (hok : (List.range k).foldlM (decryptRecord rules key head limits envelopeLen count)
      ⟨body, none, []⟩ = .ok reader) :
    ∃ plain, Opened rules key head body limits envelopeLen count k plain
      reader := by
  induction k generalizing reader with
  | zero =>
    cases hok
    refine ⟨[], by simp, by simp [sealRecords], fun _ => ⟨rfl, rfl⟩, ?_⟩
    intro found hfound
    cases hfound
  | succ k ih =>
    rw [List.range_succ, List.foldlM_append] at hok
    obtain ⟨middle, hmiddle, hok⟩ := bind_eq_ok hok
    obtain ⟨last, hlast, hpure⟩ := bind_eq_ok hok
    cases hpure
    obtain ⟨plain, hopened⟩ := ih (by omega) hmiddle
    obtain ⟨data, hnext⟩ := hopened.step hlaws hfits (by omega) hlast
    exact ⟨_, hnext⟩

end Reading

/-! ## The envelope -/

variable {source : Bytes}

theorem plaintext_eq_self {start : Bytes} (hstart : plain.take start.length = start)
    (hsource : slice plain start.length source.length = source)
    (hfits : start.length + source.length ≤ plain.length) :
    plaintext start source source.length (fun i => plain.getD i 0) plain.length = plain := by
  rw [plaintext_eq_append hfits]
  have hpadding : slice plain (start.length + source.length)
      (plain.length - (start.length + source.length)) =
      (List.range (plain.length - (start.length + source.length))).map
        fun i => plain.getD (start.length + source.length + i) 0 :=
    slice_eq_map_range plain 0 (by omega)
  have hall : plain = slice plain 0 (start.length + source.length +
      (plain.length - (start.length + source.length))) := by
    rw [Nat.add_sub_cancel' hfits, slice_zero_length]
  have hfirst : slice plain 0 start.length = start := by
    rw [slice, List.drop_zero, hstart]
  conv_rhs => rw [hall, slice_add, slice_add, hfirst, Nat.zero_add, Nat.zero_add, hsource, hpadding]
  rw [List.append_assoc]

/-- The plaintext depends on the padding only where there is padding. -/
theorem plaintext_congr {start : Bytes} {sourceBytes len : ℕ} {padding other : ℕ → UInt8}
    (hsame : ∀ i, start.length + sourceBytes ≤ i → padding i = other i) :
    plaintext start source sourceBytes padding len =
      plaintext start source sourceBytes other len := by
  unfold plaintext
  apply List.map_congr_left
  intro i _
  unfold byteAt
  by_cases hsource : i < start.length + sourceBytes
  · rw [if_pos hsource, if_pos hsource]
  · rw [hsame i (not_lt.mp hsource)]

theorem decrypt_eq_ok (hlaws : OpenLaws rules) {key : InputKey}
    (hok : decrypt rules key envelope envelopeLen limits = .ok (metadata, source)) :
    ∃ head count plain start, checkHeader envelope envelopeLen limits = .ok (head, count) ∧
      plain.length = plaintextLenOf envelopeLen count ∧
      envelope.drop headerBytes = sealRecords rules
        (rules.deriveEnvelopeKey key (slice head 24 32)) (slice head 16 8) head
        plain (List.range count) ∧
      openMetadata rules limits (plaintextLenOf envelopeLen count)
        (chunk plain 0) none = .ok (metadata, start) ∧
      source = slice plain start metadata.size := by
  obtain ⟨⟨head, count⟩, hcheck, hok⟩ := bind_eq_ok hok
  obtain ⟨reader, hread, hok⟩ := bind_eq_ok hok
  obtain ⟨hfits, -⟩ := checkHeader_eq_ok hcheck
  obtain ⟨plain, hopened⟩ := Opened.of_foldlM hlaws hfits le_rfl hread
  by_cases hend : reader.envelope ≠ []
  · rw [if_pos hend] at hok
    cases hok
  rw [if_neg hend] at hok
  cases hsome : reader.opened with
  | none =>
    rw [hsome] at hok
    cases hok
  | some opened =>
    rw [hsome] at hok
    cases hok
    obtain ⟨hopen, hout⟩ := hopened.found _ hsome
    refine ⟨head, count, plain, opened.2, hcheck, ?_, ?_, hopen, hout⟩
    · rw [hopened.length, Nat.min_eq_left hfits.plaintextLenOf_bounds.2]
    · rw [hopened.body, not_not.mp hend, List.append_nil]

theorem laidOut_of_openMetadata {count start : ℕ} (hfits : LengthFits envelopeLen count)
    (hcount : count < 2 ^ 32) (hle : count ≤ limits.maxRecords)
    (hopen : openMetadata rules limits (plaintextLenOf envelopeLen count) data
      none = .ok (metadata, start)) :
    LaidOut rules metadata.name metadata.mediaType metadata.size limits
      ⟨metadata, toBigEndian (rules.json metadata).length ++
          rules.json metadata, plaintextLenOf envelopeLen count, count⟩ := by
  obtain ⟨hparsed, hsize, hpadded, hlimit⟩ := openMetadata_none_eq_ok hopen
  obtain ⟨rfl, hjson, hname, htype, -⟩ := parseMetadata_eq_ok hparsed
  dsimp only at hsize
  have hupper := hfits.plaintextLenOf_bounds.2
  have hpos := hfits.pos
  have hstart : (toBigEndian (rules.json metadata).length ++
      rules.json metadata).length = 4 + (rules.json metadata).length := by
    rw [List.length_append, length_toBigEndian]
  exact {
    fits := hlimit
    mediaType := htype
    name := hname.symm
    size := rfl
    json := hjson
    start := rfl
    logical := by
      dsimp only
      unfold maxMetadataBytes at hjson
      unfold chunkBytes at hupper
      omega
    plaintextLen := by rw [hstart, hpadded]
    recordCount := hfits.divCeil_eq.symm
    count_lt := hcount
    count_ne := hpos.ne'
    count_le := hle }

theorem LaidOut.unique {name mediaType : Text} {sourceBytes : ℕ} {otherLimits : Limits}
    {found other : Layout} (hfound : LaidOut rules name mediaType sourceBytes limits found)
    (hother : LaidOut rules name mediaType sourceBytes otherLimits other) : found = other := by
  have hmetadata : found.metadata = other.metadata := by
    have htype := hfound.mediaType.symm.trans hother.mediaType
    have hname := hfound.name.trans hother.name.symm
    have hsize := hfound.size.trans hother.size.symm
    cases hf : found.metadata
    cases ho : other.metadata
    simp only [hf, ho, Except.ok.injEq] at htype hname hsize
    rw [htype, hname, hsize]
  have hstart : found.start = other.start := by
    rw [hfound.start, hother.start, hmetadata]
  have hlen : found.plaintextLen = other.plaintextLen := by
    rw [hfound.plaintextLen, hother.plaintextLen, hstart]
  have hcount : found.recordCount = other.recordCount := by
    rw [hfound.recordCount, hother.recordCount, hlen]
  cases found
  cases other
  dsimp only at *
  rw [hmetadata, hstart, hlen, hcount]

theorem exists_envelopeOf (hlaws : OpenLaws rules) {key : InputKey}
    (hok : decrypt rules key envelope envelopeLen limits = .ok (metadata, source)) :
    ∃ found fresh, LaidOut rules metadata.name metadata.mediaType source.length limits found ∧
      found.metadata = metadata ∧
      fresh.noncePrefix = slice envelope 16 8 ∧
      fresh.salt = slice envelope 24 32 ∧
      envelope = envelopeOf rules key found fresh source := by
  obtain ⟨head, count, plain, start, hcheck, hlen, hbody, hopen, hsource⟩ :=
    decrypt_eq_ok hlaws hok
  obtain ⟨hfits, hcount, hle, hhead, henvelope, hheader⟩ :=
    checkHeader_eq_ok hcheck
  have hlaid := laidOut_of_openMetadata hfits hcount hle hopen
  have hbounds := hlaid.bounds
  obtain ⟨hparsed, -⟩ := openMetadata_none_eq_ok hopen
  obtain ⟨rfl, hjson, -, -, htake⟩ := parseMetadata_eq_ok hparsed
  have hheader56 : headerBytes = 56 := rfl
  have hstart : (toBigEndian (rules.json metadata).length ++
      rules.json metadata).length = 4 + (rules.json metadata).length := by
    rw [List.length_append, length_toBigEndian]
  dsimp only at hbounds
  rw [hstart, ← hlen] at hbounds
  have hsize : source.length = metadata.size := by
    rw [hsource, length_slice]
    omega
  have hfield : ∀ i n, i + n ≤ 56 → slice envelope i n = slice head i n := by
    intro i n hin
    have hnone : slice (envelope.drop headerBytes) (i - head.length)
        (n - (head.length - i)) = [] := by
      rw [← List.length_eq_zero_iff, length_slice]
      omega
    conv_lhs => rw [henvelope, slice_append, hnone, List.append_nil]
  have hfirst : plain.take (4 + (rules.json metadata).length) =
      toBigEndian (rules.json metadata).length ++ rules.json metadata := by
    rw [← htake, chunk, slice, Nat.zero_mul, List.drop_zero, List.take_take]
    congr 1
    unfold maxMetadataBytes at hjson
    unfold chunkBytes
    omega
  refine ⟨_, ⟨slice head 16 8, slice head 24 32, fun i => plain.getD i 0,
    by rw [length_slice]; omega, by rw [length_slice]; omega⟩,
    by rw [hsize]; exact hlaid, rfl, (hfield 16 8 (by omega)).symm,
    (hfield 24 32 (by omega)).symm, ?_⟩
  have hplain : plaintext (toBigEndian (rules.json metadata).length ++
      rules.json metadata) source source.length (fun i => plain.getD i 0)
      plain.length = plain := by
    apply plaintext_eq_self
    · rw [hstart, hfirst]
    · rw [hstart, hsize, ← hsource]
    · rw [hstart, hsize]
      exact hbounds.1
  unfold envelopeOf
  dsimp only
  rw [← hheader, ← hlen, hplain, ← hbody]
  exact henvelope

/-- Every envelope that is accepted is the one that encryption writes for what
was read, with the salt and the nonce prefix of the header and some padding.
Two accepted envelopes that were written with the same salt, nonce prefix and
padding and carry the same metadata and source are the same. -/
theorem decrypt_canonical (hlaws : OpenLaws rules) {key : InputKey}
    {envelope source : Bytes} {envelopeLen : ℕ} {limits : Limits} {metadata : Metadata}
    (hok : decrypt rules key envelope envelopeLen limits = .ok (metadata, source)) :
    (∃ fresh sealed, fresh.noncePrefix = slice envelope 16 8 ∧ fresh.salt = slice envelope 24 32 ∧
      sealed.metadata = metadata ∧
      encryptWith rules key source source.length metadata.name
        metadata.mediaType limits fresh = .ok (sealed, envelope)) ∧
    ∀ fresh sealed, encryptWith rules key source source.length metadata.name
        metadata.mediaType limits fresh = .ok (sealed, envelope) →
      ∀ other otherLen otherLimits otherFresh otherSealed,
        decrypt rules key other otherLen otherLimits = .ok (metadata, source) →
        encryptWith rules key source source.length metadata.name
          metadata.mediaType otherLimits otherFresh = .ok (otherSealed, other) →
        otherFresh.noncePrefix = fresh.noncePrefix →
        otherFresh.salt = fresh.salt →
        (∀ i, 4 + (rules.json metadata).length + source.length ≤ i →
          otherFresh.padding i = fresh.padding i) →
        other = envelope := by
  obtain ⟨found, fresh, hlaid, hmetadata, hfront, hsalt, henvelope⟩ :=
    exists_envelopeOf hlaws hok
  constructor
  · refine ⟨fresh, ⟨metadata, envelope.length, rules.sha256 envelope⟩, hfront,
      hsalt, rfl, encryptWith_eq_ok_iff.mpr ⟨found, hlaid, rfl, henvelope, ?_⟩⟩
    rw [hmetadata]
  · intro drawn sealed hsealed other otherLen otherLimits otherDrawn otherSealed
      _ hother hsamePrefix hsameSalt hsamePadding
    obtain ⟨first, hfirst, -, heq, -⟩ := encryptWith_eq_ok_iff.mp hsealed
    obtain ⟨second, hsecond, -, hothereq, -⟩ := encryptWith_eq_ok_iff.mp hother
    obtain rfl := hlaid.unique hfirst
    obtain rfl := hlaid.unique hsecond
    dsimp only at heq hothereq
    have hstart : found.start.length = 4 + (rules.json metadata).length := by
      rw [hlaid.start, List.length_append, length_toBigEndian, hmetadata]
    have hplain : plaintext found.start source source.length otherDrawn.padding found.plaintextLen =
        plaintext found.start source source.length drawn.padding
          found.plaintextLen := by
      apply plaintext_congr
      rw [hstart]
      exact hsamePadding
    rw [hothereq, heq, envelopeOf, envelopeOf, hsamePrefix, hsameSalt, hplain]

theorem sampleRules_open : OpenLaws sampleRules where
  toSealLaws := sampleRules_seal
  encrypt_of_decrypt := by
    intro key nonce aad data tag plain hopen
    change (if tag = List.replicate 16 0 then some data else none) = some plain at hopen
    split at hopen
    next htag =>
      cases hopen
      exact Prod.ext rfl htag.symm
    next => cases hopen

theorem decrypt_canonical_of_three_bytes : ∃ envelope fresh sealed,
      decrypt sampleRules () envelope envelope.length sampleLimits =
        .ok (sampleLayout.metadata, [1, 2, 3]) ∧
      encryptWith sampleRules () [1, 2, 3] 3 ['a'] octetStream sampleLimits
        fresh = .ok (sealed, envelope) := by
  have hok : decrypt sampleRules () (envelopeOf sampleRules () sampleLayout sampleFresh [1, 2, 3])
      (envelopeOf sampleRules () sampleLayout sampleFresh [1, 2, 3]).length
      sampleLimits = .ok (sampleLayout.metadata, [1, 2, 3]) :=
    sampleLayout_laidOut.decrypt_envelopeOf sampleRules_text sampleRules_json sampleRules_seal ()
  obtain ⟨fresh, sealed, -, -, -, hsealed⟩ :=
    (decrypt_canonical sampleRules_open hok).1
  exact ⟨_, fresh, sealed, hok, hsealed⟩

end Envelope
end Wildbloom
