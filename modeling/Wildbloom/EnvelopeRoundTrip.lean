import Wildbloom.EnvelopeNames
import Wildbloom.EnvelopeRecords
import Mathlib.Tactic

/-!
# What is encrypted can be decrypted

The header that encryption writes passes all checks, each record opens to the
stretch of the plaintext that was sealed in it, and the stretches of the source
in them add up to the source.
-/

namespace Wildbloom
namespace Envelope

open Slices

variable {InputKey Key : Type} {rules : Rules InputKey Key} {k : ℕ}

structure SealLaws (rules : Rules InputKey Key) : Prop where
  decrypt_encrypt : ∀ key nonce aad data,
    let sealed := rules.encryptDetached key nonce aad data
    rules.decryptDetached key nonce aad sealed.1 sealed.2 = some data
  data_length : ∀ key nonce aad data,
    (rules.encryptDetached key nonce aad data).1.length = data.length
  tag_length : ∀ key nonce aad data, (rules.encryptDetached key nonce aad data).2.length = tagBytes

/-- The metadata round-trips through its JSON, which is a text in braces. -/
structure JsonLaws (rules : Rules InputKey Key) : Prop where
  parse_json : ∀ metadata : Metadata, metadata.size < 2 ^ 64 →
    rules.parseJson (rules.json metadata) = some metadata
  utf8_json : ∀ metadata, rules.utf8 (rules.json metadata) = true
  two_le_length : ∀ metadata, 2 ≤ (rules.json metadata).length

/-! ## The header -/

theorem length_header {count : ℕ} {fresh : Fresh} :
    (header count fresh.noncePrefix fresh.salt).length = headerBytes := by
  simp only [header, List.length_append, length_toBigEndian,
    fresh.noncePrefix_length, fresh.salt_length]
  rfl

theorem header_fields (count : ℕ) (fresh : Fresh) :
    (header count fresh.noncePrefix fresh.salt).take 8 = magic ∧
    slice (header count fresh.noncePrefix fresh.salt) 8 4 = toBigEndian chunkBytes ∧
    slice (header count fresh.noncePrefix fresh.salt) 12 4 = toBigEndian count ∧
    slice (header count fresh.noncePrefix fresh.salt) 16 8 = fresh.noncePrefix ∧
    slice (header count fresh.noncePrefix fresh.salt) 24 32 = fresh.salt := by
  have hfront := fresh.noncePrefix_length
  have hsalt := fresh.salt_length
  have hmagic : magic.length = 8 := rfl
  refine ⟨rfl, rfl, rfl, ?_, ?_⟩
  · have hsplit : header count fresh.noncePrefix fresh.salt =
        (magic ++ toBigEndian chunkBytes ++ toBigEndian count) ++
          (fresh.noncePrefix ++ fresh.salt) := by
      rw [header, List.append_assoc]
    rw [slice, hsplit, List.drop_left' (by rfl), List.take_left' hfront]
  · have hsplit : header count fresh.noncePrefix fresh.salt =
        (magic ++ toBigEndian chunkBytes ++ toBigEndian count ++
          fresh.noncePrefix) ++ fresh.salt := rfl
    rw [slice, hsplit, List.drop_left' (by
        rw [List.length_append, hfront]; rfl), ← hsalt, List.take_length]

/-! ## Sizes -/

structure Sized (plain : Bytes) (count : ℕ) : Prop where
  pos : 0 < count
  lower : (count - 1) * chunkBytes < plain.length
  upper : plain.length ≤ count * chunkBytes

theorem length_chunk (plain : Bytes) (k : ℕ) :
    (chunk plain k).length = min chunkBytes (plain.length - k * chunkBytes) :=
  length_slice _ _ _

theorem sized_of_divCeil {plain : Bytes} (hpos : 0 < plain.length) :
    Sized plain (divCeil plain.length chunkBytes) := by
  have hchunk : 0 < chunkBytes := by decide
  have hcount : 0 < divCeil plain.length chunkBytes := by
    unfold divCeil
    apply Nat.div_pos <;> omega
  refine ⟨hcount, ?_, divCeil_mul_ge _ hchunk⟩
  have hlast : (divCeil plain.length chunkBytes - 1 + 1) * chunkBytes ≤
      plain.length + chunkBytes - 1 := by
    rw [Nat.sub_add_cancel hcount]
    exact Nat.div_mul_le_self _ _
  rw [Nat.succ_mul] at hlast
  omega

theorem Sized.envelopeLen {plain : Bytes} {count : ℕ} (hsized : Sized plain count) :
    envelopeLenFor plain.length = headerBytes + plain.length + count * tagBytes := by
  have hcount : divCeil plain.length chunkBytes = count := by
    have hlower := hsized.lower
    have hupper := hsized.upper
    have hpos := hsized.pos
    unfold divCeil
    apply Nat.div_eq_of_lt_le
    · have : count * chunkBytes = (count - 1) * chunkBytes + chunkBytes :=
      mul_eq_pred_mul_add hpos _
      omega
    · rw [Nat.succ_mul]
      have : 0 < chunkBytes := by decide
      omega
  rw [envelopeLenFor, hcount]

theorem recordLen_eq_chunk {envelopeLen count len : ℕ} (hk : k < count)
    (hlen : envelopeLen = headerBytes + len + count * tagBytes)
    (hlower : (count - 1) * chunkBytes < len) (hupper : len ≤ count * chunkBytes) :
    recordLen envelopeLen count k = min chunkBytes (len - k * chunkBytes) + tagBytes := by
  rw [hlen, recordLen]
  split
  next hlast =>
    obtain rfl : k = count - 1 := by omega
    have hchunks := mul_eq_pred_mul_add (by omega : 0 < count) chunkBytes
    have htags := mul_eq_pred_mul_add (by omega : 0 < count) tagBytes
    rw [recordBytes, Nat.mul_add]
    -- the sizes are not computed with
    generalize chunkBytes = size at *
    generalize tagBytes = tag at *
    omega
  next hnot =>
    have hle : (k + 1) * chunkBytes ≤ (count - 1) * chunkBytes :=
      Nat.mul_le_mul_right _ (by omega)
    rw [Nat.succ_mul] at hle
    unfold recordBytes
    generalize chunkBytes = size at *
    generalize tagBytes = tag at *
    omega

/-- The record that decryption reads is as long as the sealed stretch. -/
theorem Sized.recordLen_eq {plain : Bytes} {count : ℕ} (hsized : Sized plain count)
    (hk : k < count) :
    recordLen (envelopeLenFor plain.length) count k = (chunk plain k).length + tagBytes := by
  rw [length_chunk]
  exact recordLen_eq_chunk hk hsized.envelopeLen hsized.lower hsized.upper

/-! ## Records -/

/-- The part of the source in a record continues what was found before. -/
theorem copySource_slice (before data : Bytes) (start len : ℕ) :
    copySource (slice before start len) data before.length start len =
      slice (before ++ data) start len := by
  rw [slice_append, copySource]
  split
  next first last hover =>
    obtain ⟨hlt, rfl, rfl⟩ := overlap_eq_some_iff.mp hover
    congr 1
    rw [show max start before.length - before.length = start - before.length by
      omega]
    apply slice_eq_slice
    omega
  next hover =>
    have hnone := overlap_eq_none_iff.mp hover
    rw [List.self_eq_append_right, ← List.length_eq_zero_iff, length_slice]
    omega

section Decrypt

variable {key : Key} {head plain : Bytes} {limits : Limits} {count : ℕ}

theorem length_sealRecord (hlaws : SealLaws rules) (noncePrefix : Bytes)
    (counter : ℕ) (data : Bytes) :
    (sealRecord rules key noncePrefix head counter data).length = data.length + tagBytes := by
  rw [sealRecord, List.length_append, hlaws.data_length, hlaws.tag_length]

theorem decryptRecord_sealed (hlaws : SealLaws rules) (hsized : Sized plain count) (hk : k < count)
    {opened : Option (Metadata × ℕ)} {rest : Bytes} {found : Metadata × ℕ}
    (hopen : openMetadata rules limits plain.length (chunk plain k) opened = .ok found) :
    decryptRecord rules key head limits (envelopeLenFor plain.length) count
        ⟨sealRecord rules key (slice head 16 8) head k (chunk plain k) ++ rest,
          opened, slice (plain.take (k * chunkBytes)) found.2 found.1.size⟩ k =
      .ok ⟨rest, some found, slice (plain.take ((k + 1) * chunkBytes)) found.2 found.1.size⟩ := by
  have hlower := hsized.lower
  have hlen := hsized.recordLen_eq hk
  have hplain : envelopeLenFor plain.length - headerBytes - count * tagBytes = plain.length := by
    rw [hsized.envelopeLen]
    omega
  have hbefore : (plain.take (k * chunkBytes)).length = k * chunkBytes := by
    have hle : k * chunkBytes ≤ (count - 1) * chunkBytes :=
      Nat.mul_le_mul_right _ (by omega)
    rw [List.length_take]
    omega
  have hgrown : plain.take ((k + 1) * chunkBytes) =
      plain.take (k * chunkBytes) ++ chunk plain k := by
    rw [Nat.succ_mul, List.take_add]
    rfl
  have hrecord : (sealRecord rules key (slice head 16 8) head k
      (chunk plain k)).length = (chunk plain k).length + tagBytes :=
    length_sealRecord hlaws _ _ _
  have hsplit : (chunk plain k).length + tagBytes - tagBytes =
      (rules.encryptDetached key (nonce (slice head 16 8) k) (aad head k)
        (chunk plain k)).1.length := by
    rw [hlaws.data_length, Nat.add_sub_cancel]
  unfold decryptRecord
  dsimp only
  rw [hlen, hplain, if_neg (by rw [List.length_append, hrecord]; omega),
    List.take_left' hrecord, List.drop_left' hrecord, hsplit, sealRecord,
    List.take_left, List.drop_left, hlaws.decrypt_encrypt]
  dsimp only
  rw [hopen, hgrown, ← copySource_slice, hbefore]
  rfl

theorem foldlM_decryptRecord (hlaws : SealLaws rules) (hsized : Sized plain count)
    {found : Metadata × ℕ}
    (hopen : openMetadata rules limits plain.length (chunk plain 0) none = .ok found)
    (hk : k ≤ count) :
    (List.range k).foldlM (decryptRecord rules key head limits (envelopeLenFor plain.length) count)
        ⟨sealRecords rules key (slice head 16 8) head plain (List.range count), none, []⟩ =
      .ok ⟨sealRecords rules key (slice head 16 8) head plain (List.range' k (count - k)),
        if k = 0 then none else some found,
        slice (plain.take (k * chunkBytes)) found.2 found.1.size⟩ := by
  induction k with
  | zero => simp [slice, List.range_eq_range', pure, Except.pure]
  | succ k ih =>
    have hrest : sealRecords rules key (slice head 16 8) head plain (List.range' k (count - k)) =
        sealRecord rules key (slice head 16 8) head k (chunk plain k) ++
          sealRecords rules key (slice head 16 8) head plain
            (List.range' (k + 1) (count - (k + 1))) := by
      rw [show count - k = count - (k + 1) + 1 by omega, List.range'_succ]
      rfl
    have hfound : openMetadata rules limits plain.length (chunk plain k)
        (if k = 0 then none else some found) = .ok found := by
      split
      next hzero => rw [hzero, hopen]
      next => rfl
    rw [List.range_succ, List.foldlM_append, ih (by omega), hrest]
    change (decryptRecord rules key head limits _ count _ k >>= pure) = _
    rw [decryptRecord_sealed hlaws hsized (by omega) hfound, if_neg (Nat.succ_ne_zero k)]
    rfl

end Decrypt

/-! ## The first record -/

section First

variable {start source : Bytes} {padding : ℕ → UInt8} {len : ℕ}

theorem plaintext_eq_append (hfits : start.length + source.length ≤ len) :
    plaintext start source source.length padding len = start ++ (source ++
        (List.range (len - (start.length + source.length))).map
          fun i => padding (start.length + source.length + i)) := by
  apply List.ext_getElem
  · simp only [plaintext, List.length_map, List.length_range, List.length_append]
    omega
  · intro i hi hi'
    simp only [plaintext, List.getElem_map, List.getElem_range, byteAt]
    by_cases hstart : i < start.length
    · rw [if_pos hstart, List.getElem_append_left hstart,
        List.getD_eq_getElem?_getD, List.getElem?_eq_getElem hstart,
        Option.getD_some]
    rw [if_neg hstart, List.getElem_append_right (by omega)]
    by_cases hsource : i < start.length + source.length
    · rw [if_pos hsource, List.getElem_append_left (by omega),
        List.getD_eq_getElem?_getD, List.getElem?_eq_getElem (by omega),
        Option.getD_some]
    · rw [if_neg hsource, List.getElem_append_right (by omega)]
      simp only [List.getElem_map, List.getElem_range]
      congr 1
      omega

theorem slice_plaintext (hfits : start.length + source.length ≤ len) :
    slice (plaintext start source source.length padding len) start.length
      source.length = source := by
  rw [plaintext_eq_append hfits, slice, List.drop_left, List.take_left]

theorem length_plaintext (sourceBytes : ℕ) :
    (plaintext start source sourceBytes padding len).length = len := by
  simp [plaintext]

/-- The metadata at the start of a record is accepted when it is canonical. -/
theorem parseMetadata_start (hjson : JsonLaws rules) {metadata : Metadata}
    (hsize : metadata.size < 2 ^ 64) (hlength : (rules.json metadata).length ≤ maxMetadataBytes)
    (hname : sanitiseName rules metadata.name = metadata.name)
    (htype : normaliseMediaType rules metadata.mediaType = .ok metadata.mediaType) (rest : Bytes) :
    parseMetadata rules (toBigEndian (rules.json metadata).length ++ rules.json metadata ++ rest) =
      .ok (metadata, 4 + (rules.json metadata).length) := by
  have hsmall : (rules.json metadata).length < 2 ^ 32 :=
    hlength.trans_lt (by decide)
  have htwo := hjson.two_le_length metadata
  have hfour : (toBigEndian (rules.json metadata).length ++ rules.json metadata ++ rest).take 4 =
      toBigEndian (rules.json metadata).length := by
    rw [List.append_assoc]
    exact List.take_left' (length_toBigEndian _)
  have htext : slice (toBigEndian (rules.json metadata).length ++
      rules.json metadata ++ rest) 4 (rules.json metadata).length =
      rules.json metadata := by
    rw [slice, List.append_assoc, List.drop_left' (length_toBigEndian _), List.take_left]
  have hall : (toBigEndian (rules.json metadata).length ++ rules.json metadata ++ rest).length =
      4 + (rules.json metadata).length + rest.length := by
    rw [List.length_append, List.length_append, length_toBigEndian]
  unfold parseMetadata
  dsimp only
  rw [hfour, ofBigEndian_toBigEndian hsmall, htext, hall, if_neg (by omega),
    if_neg (by omega), if_neg (by rw [hjson.utf8_json]; decide),
    hjson.parse_json metadata hsize]
  dsimp only
  rw [canonicalMetadata, if_neg (not_lt.mpr hlength)]
  simp [Except.bind, hname, htype, Except.toOption]

end First

/-! ## The round trip -/

variable {name mediaType : Text} {sourceBytes : ℕ} {limits : Limits} {found : Layout}

theorem LaidOut.openMetadata_eq (htext : TextLaws rules) (hjson : JsonLaws rules) {source : Bytes}
    (hlaid : LaidOut rules name mediaType source.length limits found) (padding : ℕ → UInt8) :
    openMetadata rules limits found.plaintextLen
        (chunk (plaintext found.start source source.length padding found.plaintextLen) 0) none =
      .ok (found.metadata, found.start.length) := by
  obtain ⟨hfits, hbucket, hstart⟩ := hlaid.bounds
  have hlt := limits.lt
  have hsource := hlaid.fits
  have hsize : found.metadata.size < 2 ^ 64 := by
    rw [hlaid.size]
    omega
  have hname : sanitiseName rules found.metadata.name = found.metadata.name := by
    rw [hlaid.name, sanitiseName_sanitiseName htext.toNfcLaws]
  have htype := normaliseMediaType_of_ok htext hlaid.mediaType
  have hlength : found.start.length = 4 + (rules.json found.metadata).length := by
    rw [hlaid.start, List.length_append, length_toBigEndian]
  -- the first record holds all of the start
  have hfirst : ∃ rest, chunk (plaintext found.start source source.length
      padding found.plaintextLen) 0 = found.start ++ rest := by
    rw [chunk, slice, Nat.zero_mul, List.drop_zero, plaintext_eq_append hfits,
      List.take_append, List.take_of_length_le]
    · exact ⟨_, rfl⟩
    · unfold maxMetadataBytes at hstart
      unfold chunkBytes
      omega
  obtain ⟨rest, hrest⟩ := hfirst
  rw [hrest, openMetadata]
  nth_rewrite 1 [hlaid.start]
  rw [parseMetadata_start hjson hsize hlaid.json hname htype, ← hlength]
  dsimp only [Except.bind]
  rw [hlaid.size, if_neg, if_neg (not_lt.mpr hsource)]
  rw [not_or, not_not, ← hlaid.plaintextLen]
  exact ⟨by omega, rfl⟩

theorem LaidOut.sized (hlaid : LaidOut rules name mediaType sourceBytes limits
    found) (source : Bytes) (padding : ℕ → UInt8) :
    Sized (plaintext found.start source sourceBytes padding
      found.plaintextLen) found.recordCount := by
  have hbucket := hlaid.bounds.2.1
  rw [hlaid.recordCount]
  have hlen : (plaintext found.start source sourceBytes padding
      found.plaintextLen).length = found.plaintextLen :=
    length_plaintext sourceBytes
  conv_rhs => rw [← hlen]
  apply sized_of_divCeil
  rw [hlen]
  exact lt_of_lt_of_le (by decide) hbucket

theorem length_sealRecords (hlaws : SealLaws rules) {key : Key}
    {noncePrefix head plain : Bytes} {count : ℕ} (hsized : Sized plain count) :
    (sealRecords rules key noncePrefix head plain
      (List.range count)).length = plain.length + count * tagBytes := by
  have hfront : ∀ k, k ≤ count →
      (sealRecords rules key noncePrefix head plain (List.range k)).length =
        min plain.length (k * chunkBytes) + k * tagBytes := by
    intro k hk
    induction k with
    | zero => simp [sealRecords]
    | succ k ih =>
      have hlower := hsized.lower
      have hle : k * chunkBytes ≤ (count - 1) * chunkBytes :=
        Nat.mul_le_mul_right _ (by omega)
      rw [List.range_succ, sealRecords_append, List.length_append, ih (by omega)]
      have hlast : (sealRecords rules key noncePrefix head plain
          [k]).length = (chunk plain k).length + tagBytes := by
        simp only [sealRecords, List.map_cons, List.map_nil,
          List.flatten_cons, List.flatten_nil, List.append_nil]
        exact length_sealRecord hlaws _ _ _
      rw [hlast, length_chunk, Nat.succ_mul, Nat.succ_mul]
      generalize chunkBytes = size at *
      omega
  rw [hfront count le_rfl, Nat.min_eq_left hsized.upper]

theorem checkHeader_envelope {fresh : Fresh} {plain rest : Bytes} {count : ℕ}
    (hsized : Sized plain count) (hcount : count < 2 ^ 32) (hle : count ≤ limits.maxRecords)
    (hrest : rest.length = plain.length + count * tagBytes) :
    checkHeader (header count fresh.noncePrefix fresh.salt ++ rest)
        (envelopeLenFor plain.length) limits =
      .ok (header count fresh.noncePrefix fresh.salt, count) := by
  obtain ⟨hmagic, hchunk, hrecords, -, -⟩ := header_fields count fresh
  have hlen := hsized.envelopeLen
  have hlower := hsized.lower
  have hupper := hsized.upper
  have hpos := hsized.pos
  have hhead := @length_header count fresh
  have height : magic.length = 8 := rfl
  have hheader : headerBytes = 56 := rfl
  have htake : (header count fresh.noncePrefix fresh.salt ++ rest).take 8 = magic := by
    rw [List.take_append_of_le_length (by omega), hmagic]
  unfold checkHeader
  dsimp only
  rw [List.length_append, hhead, if_neg (by omega), htake,
    if_neg (not_not.mpr rfl), if_neg (by omega), List.take_left' hhead,
    hchunk, hrecords, ofBigEndian_toBigEndian (by decide),
    ofBigEndian_toBigEndian hcount, if_neg (by omega), if_neg]
  rw [hlen]
  unfold recordBytes
  rw [Nat.mul_add, Nat.mul_add, Nat.sub_mul count 1 tagBytes]
  have htag : tagBytes ≤ count * tagBytes := Nat.le_mul_of_pos_left _ hpos
  omega

section Envelopes

variable {fresh : Fresh} {source : Bytes}
  (hlaid : LaidOut rules name mediaType source.length limits found)

include hlaid

theorem LaidOut.length_envelopeOf (hseal : SealLaws rules) (key : InputKey) :
    (envelopeOf rules key found fresh source).length = envelopeLenFor found.plaintextLen := by
  have hsized := hlaid.sized source fresh.padding
  have hlen : (plaintext found.start source source.length fresh.padding
      found.plaintextLen).length = found.plaintextLen :=
    length_plaintext source.length
  rw [envelopeOf, List.length_append, length_header,
    length_sealRecords hseal hsized, ← Nat.add_assoc, ← hsized.envelopeLen,
    hlen]

theorem LaidOut.decrypt_envelopeOf (htext : TextLaws rules)
    (hjson : JsonLaws rules) (hseal : SealLaws rules) (key : InputKey) :
    decrypt rules key (envelopeOf rules key found fresh source)
        (envelopeOf rules key found fresh source).length limits =
      .ok (found.metadata, source) := by
  have hopen := hlaid.openMetadata_eq htext hjson fresh.padding
  have hsized := hlaid.sized source fresh.padding
  have hsource : slice (plaintext found.start source source.length
      fresh.padding found.plaintextLen) found.start.length source.length =
      source := slice_plaintext hlaid.bounds.1
  have hlen : (plaintext found.start source source.length fresh.padding
      found.plaintextLen).length = found.plaintextLen :=
    length_plaintext source.length
  rw [hlaid.length_envelopeOf hseal key, envelopeOf]
  generalize plaintext found.start source source.length fresh.padding
    found.plaintextLen = plain at *
  rw [← hlen] at hopen
  rw [← hlen]
  obtain ⟨-, -, -, hfront, hsalt⟩ := header_fields found.recordCount fresh
  generalize hhead : header found.recordCount fresh.noncePrefix fresh.salt = head at *
  have hcheck : checkHeader (head ++ sealRecords rules
      (rules.deriveEnvelopeKey key fresh.salt) fresh.noncePrefix head plain
      (List.range found.recordCount)) (envelopeLenFor plain.length) limits =
      .ok (head, found.recordCount) := by
    subst hhead
    exact checkHeader_envelope hsized hlaid.count_lt hlaid.count_le
      (length_sealRecords hseal hsized)
  have hdrop : (head ++ sealRecords rules
      (rules.deriveEnvelopeKey key fresh.salt) fresh.noncePrefix head plain
      (List.range found.recordCount)).drop headerBytes = sealRecords rules
      (rules.deriveEnvelopeKey key fresh.salt) (slice head 16 8) head plain
      (List.range found.recordCount) := by
    rw [hfront]
    exact List.drop_left' (hhead ▸ length_header)
  have hnone : sealRecords rules (rules.deriveEnvelopeKey key fresh.salt)
      (slice head 16 8) head plain (List.range' found.recordCount
        (found.recordCount - found.recordCount)) = [] := by
    rw [Nat.sub_self]
    rfl
  have hall : plain.take (found.recordCount * chunkBytes) = plain :=
    List.take_of_length_le hsized.upper
  unfold decrypt
  rw [hcheck, ok_bind]
  dsimp only
  rw [hsalt, hdrop, foldlM_decryptRecord hseal hsized hopen le_rfl, ok_bind,
    if_neg hlaid.count_ne, hnone, hall, hlaid.size, hsource]
  rfl

theorem LaidOut.unlimited : LaidOut rules name mediaType source.length .unlimited found := by
  have hlt := limits.lt
  have hfits := hlaid.fits
  have hcount := hlaid.count_lt
  have hmax : Limits.unlimited.maxRecords = 2 ^ 32 - 1 := by decide
  exact { hlaid with
    fits := by
      change source.length ≤ 2 ^ 64 - 1
      omega
    count_le := by
      rw [hmax]
      omega }

end Envelopes

/-- What `encryptWith` writes, `decrypt` gives back with the metadata that was
reported, and `envelopeBytes` tells its length. -/
theorem decrypt_encryptWith (htext : TextLaws rules) (hjson : JsonLaws rules)
    (hseal : SealLaws rules) {key : InputKey} {source : Bytes}
    {name mediaType : Text} {sourceBytes : ℕ} {limits : Limits} {fresh : Fresh}
    {sealed : Sealed} {envelope : Bytes}
    (hok : encryptWith rules key source sourceBytes name mediaType limits
      fresh = .ok (sealed, envelope)) :
    decrypt rules key envelope envelope.length limits = .ok (sealed.metadata, source) ∧
      envelopeBytes rules name mediaType sourceBytes = .ok envelope.length ∧
      sealed.envelopeBytes = envelope.length := by
  obtain ⟨found, hlaid, rfl, henvelope, hsealed⟩ :=
    encryptWith_eq_ok_iff.mp hok
  dsimp only at henvelope hsealed
  subst henvelope hsealed
  refine ⟨hlaid.decrypt_envelopeOf htext hjson hseal key, ?_, rfl⟩
  rw [envelopeBytes, layout_eq_ok_iff.mpr hlaid.unlimited, Except.map,
    hlaid.length_envelopeOf hseal key]

/-! ## Rules with which the format runs -/

section Sample

def sampleText (text : Text) : Bytes :=
  (text.flatMap fun c => 1 :: toBigEndian c.toNat) ++ [0]

def sampleParseText : Bytes → Option (Text × Bytes)
  | 1 :: a :: b :: c :: d :: rest =>
    (sampleParseText rest).map fun found =>
      (Char.ofNat (ofBigEndian [a, b, c, d]) :: found.1, found.2)
  | 0 :: rest => some ([], rest)
  | _ => none

theorem sampleParseText_sampleText (text : Text) (rest : Bytes) :
    sampleParseText (sampleText text ++ rest) = some (text, rest) := by
  induction text with
  | nil => rfl
  | cons c text ih =>
    have hlt : c.toNat < 2 ^ 32 := c.val.toNat_lt
    have hsplit : sampleText (c :: text) ++ rest =
        1 :: (toBigEndian c.toNat ++ (sampleText text ++ rest)) := by
      simp [sampleText]
    have hbytes : toBigEndian c.toNat = [_, _, _, _] := rfl
    rw [hsplit, hbytes]
    change (sampleParseText (sampleText text ++ rest)).map _ = _
    rw [ih, ← hbytes, Option.map_some, ofBigEndian_toBigEndian hlt, Char.ofNat_toNat]

def sampleJson (metadata : Metadata) : Bytes :=
  sampleText metadata.name ++ (sampleText metadata.mediaType ++
    (toBigEndian (metadata.size / 2 ^ 32) ++ toBigEndian (metadata.size % 2 ^ 32)))

def sampleParseJson (bytes : Bytes) : Option Metadata :=
  (sampleParseText bytes).bind fun name =>
    (sampleParseText name.2).map fun mediaType =>
      { name := name.1
        size := ofBigEndian (mediaType.2.take 4) * 2 ^ 32 + ofBigEndian (mediaType.2.drop 4)
        mediaType := mediaType.1 }

def sampleRules : Rules Unit Unit where
  nfc := id
  lowercase := id
  json := sampleJson
  parseJson := sampleParseJson
  utf8 := fun _ => true
  deriveEnvelopeKey := fun _ _ => ()
  encryptDetached := fun _ _ _ data => (data, List.replicate 16 0)
  decryptDetached := fun _ _ _ data tag =>
    if tag = List.replicate 16 0 then some data else none
  sha256 := id

theorem sampleRules_text : TextLaws sampleRules where
  nfc_nfc := fun _ => rfl
  nfc_infix := fun _ _ _ _ => rfl
  nfc_replace := fun _ _ => rfl
  nfc_clean := fun _ _ h _ => h
  nfc_blobBin := rfl
  lowercase_lowercase := fun _ => rfl
  lowercase_ne_nil := fun _ h => h
  lowercase_octetStream := rfl

theorem sampleRules_json : JsonLaws sampleRules where
  parse_json := by
    intro metadata hsize
    have hhigh : metadata.size / 2 ^ 32 < 2 ^ 32 := by omega
    have hlow : metadata.size % 2 ^ 32 < 2 ^ 32 := Nat.mod_lt _ (by norm_num)
    have hsplit : metadata.size / 2 ^ 32 * 2 ^ 32 + metadata.size % 2 ^ 32 =
        metadata.size := Nat.div_add_mod' _ _
    change sampleParseJson (sampleJson metadata) = some metadata
    rw [sampleParseJson, sampleJson, sampleParseText_sampleText,
      Option.bind_some, sampleParseText_sampleText, Option.map_some,
      List.take_left' (length_toBigEndian _),
      List.drop_left' (length_toBigEndian _), ofBigEndian_toBigEndian hhigh,
      ofBigEndian_toBigEndian hlow, hsplit]
  utf8_json := fun _ => rfl
  two_le_length := by
    intro metadata
    change 2 ≤ (sampleJson metadata).length
    simp only [sampleJson, List.length_append, length_toBigEndian]
    omega

theorem sampleRules_seal : SealLaws sampleRules where
  decrypt_encrypt := fun _ _ _ _ => rfl
  data_length := fun _ _ _ _ => rfl
  tag_length := fun _ _ _ _ => rfl

def sampleFresh : Fresh where
  noncePrefix := List.replicate 8 5
  salt := List.replicate 32 6
  padding := fun i => UInt8.ofNat (i * 73 + 41)
  noncePrefix_length := rfl
  salt_length := rfl

def sampleLimits : Limits := ⟨3, by norm_num⟩

def sampleLayout : Layout where
  metadata := ⟨['a'], 3, octetStream⟩
  start := toBigEndian (sampleJson ⟨['a'], 3, octetStream⟩).length ++
    sampleJson ⟨['a'], 3, octetStream⟩
  plaintextLen := minPaddingBucket
  recordCount := 1

theorem sampleLayout_laidOut : LaidOut sampleRules ['/', 'a'] [] 3 sampleLimits sampleLayout where
  fits := by decide
  mediaType := by decide
  name := by decide
  size := rfl
  json := by decide +kernel
  start := rfl
  logical := by decide +kernel
  plaintextLen := by decide +kernel
  recordCount := by decide
  count_lt := by decide
  count_ne := by decide
  count_le := by decide

end Sample

theorem decrypt_encryptWith_of_three_bytes : ∃ sealed envelope,
      encryptWith sampleRules () [1, 2, 3] 3 ['/', 'a'] [] sampleLimits
        sampleFresh = .ok (sealed, envelope) ∧
      decrypt sampleRules () envelope envelope.length sampleLimits =
        .ok (sealed.metadata, [1, 2, 3]) := by
  -- The padded plaintext of 64 KiB is never written out.
  generalize henvelope : envelopeOf sampleRules () sampleLayout sampleFresh [1, 2, 3] = envelope
  have hok : encryptWith sampleRules () [1, 2, 3] 3 ['/', 'a'] [] sampleLimits
      sampleFresh = .ok (⟨sampleLayout.metadata, envelope.length,
        sampleRules.sha256 envelope⟩, envelope) :=
    encryptWith_eq_ok_iff.mpr ⟨sampleLayout, sampleLayout_laidOut, rfl, henvelope.symm, rfl⟩
  exact ⟨_, _, hok, (decrypt_encryptWith sampleRules_text sampleRules_json sampleRules_seal hok).1⟩

end Envelope
end Wildbloom
