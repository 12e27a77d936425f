import Wildbloom.Slices
import Mathlib.Data.Nat.Log
import Mathlib.Data.List.DropRight

/-!
# The envelope format

An envelope is a clear header and a number of authenticated records.  The
plaintext of the records, one after the other, is the length of the metadata,
the metadata as canonical JSON, the source and padding up to a bucket size.
Encryption lays the three over each record; decryption checks that nothing but
the padding could have been different.

`Rules` collects what libraries compute.  64-bit arithmetic wraps where the
source could overflow.
-/

namespace Wildbloom
namespace Envelope

open Slices

abbrev Bytes := List UInt8

abbrev Text := List Char

def magic : Bytes := [0x46, 0x53, 0x57, 0x4e, 0x45, 0x4e, 0x43, 0x32]

def headerBytes : ℕ := 56

def chunkBytes : ℕ := 1024 * 1024

def tagBytes : ℕ := 16

def minPaddingBucket : ℕ := 64 * 1024

def maxMetadataBytes : ℕ := 4096

def recordBytes : ℕ := chunkBytes + tagBytes

inductive Error
  | sourceChanged
  | tooLarge
  | mediaType
  | metadataTooLarge
  | magic
  | header
  | length
  | authentication
  | metadata (reason : String)
  | padding
deriving DecidableEq

structure Metadata where
  name : Text
  size : ℕ
  mediaType : Text
deriving DecidableEq

structure Limits where
  maxSourceBytes : ℕ
  lt : maxSourceBytes < 2 ^ 64

def divCeil (a b : ℕ) : ℕ := (a + b - 1) / b

def Limits.maxRecords (limits : Limits) : ℕ :=
  let logical := min (limits.maxSourceBytes + (4 + maxMetadataBytes)) (2 ^ 64 - 1)
  min (divCeil logical chunkBytes) (2 ^ 32 - 1)

def Limits.unlimited : Limits := ⟨2 ^ 64 - 1, by norm_num⟩

structure Rules (InputKey Key : Type) where
  nfc : Text → Text
  lowercase : Text → Text
  json : Metadata → Bytes
  parseJson : Bytes → Option Metadata
  utf8 : Bytes → Bool
  deriveEnvelopeKey : InputKey → Bytes → Key
  /-- The ciphertext and the tag, for a nonce and associated data. -/
  encryptDetached : Key → Bytes → Bytes → Bytes → Bytes × Bytes
  decryptDetached : Key → Bytes → Bytes → Bytes → Bytes → Option Bytes
  sha256 : Bytes → Bytes

/-! ## Names and media types -/

def isJsWhitespace (c : Char) : Bool :=
  decide (c.toNat ∈ [0x9, 0xa, 0xb, 0xc, 0xd, 0x20, 0xa0, 0x1680, 0x2028,
    0x2029, 0x202f, 0x205f, 0x3000, 0xfeff]) ||
  decide (0x2000 ≤ c.toNat ∧ c.toNat ≤ 0x200a)

def isControl (c : Char) : Bool :=
  decide (c.toNat ≤ 0x1f ∨ c.toNat = 0x7f)

def isSeparator (c : Char) : Bool := decide (c = '/' ∨ c = '\\')

def isReserved (c : Char) : Bool :=
  decide (c ∈ ['<', '>', ':', '"', '|', '?', '*'])

def lenUtf16 (c : Char) : ℕ := if c.toNat < 0x10000 then 1 else 2

def utf16Count (text : Text) : ℕ := (text.map lenUtf16).sum

/-- The longest start of the text within a number of units. -/
def takeUnits : ℕ → Text → Text
  | _, [] => []
  | units, c :: rest =>
    if lenUtf16 c ≤ units then c :: takeUnits (units - lenUtf16 c) rest else []

def blobBin : Text := ['b', 'l', 'o', 'b', '.', 'b', 'i', 'n']

section Functions

variable {InputKey Key : Type} (rules : Rules InputKey Key)

def sanitiseName (value : Text) : Text :=
  let leaf := value.rtakeWhile fun c => !isSeparator c
  let withoutControls := leaf.filter fun c => !isControl c
  let mapped := (rules.nfc withoutControls).map fun c =>
    if isReserved c then '_' else c
  let trimmed := (mapped.dropWhile fun c =>
    decide (c = '.') || isJsWhitespace c).rdropWhile isJsWhitespace
  let fallback := if trimmed = [] then blobBin else trimmed
  if utf16Count fallback ≤ 180 then fallback
  else (takeUnits 180 fallback).rdropWhile isJsWhitespace

def octetStream : Text := "application/octet-stream".toList

def normaliseMediaType (value : Text) : Except Error Text :=
  let lowered := if value = [] then octetStream else rules.lowercase value
  if 255 < utf16Count lowered ∨ lowered.any isControl then .error .mediaType
  else .ok lowered

/-! ## Layout -/

/-- A 64 KiB floor, powers of two up to 1 MiB, then steps of 1 MiB. -/
def paddedLength (length : ℕ) : ℕ :=
  if length ≤ minPaddingBucket then minPaddingBucket
  else if length ≤ chunkBytes then 2 ^ Nat.clog 2 length
  else divCeil length chunkBytes * chunkBytes % 2 ^ 64

def envelopeLenFor (plaintext : ℕ) : ℕ :=
  headerBytes + plaintext + divCeil plaintext chunkBytes * tagBytes

def canonicalMetadata (metadata : Metadata) : Except Error Bytes :=
  let json := rules.json metadata
  if maxMetadataBytes < json.length then .error .metadataTooLarge else .ok json

structure Layout where
  metadata : Metadata
  /-- The length of the metadata and its JSON. -/
  start : Bytes
  plaintextLen : ℕ
  recordCount : ℕ

def layout (name mediaType : Text) (sourceBytes : ℕ) (limits : Limits) :
    Except Error Layout := do
  if limits.maxSourceBytes < sourceBytes then
    throw .tooLarge
  let mediaType ← normaliseMediaType rules mediaType
  let metadata := ⟨sanitiseName rules name, sourceBytes, mediaType⟩
  let json ← canonicalMetadata rules metadata
  let start := toBigEndian json.length ++ json
  let logical := start.length + sourceBytes
  if 2 ^ 64 ≤ logical then
    throw .tooLarge
  let plaintextLen := paddedLength logical
  let recordCount := divCeil plaintextLen chunkBytes
  if 2 ^ 32 ≤ recordCount then
    throw .tooLarge
  if recordCount = 0 ∨ limits.maxRecords < recordCount then
    throw .tooLarge
  return ⟨metadata, start, plaintextLen, recordCount⟩

def envelopeBytes (name mediaType : Text) (sourceBytes : ℕ) : Except Error ℕ :=
  (layout rules name mediaType sourceBytes .unlimited).map fun layout =>
    envelopeLenFor layout.plaintextLen

/-! ## Records -/

def header (recordCount : ℕ) (noncePrefix salt : Bytes) : Bytes :=
  magic ++ toBigEndian chunkBytes ++ toBigEndian recordCount ++ noncePrefix ++ salt

def nonce (noncePrefix : Bytes) (counter : ℕ) : Bytes :=
  noncePrefix ++ toBigEndian counter

def aad (header : Bytes) (counter : ℕ) : Bytes :=
  header ++ toBigEndian counter

/-- The part of `[start, start + len)` inside the record of `recordLen` bytes
at `offset`, by positions in the record. -/
def overlap (offset recordLen start len : ℕ) : Option (ℕ × ℕ) :=
  let first := max start offset
  let last := min (start + len) (offset + recordLen)
  if first < last then some (first - offset, last - offset) else none

/-- What is drawn for each envelope; the padding by its position. -/
structure Fresh where
  noncePrefix : Bytes
  salt : Bytes
  padding : ℕ → UInt8
  noncePrefix_length : noncePrefix.length = 8
  salt_length : salt.length = 32

/-! ## Encryption -/

structure Sealed where
  metadata : Metadata
  envelopeBytes : ℕ
  sha256 : Bytes

def copyStart (start : Bytes) (offset len : ℕ) (buffer : Bytes) : Bytes :=
  match overlap offset len 0 start.length with
  | some (first, last) =>
    splice buffer first (slice start (offset + first) (last - first))
  | none => buffer

def fillRecord (start : Bytes) (sourceBytes : ℕ) (padding : ℕ → UInt8)
    (offset len : ℕ) (source : Bytes) : Except Error (Bytes × Bytes) :=
  let buffer := (List.range len).map fun i => padding (offset + i)
  let buffer := copyStart start offset len buffer
  match overlap offset len start.length sourceBytes with
  | some (first, last) =>
    if source.length < last - first then .error .sourceChanged
    else .ok (splice buffer first (source.take (last - first)), source.drop (last - first))
  | none => .ok (buffer, source)

structure Writer where
  source : Bytes
  out : Bytes

def encryptRecord (key : Key) (fresh : Fresh) (layout : Layout)
    (sourceBytes : ℕ) (head : Bytes) (writer : Writer) (counter : ℕ) : Except Error Writer :=
  let offset := counter * chunkBytes
  let len := min (layout.plaintextLen - offset) chunkBytes
  (fillRecord layout.start sourceBytes fresh.padding offset len
    writer.source).map fun filled =>
      let sealed := rules.encryptDetached key (nonce fresh.noncePrefix counter)
        (aad head counter) filled.1
      { source := filled.2, out := writer.out ++ sealed.1 ++ sealed.2 }

def encryptWith (key : InputKey) (source : Bytes) (sourceBytes : ℕ)
    (name mediaType : Text) (limits : Limits) (fresh : Fresh) :
    Except Error (Sealed × Bytes) := do
  let layout ← layout rules name mediaType sourceBytes limits
  let head := header layout.recordCount fresh.noncePrefix fresh.salt
  let cipher := rules.deriveEnvelopeKey key fresh.salt
  let writer ← (List.range layout.recordCount).foldlM
    (encryptRecord rules cipher fresh layout sourceBytes head) ⟨source, head⟩
  if writer.source ≠ [] then
    throw .sourceChanged
  return (⟨layout.metadata, writer.out.length, rules.sha256 writer.out⟩, writer.out)

/-! ## Decryption -/

def parseMetadata (plaintext : Bytes) : Except Error (Metadata × ℕ) :=
  if plaintext.length < 4 then .error (.metadata "truncated")
  else
    let length := ofBigEndian (plaintext.take 4)
    if length < 2 ∨ maxMetadataBytes < length ∨ plaintext.length < 4 + length then
      .error (.metadata "length")
    else
      let text := slice plaintext 4 length
      if rules.utf8 text = false then .error (.metadata "utf-8")
      else
        match rules.parseJson text with
        | none => .error (.metadata "shape")
        | some metadata =>
          (canonicalMetadata rules metadata).bind fun json =>
            if json ≠ text then .error (.metadata "canonical form")
            else if sanitiseName rules metadata.name ≠ metadata.name then
              .error (.metadata "name")
            else if (normaliseMediaType rules metadata.mediaType).toOption ≠
                some metadata.mediaType then .error (.metadata "type")
            else .ok (metadata, 4 + length)

structure Reader where
  envelope : Bytes
  opened : Option (Metadata × ℕ)
  out : Bytes

/-- What the first record says is checked before it is used; later records
change nothing about it. -/
def openMetadata (limits : Limits) (plaintextLen : ℕ) (data : Bytes) :
    Option (Metadata × ℕ) → Except Error (Metadata × ℕ)
  | some opened => .ok opened
  | none =>
    (parseMetadata rules data).bind fun found =>
      if plaintextLen < found.1.size ∨ paddedLength (found.2 + found.1.size) ≠ plaintextLen then
        .error .padding
      else if limits.maxSourceBytes < found.1.size then .error .tooLarge
      else .ok found

def recordLen (envelopeLen count counter : ℕ) : ℕ :=
  if counter + 1 = count then
    envelopeLen - headerBytes - (count - 1) * recordBytes
  else recordBytes

def copySource (out data : Bytes) (offset start len : ℕ) : Bytes :=
  match overlap offset data.length start len with
  | some (first, last) => out ++ slice data first (last - first)
  | none => out

def decryptRecord (key : Key) (head : Bytes) (limits : Limits)
    (envelopeLen count : ℕ) (reader : Reader) (counter : ℕ) : Except Error Reader :=
  let plaintextLen := envelopeLen - headerBytes - count * tagBytes
  let len := recordLen envelopeLen count counter
  if reader.envelope.length < len then .error .length
  else
    let record := reader.envelope.take len
    match rules.decryptDetached key (nonce (slice head 16 8) counter) (aad head counter)
        (record.take (len - tagBytes)) (record.drop (len - tagBytes)) with
    | none => .error .authentication
    | some data =>
      (openMetadata rules limits plaintextLen data reader.opened).map
        fun opened =>
          { envelope := reader.envelope.drop len
            opened := some opened
            out := copySource reader.out data (counter * chunkBytes) opened.2
              opened.1.size }

def checkHeader (envelope : Bytes) (envelopeLen : ℕ) (limits : Limits) : Except Error (Bytes × ℕ) :=
  if envelopeLen < magic.length ∨ envelope.length < magic.length then
    .error .length
  else if envelope.take 8 ≠ magic then .error .magic
  else if envelopeLen < headerBytes ∨ envelope.length < headerBytes then
    .error .length
  else
    let head := envelope.take headerBytes
    let count := ofBigEndian (slice head 12 4)
    if ofBigEndian (slice head 8 4) ≠ chunkBytes ∨ count = 0 ∨
        limits.maxRecords < count then .error .header
    else if envelopeLen < headerBytes + (count - 1) * recordBytes + 1 + tagBytes ∨
        headerBytes + count * recordBytes < envelopeLen then .error .length
    else .ok (head, count)

def decrypt (key : InputKey) (envelope : Bytes) (envelopeLen : ℕ)
    (limits : Limits) : Except Error (Metadata × Bytes) := do
  let (head, count) ← checkHeader envelope envelopeLen limits
  let cipher := rules.deriveEnvelopeKey key (slice head 24 32)
  let reader ← (List.range count).foldlM (decryptRecord rules cipher head limits envelopeLen count)
    ⟨envelope.drop headerBytes, none, []⟩
  if reader.envelope ≠ [] then
    throw .length
  match reader.opened with
  | some opened => return (opened.1, reader.out)
  | none => throw .header

end Functions

end Envelope
end Wildbloom
