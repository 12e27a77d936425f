import Mathlib.Data.Nat.Notation
import Mathlib.Algebra.Notation.Defs

/-!
# Coded parts

A payload is cut into `k` blocks, from which `n` parts of the same length are
made; any `k` parts are enough to make all of them again.  The arithmetic is
that of bytes as polynomials over two elements, reduced by
`x^8 + x^4 + x^3 + x^2 + 1`.  Matrices are lists of rows.

`regenerate` reads `k` parts in stripes and writes all parts.  Files are lists
of bytes here: opening and writing them succeeds, and reading fails when a file
is too short.
-/

namespace Wildbloom
namespace Coding

structure Byte where
  bits : BitVec 8
deriving DecidableEq

namespace Byte

instance : Zero Byte := ⟨⟨0#8⟩⟩

instance : One Byte := ⟨⟨1#8⟩⟩

instance : XorOp Byte := ⟨fun a b => ⟨a.bits ^^^ b.bits⟩⟩

def ofNat (n : ℕ) : Byte := ⟨BitVec.ofNat 8 n⟩

def toNat (b : Byte) : ℕ := b.bits.toNat

end Byte

inductive Error
  | internal
  | io
  | partHash
  | payload
deriving DecidableEq

abbrev Rows := List (List Byte)

def stripe : ℕ := 64 * 1024

/-! ## Arithmetic -/

def double (a : BitVec 8) : BitVec 8 :=
  (a <<< 1) ^^^ (if a &&& 128#8 ≠ 0#8 then 0x1d#8 else 0#8)

/-- The loop of `mul`, which ends when `b` is zero. -/
def mulRounds : ℕ → BitVec 8 → BitVec 8 → BitVec 8 → BitVec 8
  | 0, _, _, out => out
  | fuel + 1, a, b, out =>
    if b = 0#8 then out
    else
      mulRounds fuel (double a) (b >>> 1) (if b &&& 1#8 ≠ 0#8 then out ^^^ a else out)

def mul (a b : Byte) : Byte := ⟨mulRounds 8 a.bits b.bits 0#8⟩

def power (a : Byte) (n : ℕ) : Byte :=
  (List.range n).foldl (fun v _ => mul v a) 1

/-! ## Matrices -/

def entry (rows : Rows) (r c : ℕ) : Byte := (rows.getD r []).getD c 0

def zipInto (f : Byte → Byte → Byte) (values partners : List Byte) : List Byte :=
  List.zipWith f values partners ++ values.drop partners.length

def swap (rows : Rows) (i j : ℕ) : Rows :=
  (rows.set i (rows.getD j [])).set j (rows.getD i [])

def augment (matrix : Rows) : Rows :=
  matrix.mapIdx fun r row =>
    row ++ (List.range matrix.length).map fun c => if r = c then 1 else 0

def invertColumn (n : ℕ) (work : Rows) (col : ℕ) : Except Error Rows :=
  match (List.range' col (n - col)).find? fun r =>
      decide (entry work r col ≠ 0) with
  | none => .error .internal
  | some pivot =>
    let work := swap work col pivot
    let scale := power (entry work col col) 254
    let work := work.modify col fun row => row.map fun v => mul v scale
    let pivotRow := work.getD col []
    .ok (work.mapIdx fun r row =>
      if r = col then row
      else
        zipInto (fun value pivotValue =>
          value ^^^ mul (row.getD col 0) pivotValue) row pivotRow)

def invert (matrix : Rows) : Except Error Rows :=
  let n := matrix.length
  ((List.range n).foldlM (invertColumn n) (augment matrix)).map fun work =>
    work.map fun row => row.drop n

def product (a b : Rows) : Rows :=
  a.map fun row =>
    (List.range (b.getD 0 []).length).map fun c =>
      row.zipIdx.foldl (fun s term => s ^^^ mul term.1 (entry b term.2 c)) 0

def powers (k n : ℕ) : Rows :=
  (List.range n).map fun r =>
    (List.range k).map fun c => power (Byte.ofNat r) c

def generator (k n : ℕ) : Except Error Rows :=
  if k < 2 ∨ n ≤ k ∨ 16 < n then .error .internal
  else (invert ((powers k n).take k)).map fun inverse =>
    product (powers k n) inverse

/-- The inputs are added up with their coefficients, through a table of the
products of each coefficient. -/
def combine (row : List Byte) (inputs : Rows) (count : ℕ) : List Byte :=
  (row.zip inputs).foldl (fun out term =>
    if term.1 = 0 then out
    else
      let table := (List.range 256).map fun b => mul term.1 (Byte.ofNat b)
      zipInto (fun dst src => dst ^^^ table.getD src.toNat 0) out term.2)
    (List.replicate count 0)

/-! ## Regeneration -/

structure Part (Hash : Type) where
  size : ℕ
  sha256 : Hash

structure Manifest (Hash : Type) where
  required : ℕ
  total : ℕ
  parts : List (Part Hash)
  payload : Part Hash

/-- The stripe loop: the sources that are left, and what was written. -/
def stripes (transform : Rows) (size offset : ℕ) (readers outputs : Rows) : Except Error Rows :=
  if offset < size then
    let count := min stripe (size - offset)
    if readers.all fun reader => decide (count ≤ reader.length) then
      let inputs := readers.map (·.take count)
      stripes transform size (offset + count) (readers.map (·.drop count))
        (List.zipWith (fun row output => output ++ combine row inputs count) transform outputs)
    else .error .io
  else .ok outputs
termination_by size - offset
decreasing_by
  have : 0 < stripe := by decide
  omega

/-- The loop over one file of the payload: the first eight bytes of the
payload, and the bytes that are hashed. -/
def readPayload (left : ℕ) (file header bytes : List Byte) : Except Error (List Byte × List Byte) :=
  if 0 < left then
    let count := min stripe left
    if count ≤ file.length then
      readPayload (left - count) (file.drop count)
        (if header.length < 8 then
          header ++ file.take (min count (8 - header.length))
        else header)
        (bytes ++ file.take count)
    else .error .io
  else .ok (header, bytes)
termination_by left
decreasing_by
  have : 0 < stripe := by decide
  omega

def readPayloads (size : ℕ) :
    Rows → ℕ → List Byte × List Byte → Except Error (ℕ × List Byte × List Byte)
  | [], remaining, found => .ok (remaining, found)
  | file :: files, remaining, found =>
    (readPayload (min size remaining) file found.1 found.2).bind fun found =>
      readPayloads size files (remaining - min size remaining) found

section Regenerate

variable {Hash : Type} [DecidableEq Hash]

def magic : List Byte :=
  [0x46, 0x53, 0x57, 0x4e, 0x45, 0x4e, 0x43, 0x32].map Byte.ofNat

def regenerate (sha256 : List Byte → Hash) (manifest : Manifest Hash)
    (sources : List (ℕ × List Byte)) : Except Error Rows := do
  let k := manifest.required
  if sources.length ≠ k then
    throw .internal
  let matrix ← generator k manifest.total
  let decode ← invert (sources.map fun source => matrix.getD source.1 [])
  let transform := product matrix decode
  let size := (manifest.parts.head?.map Part.size).getD 0
  let files ← stripes transform size 0 (sources.map Prod.snd) (List.replicate manifest.total [])
  if (files.zip manifest.parts).any fun entry =>
      decide (sha256 entry.1 ≠ entry.2.sha256) then
    throw .partHash
  let (remaining, header, bytes) ← readPayloads size (files.take k) manifest.payload.size ([], [])
  if remaining ≠ 0 ∨ sha256 bytes ≠ manifest.payload.sha256 ∨ header ≠ magic then
    throw .payload
  return files

end Regenerate

end Coding
end Wildbloom
