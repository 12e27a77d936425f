import Wildbloom.ErasureMatrices
import Mathlib.Tactic

/-!
# Repair from any `k` parts

With `G` the generator, `D` the blocks and `S` the chosen rows of `G`, the
parts are `G * D` and the survivors `S * D`.  The transform is `G * S⁻¹`, so
applied to the survivors it gives the parts again.  `regenerate` does this
stripe by stripe, and what it checks at the end holds of what it wrote.
-/

namespace Wildbloom
namespace Coding

open RowReduction

def encode (matrix blocks : Rows) (count : ℕ) : Rows :=
  matrix.map fun row => combine row blocks count

def choose (rows : Rows) (chosen : List ℕ) : Rows :=
  chosen.map fun i => rows.getD i []

def identity (k : ℕ) : Rows :=
  (List.range k).map fun r => (List.range k).map fun c => if r = c then 1 else 0

section Repair

variable {k n count : ℕ} {G : Matrix (Fin n) (Fin k) Byte} {size : ℕ}

theorem identity_eq (k : ℕ) : identity k = ofMatrix (1 : Matrix (Fin k) (Fin k) Byte) := by
  simp only [identity, map_range_eq_ofFn, ofMatrix]
  congr 1
  funext r
  congr 1
  funext c
  simp [Matrix.one_apply, Fin.ext_iff]

theorem exists_choice {chosen : List ℕ} (hlength : chosen.length = k)
    (hnodup : chosen.Nodup) (hbound : ∀ i ∈ chosen, i < n) :
    ∃ e : Fin k → Fin n, Function.Injective e ∧ ∀ {c : ℕ} (M : Matrix (Fin n) (Fin c) Byte),
        choose (ofMatrix M) chosen = ofMatrix (M.submatrix e id) := by
  subst hlength
  refine ⟨fun i => ⟨chosen.get i, hbound _ (List.get_mem chosen i)⟩, ?_, ?_⟩
  · intro i j heq
    exact List.nodup_iff_injective_get.mp hnodup (congrArg Fin.val heq)
  · intro c M
    apply List.ext_getElem
    · simp [choose, ofMatrix]
    · intro i hi hi'
      have hlt : i < chosen.length := by simpa [choose] using hi
      have hrow := getD_ofMatrix M ⟨chosen[i], hbound _ (List.getElem_mem hlt)⟩
      simp only [choose, List.getElem_map]
      rw [hrow]
      simp [ofMatrix]
      rfl

/-- The generator begins with the unit matrix, and `invert` finds the inverse
of any `k` of its rows. -/
theorem exists_generator (hk : 2 ≤ k) (hkn : k < n) (hn : n ≤ 16) :
    ∃ G : Matrix (Fin n) (Fin k) Byte, generator k n = .ok (ofMatrix G) ∧
      G.submatrix (Fin.castLE hkn.le) id = 1 ∧
      ∀ e : Fin k → Fin n, Function.Injective e →
        ∃ S, invert (ofMatrix (G.submatrix e id)) = .ok (ofMatrix S) ∧
          S * G.submatrix e id = 1 := by
  obtain ⟨N, hgenerator, hone⟩ := generator_eq hk hkn hn
  have hrows : ∀ e : Fin k → Fin n, (powerMatrix k n * N).submatrix e id =
      (powerMatrix k n).submatrix e id * N := fun e => rfl
  refine ⟨powerMatrix k n * N, hgenerator, ?_, ?_⟩
  · rw [hrows]
    exact mul_eq_one_comm.mp hone
  · intro e he
    apply invert_ofMatrix
    apply trivialKernel_of_isUnit_det
    rw [hrows, Matrix.det_mul]
    exact (isUnit_det_powerMatrix (by omega) he).mul
      (Matrix.isUnit_det_of_right_inverse hone)

theorem encode_ofMatrix (G : Matrix (Fin n) (Fin k) Byte) (D : Matrix (Fin k) (Fin count) Byte) :
    encode (ofMatrix G) (ofMatrix D) count = ofMatrix (G * D) :=
  map_combine_ofMatrix G D

theorem transform_survivors (hk : 0 < k) {S : Matrix (Fin k) (Fin k) Byte} {e : Fin k → Fin n}
    (hone : S * G.submatrix e id = 1) (D : Matrix (Fin k) (Fin count) Byte) :
    encode (product (ofMatrix G) (ofMatrix S))
      (ofMatrix ((G * D).submatrix e id)) count = ofMatrix (G * D) := by
  have hrows : (G * D).submatrix e id = G.submatrix e id * D := rfl
  rw [product_ofMatrix hk, encode_ofMatrix, hrows]
  congr 1
  rw [Matrix.mul_assoc, ← Matrix.mul_assoc S, hone, Matrix.one_mul]

theorem take_parts (hkn : k ≤ n) (hsystematic : G.submatrix (Fin.castLE hkn) id = 1)
    (D : Matrix (Fin k) (Fin count) Byte) : (ofMatrix (G * D)).take k = ofMatrix D := by
  have hrows : (G * D).submatrix (Fin.castLE hkn) id = G.submatrix (Fin.castLE hkn) id * D := rfl
  rw [take_ofMatrix hkn, hrows, hsystematic, Matrix.one_mul]

/-- Any `k` parts are enough.  The generator exists for the numbers of parts it
allows and begins with the unit matrix; the rows of any `k` different indices
can be inverted; and the transform makes of those parts all parts, of which
the first `k` hold the payload. -/
theorem repair_from_any_parts (hk : 2 ≤ k) (hkn : k < n) (hn : n ≤ 16) :
    ∃ matrix, generator k n = .ok matrix ∧ matrix.take k = identity k ∧
      ∀ (count : ℕ) (blocks : Rows), blocks.length = k → (∀ block ∈ blocks, block.length = count) →
        ∀ chosen : List ℕ, chosen.length = k → chosen.Nodup → (∀ i ∈ chosen, i < n) →
          ∃ decode, invert (choose matrix chosen) = .ok decode ∧ encode (product matrix decode)
              (choose (encode matrix blocks count) chosen) count =
              encode matrix blocks count ∧
            ∀ payload, payload <+: blocks.flatten →
              ((encode matrix blocks count).take k).flatten.take payload.length = payload := by
  obtain ⟨G, hgenerator, hsystematic, hinvert⟩ := exists_generator hk hkn hn
  refine ⟨ofMatrix G, hgenerator, ?_, ?_⟩
  · rw [take_ofMatrix hkn.le, hsystematic, identity_eq]
  intro count blocks hblocks hcount chosen hlength hnodup hbound
  obtain ⟨D, rfl⟩ := exists_ofMatrix hblocks hcount
  obtain ⟨e, he, hchoose⟩ := exists_choice hlength hnodup hbound
  obtain ⟨S, hdecode, hone⟩ := hinvert e he
  refine ⟨ofMatrix S, by rw [hchoose, hdecode], ?_, ?_⟩
  · rw [encode_ofMatrix, hchoose]
    exact transform_survivors (by omega) hone D
  · intro payload hpayload
    rw [encode_ofMatrix, take_parts hkn.le hsystematic]
    exact (List.prefix_iff_eq_take.mp hpayload).symm

def sampleBlocks : Rows :=
  [[0, 1, 2, 3], [4, 5, 6, 7], [8, 9, 10, 0]].map (List.map Byte.ofNat)

theorem repair_from_three_of_five : ∃ matrix decode, generator 3 5 = .ok matrix ∧
      invert (choose matrix [4, 0, 3]) = .ok decode ∧
      encode (product matrix decode) (choose (encode matrix sampleBlocks 4) [4, 0, 3]) 4 =
        encode matrix sampleBlocks 4 := by
  obtain ⟨matrix, hgenerator, -, hrepair⟩ :=
    repair_from_any_parts (k := 3) (n := 5) (by decide) (by decide) (by decide)
  obtain ⟨decode, hdecode, hexact, -⟩ := hrepair 4 sampleBlocks rfl
    (by decide) [4, 0, 3] rfl (by decide) (by decide)
  exact ⟨matrix, decode, hgenerator, hdecode, hexact⟩

example : (generator 3 5).toOption.map (fun matrix =>
    encode matrix sampleBlocks 4) =
    some ([[0, 1, 2, 3], [4, 5, 6, 7], [8, 9, 10, 0], [12, 13, 14, 4],
      [16, 17, 18, 41]].map (List.map Byte.ofNat)) := by
  decide +kernel

/-! ## Regeneration in stripes -/

/-- A stretch of what is combined is the combination of that stretch. -/
theorem combine_stretch (row : Fin k → Byte) (D : Matrix (Fin k) (Fin size) Byte) {offset : ℕ}
    (hend : offset + count ≤ size) :
    combine (List.ofFn row) ((ofMatrix D).map fun input => (input.drop offset).take count) count =
      ((combine (List.ofFn row) (ofMatrix D) size).drop offset).take count := by
  have hstretch : ∀ v : Fin size → Byte, ((List.ofFn v).drop offset).take count =
        List.ofFn fun j : Fin count => v ⟨offset + j, by omega⟩ := by
    intro v
    apply List.ext_getElem
    · simp
      omega
    · simp
  have hinputs : ((ofMatrix D).map fun input =>
      (input.drop offset).take count) =
      ofMatrix (Matrix.of fun i (j : Fin count) =>
        D i ⟨offset + j, by omega⟩) := by
    rw [map_ofMatrix, ofMatrix]
    congr 1
    funext i
    exact hstretch (D i)
  rw [hinputs, combine_ofMatrix, combine_ofMatrix, hstretch]
  rfl

theorem length_combine (row : Fin k → Byte) (D : Matrix (Fin k) (Fin size) Byte) :
    (combine (List.ofFn row) (ofMatrix D) size).length = size := by
  rw [combine_ofMatrix, List.length_ofFn]

theorem zipWith_stripe {offset : ℕ} (T : Matrix (Fin n) (Fin k) Byte)
    (D : Matrix (Fin k) (Fin size) Byte) (hend : offset + count ≤ size) :
    List.zipWith (fun row output => output ++
        combine row ((ofMatrix D).map fun input =>
          (input.drop offset).take count) count) (ofMatrix T)
      ((encode (ofMatrix T) (ofMatrix D) size).map (List.take offset)) =
      (encode (ofMatrix T) (ofMatrix D) size).map (List.take (offset + count)) := by
  rw [encode, List.map_map, List.zipWith_map_right, List.zipWith_self, List.map_map]
  apply List.map_congr_left
  intro row hrow
  obtain ⟨r, rfl⟩ := (List.mem_ofFn' _ _).mp hrow
  rw [Function.comp_apply, Function.comp_apply, combine_stretch (T r) D hend, List.take_add]

/-- From any offset the loop completes what was written before it. -/
theorem stripes_eq (T : Matrix (Fin n) (Fin k) Byte) (D : Matrix (Fin k) (Fin size) Byte)
    (offset : ℕ) :
    stripes (ofMatrix T) size offset ((ofMatrix D).map (List.drop offset))
        ((encode (ofMatrix T) (ofMatrix D) size).map (List.take offset)) =
      .ok (encode (ofMatrix T) (ofMatrix D) size) := by
  -- the induction is on what is left to read
  induction hleft : size - offset using Nat.strong_induction_on generalizing offset with
  | _ left ih =>
  rw [stripes]
  split
  next hlt =>
    have hstripe : 0 < stripe := by decide
    generalize hcount : min stripe (size - offset) = count
    have hend : offset + count ≤ size := by omega
    have hread : (((ofMatrix D).map (List.drop offset)).all
        fun reader => decide (count ≤ reader.length)) = true := by
      rw [map_ofMatrix, List.all_eq_true]
      intro reader hreader
      obtain ⟨i, rfl⟩ := (List.mem_ofFn' _ _).mp hreader
      simp only [List.length_drop, List.length_ofFn, decide_eq_true_eq]
      omega
    have hreaders : ((ofMatrix D).map (List.drop offset)).map
        (List.drop count) = (ofMatrix D).map (List.drop (offset + count)) := by
      rw [List.map_map]
      congr 1
      funext input
      rw [Function.comp_apply, List.drop_drop]
    have hinputs : ((ofMatrix D).map (List.drop offset)).map (List.take count) =
        (ofMatrix D).map fun input => (input.drop offset).take count :=
      List.map_map
    dsimp only
    rw [if_pos hread, hreaders, hinputs, zipWith_stripe T D hend]
    exact ih (size - (offset + count)) (by omega) (offset + count) rfl
  next hge =>
    rw [encode, map_ofMatrix, List.map_ofFn]
    congr 2
    funext r
    apply List.take_of_length_le
    rw [length_combine]
    omega

/-! ## The checks of the payload -/

theorem readPayload_eq {left : ℕ} {file header bytes : List Byte}
    (hlength : left ≤ file.length) (hheader : header = bytes.take 8) :
    readPayload left file header bytes =
      .ok ((bytes ++ file.take left).take 8, bytes ++ file.take left) := by
  induction hleft : left using Nat.strong_induction_on generalizing left file header bytes with
  | _ rest ih =>
  subst hleft
  rw [readPayload]
  split
  next hpos =>
    have hstripe : 0 < stripe := by decide
    generalize hcount : min stripe left = count
    have hle : count ≤ left := by omega
    have hkeep : (if header.length < 8 then
        header ++ file.take (min count (8 - header.length)) else header) =
        (bytes ++ file.take count).take 8 := by
      rw [hheader, List.length_take, List.take_append, List.take_take]
      split
      next hshort =>
        rw [show min 8 bytes.length = bytes.length by omega, min_comm]
      next hfull =>
        rw [show 8 - bytes.length = 0 by omega, Nat.zero_min, List.take_zero, List.append_nil]
    have hrest : bytes ++ file.take count ++ (file.drop count).take
        (left - count) = bytes ++ file.take left := by
      rw [List.append_assoc, ← List.take_add, Nat.add_sub_cancel' hle]
    rw [if_pos (hle.trans hlength), hkeep,
      ih (left - count) (by omega) (by simp; omega) rfl rfl, hrest]
  next hzero =>
    obtain rfl : left = 0 := by omega
    simp [hheader]

theorem readPayloads_eq {remaining : ℕ} {files : Rows} {bytes : List Byte}
    (hsizes : ∀ file ∈ files, file.length = size) :
    readPayloads size files remaining (bytes.take 8, bytes) = .ok (remaining - files.flatten.length,
        (bytes ++ files.flatten.take remaining).take 8,
        bytes ++ files.flatten.take remaining) := by
  induction files generalizing remaining bytes with
  | nil => simp [readPayloads]
  | cons file files ih =>
    have hfile := hsizes file List.mem_cons_self
    rw [readPayloads, readPayload_eq (by omega) rfl]
    dsimp only [Except.bind]
    rw [ih fun other hother => hsizes other (List.mem_cons_of_mem _ hother)]
    have hleft : remaining - min size remaining - files.flatten.length =
        remaining - (file :: files).flatten.length := by
      rw [List.flatten_cons, List.length_append, hfile]
      omega
    have hbytes : bytes ++ file.take (min size remaining) ++
        files.flatten.take (remaining - min size remaining) =
        bytes ++ (file :: files).flatten.take remaining := by
      have hfirst : file.take (min size remaining) = file.take remaining := by
        rw [Nat.min_comm, ← List.take_take, ← hfile, List.take_length]
      rw [List.flatten_cons, List.take_append, hfile, List.append_assoc,
        hfirst, show remaining - min size remaining = remaining - size by
          omega]
    rw [hleft, hbytes]

/-! ## Regeneration -/

variable {Hash : Type} [DecidableEq Hash]

/-- The manifest of a payload that was cut into blocks. -/
structure Describes (sha256 : List Byte → Hash) (manifest : Manifest Hash)
    (payload : List Byte) (blocks parts : Rows) (size : ℕ) : Prop where
  partHashes : manifest.parts = parts.map fun part => ⟨size, sha256 part⟩
  payloadHash : manifest.payload = ⟨payload.length, sha256 payload⟩
  cut : payload <+: blocks.flatten
  envelope : magic <+: payload

/-- From any `k` of the parts that a manifest describes, all of them are
made. -/
theorem regenerate_eq_parts {sha256 : List Byte → Hash} {manifest : Manifest Hash}
    {payload : List Byte} {matrix blocks : Rows} {chosen : List ℕ} (hk : 2 ≤ manifest.required)
    (hkn : manifest.required < manifest.total) (hn : manifest.total ≤ 16)
    (hmatrix : generator manifest.required manifest.total = .ok matrix)
    (hblocks : blocks.length = manifest.required) (hsize : ∀ block ∈ blocks, block.length = size)
    (hdescribes : Describes sha256 manifest payload blocks (encode matrix blocks size) size)
    (hlength : chosen.length = manifest.required) (hnodup : chosen.Nodup)
    (hbound : ∀ i ∈ chosen, i < manifest.total) :
    regenerate sha256 manifest (chosen.map fun i =>
      (i, (encode matrix blocks size).getD i [])) =
      .ok (encode matrix blocks size) := by
  obtain ⟨G, hgenerator, hsystematic, hinvert⟩ := exists_generator hk hkn hn
  rw [hgenerator, Except.ok.injEq] at hmatrix
  subst hmatrix
  obtain ⟨D, rfl⟩ := exists_ofMatrix hblocks hsize
  obtain ⟨e, he, hchoose⟩ := exists_choice hlength hnodup hbound
  obtain ⟨S, hdecode, hone⟩ := hinvert e he
  rw [← hchoose] at hdecode
  rw [encode_ofMatrix] at hdescribes ⊢
  -- what `regenerate` computes, in its order
  have hcount : (chosen.map fun i =>
      (i, (ofMatrix (G * D)).getD i [])).length = manifest.required := by
    rw [List.length_map, hlength]
  have hrows : (chosen.map fun i => (i, (ofMatrix (G * D)).getD i [])).map
      (fun source => (ofMatrix G).getD source.1 []) =
      choose (ofMatrix G) chosen := List.map_map
  have hpart : (manifest.parts.head?.map Part.size).getD 0 = size := by
    rw [hdescribes.partHashes, List.head?_map, ofMatrix, List.head?_eq_getElem?]
    simp [show 0 < manifest.total by omega]
  have hreaders : (chosen.map fun i =>
      (i, (ofMatrix (G * D)).getD i [])).map Prod.snd =
      (ofMatrix ((G * D).submatrix e id)).map (List.drop 0) := by
    rw [← hchoose, choose, List.map_map, List.map_map]
    rfl
  have houtputs : List.replicate manifest.total ([] : List Byte) =
      (ofMatrix (G * D)).map (List.take 0) := by
    rw [map_ofMatrix]
    exact (List.ofFn_const _ _).symm
  have hfiles := stripes_eq (G * S) ((G * D).submatrix e id) 0
  rw [← product_ofMatrix (by omega), transform_survivors (by omega) hone D,
    ← hreaders, ← houtputs] at hfiles
  have hhashes : ((ofMatrix (G * D)).zip manifest.parts).any (fun entry =>
      decide (sha256 entry.1 ≠ entry.2.sha256)) = false := by
    rw [hdescribes.partHashes, List.zip_eq_zipWith, List.zipWith_map_right,
      List.zipWith_self, List.any_map]
    simp
  have hpayload : readPayloads size (ofMatrix D) payload.length (([] : List Byte).take 8, []) =
      .ok (payload.length - (ofMatrix D).flatten.length,
        ([] ++ (ofMatrix D).flatten.take payload.length).take 8,
        [] ++ (ofMatrix D).flatten.take payload.length) :=
    readPayloads_eq hsize
  have hbytes : (ofMatrix D).flatten.take payload.length = payload :=
    (List.prefix_iff_eq_take.mp hdescribes.cut).symm
  have hheader : payload.take 8 = magic :=
    (List.prefix_iff_eq_take.mp hdescribes.envelope).symm
  have hremaining : payload.length - (ofMatrix D).flatten.length = 0 :=
    Nat.sub_eq_zero_of_le hdescribes.cut.length_le
  rw [hbytes, List.nil_append, hheader, hremaining, List.take_nil] at hpayload
  have hbind : ∀ {α β : Type} (a : α) (f : α → Except Error β),
      (Except.ok a >>= f) = f a := fun _ _ => rfl
  simp only [regenerate, hcount, hgenerator, hbind, hrows, hdecode, hpart,
    hfiles, hhashes, take_parts hkn.le hsystematic, hdescribes.payloadHash,
    hpayload, ne_eq, not_true, if_false, or_false, Bool.false_eq_true]
  rfl

theorem regenerate_two_of_three : ∃ matrix, generator 2 3 = .ok matrix ∧
    let parts := encode matrix [magic.take 4, magic.drop 4] 4
    regenerate id ⟨2, 3, parts.map fun part => ⟨4, part⟩, ⟨8, magic⟩⟩
      ([2, 0].map fun i => (i, parts.getD i [])) = .ok parts := by
  have hkn : 2 < 3 := by decide
  have hn : 3 ≤ 16 := by decide
  obtain ⟨G, hgenerator, -⟩ := exists_generator le_rfl hkn hn
  have hdescribes : Describes id ⟨2, 3, (encode (ofMatrix G) [magic.take 4, magic.drop 4] 4).map
      fun part => ⟨4, part⟩, ⟨8, magic⟩⟩ magic [magic.take 4, magic.drop 4] _ 4 :=
    ⟨rfl, rfl, List.prefix_rfl, List.prefix_rfl⟩
  exact ⟨ofMatrix G, hgenerator, regenerate_eq_parts le_rfl hkn hn hgenerator rfl (by decide)
    hdescribes rfl (by decide) (by simp)⟩

end Repair

end Coding
end Wildbloom
