import Messaround.Aofs.DiskFile

/-!
The disk of blocks is what its calls make of the bytes of the file.

A call that names a block outside the image is included: block `-1` is the place of the
bitmap, a lower number makes the seek fail, and behind the last block the file grows.
-/

namespace Messaround.Aofs.DiskFile

open Messaround.CInt Messaround.File

/-- The block that the file has at place `k`, also behind the image. -/
def blockIn (file : List UInt8) (k : ℕ) : Block :=
  .ofBytes (extract file (SUPER_BLOCK_SIZE + k * BLOCK_SIZE) BLOCK_SIZE)

/-- The file consists of the superblock and the blocks of the disk. -/
structure Backs (file : List UInt8) (d : Disk) : Prop where
  length : file.length = SUPER_BLOCK_SIZE + (BLOCK_NUM + d.beyond.length) * BLOCK_SIZE
  superBlock : SuperBlock.ofBytes (extract file 0 SUPER_BLOCK_SIZE) = d.sb
  block : ∀ i : Fin BLOCK_NUM, blockIn file i = d.blocks i
  beyond : ∀ k b, d.beyond[k]? = some b → blockIn file (BLOCK_NUM + k) = b

/-- The file backs the disk, and the descriptor stands at the block that the model says. -/
structure Follows (fd : Fd UInt8) (d : Disk) (l : Local) : Prop where
  backs : Backs fd.file d
  pos : (fd.pos : ℤ) = SUPER_BLOCK_SIZE + l.pos * BLOCK_SIZE
  nonneg : 0 ≤ l.pos

/-! ### Seeking -/

section seek

variable {fd : Fd UInt8} {d : Disk} {l : Local} {n : ℤ}

/-- A seek to a block, which fails in front of block `-1`. -/
lemma Follows.lseek (h : Follows fd d l) (h1 : -2 ^ 31 ≤ n) (h2 : n < 2 ^ 31) :
    (fd.lseek (BLOCK_OFFSET n)).file = fd.file ∧
      ((fd.lseek (BLOCK_OFFSET n)).pos : ℤ) = SUPER_BLOCK_SIZE + (l.seek n).pos * BLOCK_SIZE ∧
      -1 ≤ (l.seek n).pos := by
  refine ⟨Fd.lseek_file _, ?_⟩
  rw [BLOCK_OFFSET_eq h1 h2, Fd.lseek, Local.seek]
  by_cases hn : n < -1
  · rw [if_pos hn, if_pos (by simp only [SUPER_BLOCK_SIZE, BLOCK_SIZE, Nat.cast_ofNat]; omega)]
    exact ⟨h.pos, by have := h.nonneg; omega⟩
  · have h0 : 0 ≤ (SUPER_BLOCK_SIZE : ℤ) + n * BLOCK_SIZE := by
      simp only [SUPER_BLOCK_SIZE, BLOCK_SIZE, Nat.cast_ofNat]
      omega
    rw [if_neg hn, if_neg (not_lt.mpr h0)]
    exact ⟨Int.toNat_of_nonneg h0, not_lt.mp hn⟩

end seek

/-! ### Reading -/

section read

variable {file : List UInt8} {d : Disk} {p : ℕ} {q : ℤ} {buf : Block}

lemma Backs.bitmap (h : Backs file d) : extract file 12 BITMAP_SIZE = d.sb.bitmap.toList := by
  have hlen := h.length
  have hin : 12 + BITMAP_SIZE ≤ file.length := by
    simp only [SUPER_BLOCK_SIZE, BLOCK_SIZE, BITMAP_SIZE] at hlen ⊢
    omega
  rw [← h.superBlock, SuperBlock.ofBytes, ← Block.toList_field (length_extract hin)]
  refine congrArg (fun f => (Vector.ofFn f).toList) (funext fun i => ?_)
  have hi : 12 + (i : ℕ) < SUPER_BLOCK_SIZE := by
    have := i.isLt
    simp only [SUPER_BLOCK_SIZE, BITMAP_SIZE] at this ⊢
    omega
  rw [getD_extract i.isLt, getD_extract hi, zero_add]

lemma behind_block (k : ℕ) : SUPER_BLOCK_SIZE + k * BLOCK_SIZE + BLOCK_SIZE =
    SUPER_BLOCK_SIZE + (k + 1) * BLOCK_SIZE := by ring

/-- A block of the file, as far as the file goes. -/
lemma Backs.le_length (h : Backs file d) {k : ℕ} (hk : k < BLOCK_NUM + d.beyond.length) :
    SUPER_BLOCK_SIZE + (k + 1) * BLOCK_SIZE ≤ file.length := by
  rw [h.length]
  exact Nat.add_le_add_left (Nat.mul_le_mul_right _ hk) _

lemma Backs.superBlock_le (h : Backs file d) : SUPER_BLOCK_SIZE ≤ file.length := by
  rw [h.length]
  exact Nat.le_add_right _ _

lemma Backs.read_block (h : Backs file d) {k : ℕ} (hk : k < BLOCK_NUM + d.beyond.length) :
    (Fd.mk file (SUPER_BLOCK_SIZE + k * BLOCK_SIZE)).read buf.bytes = (BLOCK_SIZE,
      extract file (SUPER_BLOCK_SIZE + k * BLOCK_SIZE) BLOCK_SIZE,
      ⟨file, SUPER_BLOCK_SIZE + (k + 1) * BLOCK_SIZE⟩) := by
  have hle : SUPER_BLOCK_SIZE + k * BLOCK_SIZE + buf.bytes.length ≤ file.length := by
    rw [buf.length_bytes, behind_block]
    exact h.le_length hk
  rw [Fd.read_of_le hle, buf.length_bytes, ← behind_block]

lemma readAt_beyond (d : Disk) (buf : Block) (k : ℕ) : d.readAt buf (BLOCK_NUM + k : ℕ) =
    match d.beyond[k]? with
    | some b => (b, ((BLOCK_NUM + k : ℕ) : ℤ) + 1)
    | none => (buf, (BLOCK_NUM + k : ℕ)) := by
  have hin : ¬(0 ≤ ((BLOCK_NUM + k : ℕ) : ℤ) ∧ ((BLOCK_NUM + k : ℕ) : ℤ) < BLOCK_NUM) := by omega
  have hone : ¬((BLOCK_NUM + k : ℕ) : ℤ) = -1 := by omega
  have hk : (((BLOCK_NUM + k : ℕ) : ℤ) - BLOCK_NUM).toNat = k := by omega
  rewrite [Disk.readAt, dif_neg hin, if_neg hone, hk]
  cases d.beyond[k]? <;> rfl

/-- A transfer reads the block that the model says and leaves the descriptor behind it. -/
lemma Backs.read (h : Backs file d) (hp : (p : ℤ) = SUPER_BLOCK_SIZE + q * BLOCK_SIZE)
    (hq : -1 ≤ q) (hb : buf.InRange) :
    Block.ofBytes ((Fd.mk file p).read buf.bytes).2.1 = (d.readAt buf q).1 ∧
      (((Fd.mk file p).read buf.bytes).2.2.pos : ℤ) =
        SUPER_BLOCK_SIZE + (d.readAt buf q).2 * BLOCK_SIZE ∧ 0 ≤ (d.readAt buf q).2 := by
  have hlen := h.length
  rcases hq.eq_or_lt with rfl | h0
  · -- the bitmap
    obtain rfl : p = 12 := by
      simp only [SUPER_BLOCK_SIZE, BLOCK_SIZE, Nat.cast_ofNat] at hp
      omega
    have hle : 12 + buf.bytes.length ≤ file.length := by
      rw [buf.length_bytes, hlen]
      simp only [SUPER_BLOCK_SIZE, BLOCK_SIZE]
      omega
    have hread : d.readAt buf (-1) = (.ofBytes d.sb.bitmap.toList, 0) := rfl
    rw [Fd.read_of_le hle, hread, buf.length_bytes]
    exact ⟨congrArg Block.ofBytes h.bitmap, rfl, le_rfl⟩
  · obtain ⟨k, rfl⟩ : ∃ k : ℕ, q = k := ⟨q.toNat, by omega⟩
    obtain rfl : p = SUPER_BLOCK_SIZE + k * BLOCK_SIZE := by exact_mod_cast hp
    rcases lt_or_ge k BLOCK_NUM with hk | hk
    · have hread := d.readAt_fin buf ⟨k, hk⟩
      rw [h.read_block (by omega)]
      dsimp only at hread ⊢
      rw [hread]
      exact ⟨h.block ⟨k, hk⟩, by push_cast; rfl, by omega⟩
    · obtain ⟨j, rfl⟩ := Nat.exists_eq_add_of_le hk
      rw [readAt_beyond]
      cases hj : d.beyond[j]? with
      | some b =>
        obtain ⟨hlt, -⟩ := List.getElem?_eq_some_iff.mp hj
        rw [h.read_block (by omega)]
        exact ⟨h.beyond j b hj, by push_cast; rfl,
          show 0 ≤ ((BLOCK_NUM + j : ℕ) : ℤ) + 1 by omega⟩
      | none =>
        have hend : file.length ≤ SUPER_BLOCK_SIZE + (BLOCK_NUM + j) * BLOCK_SIZE := by
          rw [hlen]
          exact Nat.add_le_add_left (Nat.mul_le_mul_right _
            (Nat.add_le_add_left (List.getElem?_eq_none_iff.mp hj) _)) _
        rw [Fd.read_of_end hend]
        exact ⟨Block.ofBytes_bytes hb, by push_cast; rfl, Int.natCast_nonneg (BLOCK_NUM + j)⟩

end read

/-! ### Writing -/

section write

variable {file : List UInt8} {d : Disk} {p : ℕ} {q : ℤ} {b : Block}

lemma blockIn_patch_self (k : ℕ) :
    blockIn (patch file (SUPER_BLOCK_SIZE + k * BLOCK_SIZE) b.bytes) k = .ofBytes b.bytes := by
  rw [blockIn, ← b.length_bytes, extract_patch_self]

lemma blockIn_patch_of_ne {j k : ℕ} (hjk : j ≠ k)
    (hj : SUPER_BLOCK_SIZE + (j + 1) * BLOCK_SIZE ≤ file.length) :
    blockIn (patch file (SUPER_BLOCK_SIZE + k * BLOCK_SIZE) b.bytes) j = blockIn file j := by
  simp only [SUPER_BLOCK_SIZE, BLOCK_SIZE] at hj
  refine congrArg Block.ofBytes (extract_patch_of_disjoint ?_ ?_)
  · rw [b.length_bytes]
    simp only [SUPER_BLOCK_SIZE, BLOCK_SIZE]
    omega
  · simp only [SUPER_BLOCK_SIZE, BLOCK_SIZE]
    omega

lemma superBlock_patch {k : ℕ} (hf : SUPER_BLOCK_SIZE ≤ file.length) :
    extract (patch file (SUPER_BLOCK_SIZE + k * BLOCK_SIZE) b.bytes) 0 SUPER_BLOCK_SIZE =
      extract file 0 SUPER_BLOCK_SIZE :=
  extract_patch_of_disjoint (Or.inl (by omega)) (by omega)

lemma Backs.write_image (h : Backs file d) (hb : b.InRange) (i : Fin BLOCK_NUM) :
    Backs (patch file (SUPER_BLOCK_SIZE + i * BLOCK_SIZE) b.bytes) (d.put i b) := by
  have hi := h.le_length (Nat.lt_add_right d.beyond.length i.isLt)
  constructor
  case length =>
    rw [length_patch, b.length_bytes, behind_block, max_eq_left hi]
    exact h.length
  case superBlock => rw [superBlock_patch h.superBlock_le, h.superBlock, Disk.put_sb]
  case block =>
    intro j
    by_cases hj : j = i
    · rw [hj, blockIn_patch_self, Block.ofBytes_bytes hb, Disk.put_blocks_self]
    · rw [blockIn_patch_of_ne (fun hij => hj (Fin.ext hij))
        (h.le_length (Nat.lt_add_right _ j.isLt)), h.block, Disk.put_blocks_of_ne _ _ hj]
  case beyond =>
    intro k c hc
    have hlt := (List.getElem?_eq_some_iff.mp hc).1
    have hlt' : k < d.beyond.length := hlt
    rw [blockIn_patch_of_ne (by have := i.isLt; omega) (h.le_length (by omega))]
    exact h.beyond k c hc

/-! ### Behind the image -/

/-- A gap of zeros reads as blank blocks. -/
lemma ofBytes_replicate (n : ℕ) : Block.ofBytes (List.replicate n 0) = .ofBytes [] := by
  have hget : ∀ i, (List.replicate n (0 : UInt8)).getD i 0 = ([] : List UInt8).getD i 0 := by
    intro i
    rw [List.getD_eq_getElem?_getD, List.getElem?_replicate]
    split <;> rfl
  simp only [Block.ofBytes, leAt, hget]

/-- The blocks behind the image are written like the bytes of a file. -/
lemma writeAt_beyond (d : Disk) (b : Block) (k : ℕ) : ∃ e : List Block,
    d.writeAt b (BLOCK_NUM + k : ℕ) = { d with beyond := e } ∧
      e.length = max d.beyond.length (k + 1) ∧
      ∀ j, e[j]? = if j < k then (if j < d.beyond.length then d.beyond[j]? else some (.ofBytes []))
        else if j = k then some b else d.beyond[j]? := by
  have hin : ¬(0 ≤ ((BLOCK_NUM + k : ℕ) : ℤ) ∧ ((BLOCK_NUM + k : ℕ) : ℤ) < BLOCK_NUM) := by omega
  have hone : ¬((BLOCK_NUM + k : ℕ) : ℤ) = -1 := by omega
  have hk : (((BLOCK_NUM + k : ℕ) : ℤ) - BLOCK_NUM).toNat = k := by omega
  let _ : Zero Block := ⟨.ofBytes []⟩
  refine ⟨patch d.beyond k [b], ?_, length_patch, fun j => ?_⟩
  · rw [Disk.writeAt, dif_neg hin, if_neg hone, hk, patch, List.append_assoc _ [b]]
    rfl
  · rw [getElem?_patch]
    by_cases hj : j < k
    · rw [if_pos hj, if_pos hj]
      rfl
    · rw [if_neg hj, if_neg hj]
      by_cases hjk : j = k
      · subst hjk
        rw [if_pos rfl, Nat.sub_self, if_pos (by rw [List.length_singleton]; omega)]
        rfl
      · rw [if_neg hjk, if_neg (by rw [List.length_singleton]; omega)]

lemma Backs.write_beyond (h : Backs file d) (hb : b.InRange) (k : ℕ) :
    Backs (patch file (SUPER_BLOCK_SIZE + (BLOCK_NUM + k) * BLOCK_SIZE) b.bytes)
      (d.writeAt b (BLOCK_NUM + k : ℕ)) := by
  obtain ⟨e, he, helen, hget⟩ := writeAt_beyond d b k
  have hlen := h.length
  rw [he]
  constructor
  case length =>
    rw [length_patch, b.length_bytes, behind_block, hlen, helen]
    simp only [SUPER_BLOCK_SIZE, BLOCK_SIZE, BLOCK_NUM]
    omega
  case superBlock => rw [superBlock_patch h.superBlock_le, h.superBlock]
  case block =>
    intro j
    rw [blockIn_patch_of_ne (by have := j.isLt; omega)
      (h.le_length (Nat.lt_add_right _ j.isLt)), h.block]
  case beyond =>
    intro j c hc
    rw [hget] at hc
    -- a block that was there, and is not the one written
    have hold : j ≠ k → d.beyond[j]? = some c → blockIn (patch file
        (SUPER_BLOCK_SIZE + (BLOCK_NUM + k) * BLOCK_SIZE) b.bytes) (BLOCK_NUM + j) = c := by
      intro hjk hj
      have hlt := (List.getElem?_eq_some_iff.mp hj).1
      rw [blockIn_patch_of_ne (by omega) (h.le_length (by omega)), h.beyond j c hj]
    rcases lt_trichotomy j k with hjk | rfl | hjk
    · rw [if_pos hjk] at hc
      split at hc
      · exact hold hjk.ne hc
      · -- the gap
        rename_i hj
        obtain rfl := Option.some.inj hc
        rw [blockIn, extract_patch_gap, ofBytes_replicate]
        · rw [hlen]
          exact Nat.add_le_add_left (Nat.mul_le_mul_right _ (by omega)) _
        · rw [behind_block]
          exact Nat.add_le_add_left (Nat.mul_le_mul_right _ (by omega)) _
    · rw [if_neg (lt_irrefl j), if_pos rfl] at hc
      rw [blockIn_patch_self, Block.ofBytes_bytes hb, Option.some.inj hc]
    · rw [if_neg hjk.not_gt, if_neg hjk.ne'] at hc
      exact hold hjk.ne' hc

/-! ### In front of the blocks -/

lemma Backs.write_front (h : Backs file d) {bs : List UInt8} {sb : SuperBlock}
    (hp : p + bs.length ≤ SUPER_BLOCK_SIZE)
    (hsb : SuperBlock.ofBytes (extract (patch file p bs) 0 SUPER_BLOCK_SIZE) = sb) :
    Backs (patch file p bs) { d with sb := sb } := by
  have hblock : ∀ j, j < BLOCK_NUM + d.beyond.length →
      blockIn (patch file p bs) j = blockIn file j := by
    intro j hj
    refine congrArg Block.ofBytes (extract_patch_of_disjoint (Or.inr ?_) ?_)
    · exact hp.trans (Nat.le_add_right _ _)
    · rw [behind_block]
      exact h.le_length hj
  constructor
  case length =>
    rw [length_patch, max_eq_left (hp.trans h.superBlock_le)]
    exact h.length
  case superBlock => exact hsb
  case block =>
    intro j
    rw [hblock j (Nat.lt_add_right _ j.isLt), h.block]
  case beyond =>
    intro k c hc
    rw [hblock _ (Nat.add_lt_add_left (List.getElem?_eq_some_iff.mp hc).1 _), h.beyond k c hc]

lemma Backs.write_superBlock (h : Backs file d) (sb : SuperBlock) :
    Backs (patch file 0 sb.bytes) { d with sb := sb } := by
  refine h.write_front ?_ ?_
  · rw [sb.length_bytes, zero_add]
  · rw [← sb.length_bytes, extract_patch_self, sb.ofBytes_bytes]

lemma leAt_congr {m m' : List UInt8} {off n : ℕ}
    (h : ∀ k < n, m.getD (off + k) 0 = m'.getD (off + k) 0) : leAt m off n = leAt m' off n := by
  refine congrArg List.sum (List.map_congr_left fun k hk => ?_)
  rw [h k (List.mem_range.mp hk)]

/-- Behind the three numbers of the superblock stands the bitmap. -/
lemma Backs.write_bitmap (h : Backs file d) : Backs (patch file 12 b.bytes) (d.writeAt b (-1)) := by
  have hwrite : d.writeAt b (-1) =
      { d with sb := { d.sb with bitmap := .ofFn fun i => b.bytes.getD i 0 } } := rfl
  have hsize : 12 + b.bytes.length = SUPER_BLOCK_SIZE := by rw [b.length_bytes]; rfl
  have hle := h.superBlock_le
  have hget : ∀ i < SUPER_BLOCK_SIZE,
      (extract (patch file 12 b.bytes) 0 SUPER_BLOCK_SIZE).getD i 0 =
        if i < 12 then (extract file 0 SUPER_BLOCK_SIZE).getD i 0 else b.bytes.getD (i - 12) 0 := by
    intro i hi
    rw [getD_extract hi, getD_extract hi, zero_add, List.getD_eq_getElem?_getD, getElem?_patch]
    by_cases h12 : i < 12
    · rw [if_pos h12, if_pos h12, if_pos (by omega), List.getD_eq_getElem?_getD]
    · rw [if_neg h12, if_neg h12, if_pos (by omega), List.getD_eq_getElem?_getD]
  have hword : ∀ off, off + 4 ≤ 12 →
      leAt (extract (patch file 12 b.bytes) 0 SUPER_BLOCK_SIZE) off 4 =
        leAt (extract file 0 SUPER_BLOCK_SIZE) off 4 := by
    intro off hoff
    refine leAt_congr fun k hk => ?_
    rw [hget _ (by simp only [SUPER_BLOCK_SIZE]; omega), if_pos (by omega)]
  rw [hwrite]
  refine h.write_front hsize.le ?_
  rw [← h.superBlock]
  simp only [SuperBlock.ofBytes, SuperBlock.mk.injEq]
  refine ⟨?_, ?_, ?_, congrArg Vector.ofFn (funext fun i => ?_)⟩
  · rw [hword 0 (by omega)]
  · rw [hword 4 (by omega)]
  · rw [hword 8 (by omega)]
  · have hi : (i : ℕ) < b.bytes.length := by rw [b.length_bytes]; exact i.isLt
    rw [hget _ (by omega), if_neg (by omega), Nat.add_sub_cancel_left]

lemma Backs.write (h : Backs file d) (hp : (p : ℤ) = SUPER_BLOCK_SIZE + q * BLOCK_SIZE)
    (hq : -1 ≤ q) (hb : b.InRange) : Backs (patch file p b.bytes) (d.writeAt b q) := by
  rcases hq.eq_or_lt with rfl | h0
  · obtain rfl : p = 12 := by
      simp only [SUPER_BLOCK_SIZE, BLOCK_SIZE, Nat.cast_ofNat] at hp
      omega
    exact h.write_bitmap
  · obtain ⟨k, rfl⟩ : ∃ k : ℕ, q = k := ⟨q.toNat, by omega⟩
    obtain rfl : p = SUPER_BLOCK_SIZE + k * BLOCK_SIZE := by exact_mod_cast hp
    rcases lt_or_ge k BLOCK_NUM with hk | hk
    · have hput := d.writeAt_fin b ⟨k, hk⟩
      dsimp only at hput
      rw [hput]
      exact h.write_image hb ⟨k, hk⟩
    · obtain ⟨j, rfl⟩ := Nat.exists_eq_add_of_le hk
      exact h.write_beyond hb j

end write

/-! ### Calls -/

section calls

variable {fd : Fd UInt8} {d : Disk} {l : Local} {n : ℤ}

/-- `read_super_block` reads the superblock, over whatever its buffer holds. -/
lemma Follows.readSuperBlock (h : Follows fd d l) (sb : SuperBlock) :
    (DiskFile.readSuperBlock fd sb).2.1 = d.sb ∧
      Follows (DiskFile.readSuperBlock fd sb).2.2 d { l with pos := 0 } := by
  have hle : 0 + sb.bytes.length ≤ fd.file.length := by
    rw [sb.length_bytes, zero_add]
    exact h.backs.superBlock_le
  have hread : DiskFile.readSuperBlock fd sb =
      (SUPER_BLOCK_SIZE, .ofBytes (extract fd.file 0 SUPER_BLOCK_SIZE),
        ⟨fd.file, 0 + SUPER_BLOCK_SIZE⟩) := by
    have hseek : fd.lseek SUPER_BLOCK_OFFSET = ⟨fd.file, 0⟩ := Fd.lseek_natCast 0
    rw [DiskFile.readSuperBlock, hseek, Fd.read_of_le hle, sb.length_bytes]
  rw [hread]
  exact ⟨h.backs.superBlock, h.backs, rfl, le_rfl⟩

lemma Follows.writeSuperBlock (h : Follows fd d l) (sb : SuperBlock) :
    Follows (DiskFile.writeSuperBlock fd sb).2 { d with sb := sb } { l with pos := 0 } := by
  have hwrite : DiskFile.writeSuperBlock fd sb =
      (sb.bytes.length, ⟨patch fd.file 0 sb.bytes, 0 + sb.bytes.length⟩) := Fd.write_seek
  rw [hwrite, sb.length_bytes]
  exact ⟨h.backs.write_superBlock sb, rfl, le_rfl⟩

lemma Follows.readBlock (h : Follows fd d l) (h1 : -2 ^ 31 ≤ n) (h2 : n < 2 ^ 31) {buf : Block}
    (hb : buf.InRange) :
    (DiskFile.readBlock fd n buf).2.1 = (d.readAt buf (l.seek n).pos).1 ∧
      Follows (DiskFile.readBlock fd n buf).2.2 d
        { l with pos := (d.readAt buf (l.seek n).pos).2 } := by
  obtain ⟨hfile, hpos, hq⟩ := h.lseek h1 h2
  have hbacks : Backs (fd.lseek (BLOCK_OFFSET n)).file d := by rw [hfile]; exact h.backs
  obtain ⟨hans, hpos', hq'⟩ := hbacks.read hpos hq hb
  exact ⟨hans, ⟨hbacks, hpos', hq'⟩⟩

lemma Follows.writeBlock (h : Follows fd d l) (h1 : -2 ^ 31 ≤ n) (h2 : n < 2 ^ 31) {b : Block}
    (hb : b.InRange) :
    Follows (DiskFile.writeBlock fd n b).2 (d.writeAt b (l.seek n).pos)
      { l with pos := (l.seek n).pos + 1 } := by
  obtain ⟨hfile, hpos, hq⟩ := h.lseek h1 h2
  have hbacks : Backs (fd.lseek (BLOCK_OFFSET n)).file d := by rw [hfile]; exact h.backs
  refine ⟨hbacks.write hpos hq hb, ?_, by dsimp only; omega⟩
  rw [DiskFile.writeBlock, Fd.write, b.length_bytes, Nat.cast_add, hpos]
  ring

end calls

/-! ### Runs -/

/-- What belongs to one handler, with the position of its descriptor in bytes. -/
structure FdLocal where
  pos : ℕ
  clock : ℕ → UInt64
  junk : ℕ → Block

/-- `exec` over the bytes of the file. The buffer of `read_super_block` holds `sb` before. -/
def execFile (sb : SuperBlock) : (c : Call) → List UInt8 → FdLocal → c.Ans × List UInt8 × FdLocal
  | .readSuperBlock, file, l =>
    let r := readSuperBlock ⟨file, l.pos⟩ sb
    (r.2.1, r.2.2.file, { l with pos := r.2.2.pos })
  | .writeSuperBlock sb, file, l =>
    let r := writeSuperBlock ⟨file, l.pos⟩ sb
    ((), r.2.file, { l with pos := r.2.pos })
  | .readBlock n buf, file, l =>
    let r := readBlock ⟨file, l.pos⟩ n buf
    (r.2.1, r.2.2.file, { l with pos := r.2.2.pos })
  | .writeBlock n b, file, l =>
    let r := writeBlock ⟨file, l.pos⟩ n b
    ((), r.2.file, { l with pos := r.2.pos })
  | .time, file, l => (l.clock 0, file, { l with clock := fun k => l.clock (k + 1) })
  | .newBlock, file, l => (l.junk 0, file, { l with junk := fun k => l.junk (k + 1) })

/-- The block number is an `int`, and the fields of the block hold values of their types. -/
def Fits : Call → Disk → Prop
  | .readBlock n b, _ => -2 ^ 31 ≤ n ∧ n < 2 ^ 31 ∧ b.InRange
  | .writeBlock n b, _ => -2 ^ 31 ≤ n ∧ n < 2 ^ 31 ∧ b.InRange
  | _, _ => True

/-- The handler over the bytes stands where the handler over the blocks does. -/
structure Tracks (d : Disk) (l : Local) (file : List UInt8) (m : FdLocal) : Prop where
  follows : Follows ⟨file, m.pos⟩ d l
  clock : m.clock = l.clock
  junk : m.junk = l.junk

/-- **One call** over the bytes is answered as over the blocks. -/
lemma Tracks.step (sb : SuperBlock) {c : Call} {d : Disk} {l : Local} {file : List UInt8}
    {m : FdLocal} (hc : Fits c d) (h : Tracks d l file m) :
    (execFile sb c file m).1 = (exec c d l).1 ∧
      Tracks (exec c d l).2.1 (exec c d l).2.2 (execFile sb c file m).2.1
        (execFile sb c file m).2.2 := by
  obtain ⟨hf, hclock, hjunk⟩ := h
  cases c with
  | readSuperBlock =>
    obtain ⟨hans, hf'⟩ := hf.readSuperBlock sb
    exact ⟨hans, hf', hclock, hjunk⟩
  | writeSuperBlock sb' => exact ⟨rfl, hf.writeSuperBlock sb', hclock, hjunk⟩
  | readBlock n buf =>
    obtain ⟨hans, hf'⟩ := hf.readBlock hc.1 hc.2.1 hc.2.2
    exact ⟨hans, hf', hclock, hjunk⟩
  | writeBlock n b => exact ⟨rfl, hf.writeBlock hc.1 hc.2.1 hc.2.2, hclock, hjunk⟩
  | time =>
    refine ⟨congrFun hclock 0, ⟨hf.backs, hf.pos, hf.nonneg⟩, ?_, hjunk⟩
    exact congrArg (fun clock k => clock (k + 1)) hclock
  | newBlock =>
    refine ⟨congrFun hjunk 0, ⟨hf.backs, hf.pos, hf.nonneg⟩, hclock, ?_⟩
    exact congrArg (fun junk k => junk (k + 1)) hjunk

/-- **The disk of blocks is what the calls make of the bytes**: a program whose calls fit their
C types does the same on both. -/
theorem Tracks.run (sb : SuperBlock) {α : Type} {p : Code α} {d : Disk} {l : Local}
    {file : List UInt8} {m : FdLocal} (h : Tracks d l file m)
    (hp : ∀ x ∈ p.calls exec d l, Fits x.1 x.2) :
    Option.Rel (fun r r' => r'.1 = r.1 ∧ Tracks r.2.1 r.2.2 r'.2.1 r'.2.2)
      (p.run exec d l) (p.run (execFile sb) file m) :=
  Prog.run_simulates (fun _ _ _ _ _ hc h => h.step sb hc) hp h

end Messaround.Aofs.DiskFile
