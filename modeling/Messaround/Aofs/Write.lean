import Messaround.Aofs.Effect

/-!
Writing a file.

The induction for the loop is on the bytes to write plus the offset, which every iteration
makes smaller. Going down the chain, the block in memory is the block on disk; from the first
block that takes bytes on the offset is 0 and the block in memory is stored in the same
iteration, so a block that was just allocated gets its name on disk.
-/

namespace Messaround.Aofs

open Messaround.CInt Messaround.Segment Disk

/-- The block `b'` is `b` with new time stamps. -/
structure Touched (b b' : Block) : Prop where
  filename : b'.dbm.filename = b.dbm.filename
  next : b'.dbm.next = b.dbm.next
  head : b'.dbm.head = b.dbm.head
  size : b'.dbm.st_size = b.dbm.st_size
  data : b'.data = b.data

/-- The blocks have the same name, head flag and size. -/
structure SameFile (b b' : Block) : Prop where
  filename : b'.dbm.filename = b.dbm.filename
  head : b'.dbm.head = b.dbm.head
  size : b'.dbm.st_size = b.dbm.st_size

lemma SameFile.refl (b : Block) : SameFile b b := ⟨rfl, rfl, rfl⟩

/-! ### One block -/

@[simp] lemma fill_dbm (block : Block) (buf : ℕ → UInt8) (o n : ℤ) :
    (block.fill buf o n).dbm = block.dbm := by rw [Block.fill]

lemma fill_byte (block : Block) (buf : ℕ → UInt8) {o m : ℕ} (h : o + m ≤ BLOCK_DATA) (x : ℕ) :
    (block.fill buf o m).byte x = if o ≤ x ∧ x < o + m then buf (x - o) else block.byte x := by
  unfold Block.byte Block.fill
  by_cases hx : x < BLOCK_DATA
  · have hc : ((o : ℤ) ≤ (x : ℕ) ∧ ((x : ℕ) : ℤ) < o + m) ↔ (o ≤ x ∧ x < o + m) := by omega
    have hk : ((x : ℤ) - o).toNat = x - o := by omega
    simp only [Vector.getElem?_ofFn, hx, dif_pos, Option.getD_some, hc, hk]
    simp [hx]
  · have hc : ¬ (o ≤ x ∧ x < o + m) := by omega
    simp [hx, hc]

/-- A call of `write_to_block`, with `buf` moved on by `src` bytes. -/
structure BlockWrite where
  src : ℤ
  bytesToWrite : ℤ
  offset : ℤ

/-- The `memcpy` of the call: where in the data of the block it starts, and its length. -/
def BlockWrite.memcpy (w : BlockWrite) : Option (ℤ × ℤ) :=
  let offset := toLong w.offset
  if BLOCK_DATA < toULong offset then none
  else
    let offset := if offset < 0 then 0 else offset
    let bytesToWrite :=
      if BLOCK_DATA < toULong (w.bytesToWrite + offset) then toInt (BLOCK_DATA - offset)
      else w.bytesToWrite
    some (offset, bytesToWrite)

lemma writeToBlock_memcpy (buf : ℕ → UInt8) (block : Block) (w : BlockWrite) :
    writeToBlock buf block w.bytesToWrite w.offset = match w.memcpy with
      | none => (BLOCK_DATA, block)
      | some (offset, n) => (n, block.fill buf offset n) := by
  unfold writeToBlock BlockWrite.memcpy
  dsimp only
  split <;> rfl

lemma BlockWrite.memcpy_eq (src : ℤ) {n o : ℕ} (hn : n < 2147483648) (ho : o ≤ BLOCK_DATA) :
    (BlockWrite.mk src n o).memcpy = some ((o : ℤ), ((min n (BLOCK_DATA - o) : ℕ) : ℤ)) := by
  simp only [BLOCK_DATA] at ho ⊢
  have h1 : toLong (o : ℤ) = o := toLong_natCast (by omega)
  have h2 : toULong (o : ℤ) = o := toULong_natCast (by omega)
  have h3 : toULong ((n : ℤ) + o) = n + o := toULong_of_range (by omega) (by omega)
  have h4 : toInt (((3768 : ℕ) : ℤ) - o) = ((3768 : ℕ) : ℤ) - o :=
    toInt_of_range (by omega) (by omega)
  have h5 : ¬ ((3768 : ℕ) : ℤ) < o := by omega
  have h6 : ¬ (o : ℤ) < 0 := by omega
  simp only [memcpy, h1, h2, if_neg h5, if_neg h6, h3, h4]
  split
  · rename_i h
    have : (min n (3768 - o) : ℕ) = 3768 - o := by simp only [BLOCK_DATA] at h; omega
    rw [this, Nat.cast_sub ho]
  · rename_i h
    have : (min n (3768 - o) : ℕ) = n := by simp only [BLOCK_DATA] at h; omega
    rw [this]

lemma writeToBlock_eq (buf : ℕ → UInt8) (block : Block) {n o : ℕ} (hn : n < 2147483648)
    (ho : o ≤ BLOCK_DATA) : writeToBlock buf block n o =
      (((min n (BLOCK_DATA - o) : ℕ) : ℤ), block.fill buf o (min n (BLOCK_DATA - o) : ℕ)) := by
  rw [writeToBlock_memcpy buf block ⟨0, n, o⟩, BlockWrite.memcpy_eq 0 hn ho]

/-! ### Linking and storing -/

section link

variable {d : Disk} {p : CStr} {left : ℤ} {block nextBlock : Block}

/-- The bytes are written: what is read next does not matter. -/
lemma safe_linkNext_last {Q : Block × Block → Disk → Prop} (hleft : left = 0)
    (hQ : ∀ nb, Q (block, nb) d) : Safe (linkNext p left block nextBlock) d Q := by
  unfold linkNext
  rw [if_neg (by omega)]
  exact safe_bind (safe_readBlock_any fun nb => safe_pure (hQ nb))

/-- The next block of the chain is read. -/
lemma safe_linkNext_next {Q : Block × Block → Disk → Prop} {j : Fin BLOCK_NUM}
    (hnext : block.dbm.next = addr j) (hQ : Q (block, d.blocks j) d) :
    Safe (linkNext p left block nextBlock) d Q := by
  unfold linkNext
  rw [if_neg (by rw [hnext]; exact fun h => addr_ne j h.2), hnext]
  exact safe_bind (safe_readBlock (safe_pure hQ))

/-- A new block is linked in behind the last block of the chain. -/
lemma safe_linkNext_new {Q : Block × Block → Disk → Prop}
    (ht : d.sb.totalblocks.toNat ≤ BLOCK_NUM) (hfree : 0 < d.freeCount)
    (hleft : 0 < left) (hnext : block.dbm.next = -1)
    (hQ : ∀ f b0, d.FirstFree f → Cleared b0 →
      Q ({ block with dbm.next := addr f }, b0.strcpyFilename p) ((d.mark f).put f b0)) :
    Safe (linkNext p left block nextBlock) d Q := by
  unfold linkNext
  rw [if_pos ⟨hleft, hnext⟩]
  refine safe_bind (safe_allocateBlock ht (fun f b0 hf hb0 => ?_) fun h0 => ?_)
  · refine safe_bind (safe_readBlock (safe_pure ?_))
    rw [put_blocks_self]
    exact hQ f b0 hf hb0
  · omega

lemma safe_storeBlock {i : Fin BLOCK_NUM} {Q : Unit → Disk → Prop}
    (hQ : ∀ b, Touched block b → Q () (d.put i b)) : Safe (storeBlock (addr i) block) d Q := by
  refine safe_bind (safe_time fun t1 => safe_bind (safe_time fun t2 => ?_))
  exact safe_bind (safe_time fun t3 => safe_writeBlock (hQ _ ⟨rfl, rfl, rfl, rfl, rfl⟩))

end link

/-! ### The loop -/

/-- What the loop does to the chain `i :: c`, whose first block it holds in memory as
`block`, when it writes `n` bytes of `buf` from the offset `o` on: the blocks `new` are
appended, as many as the bytes need, and the data changes in the range written. -/
structure Written (d d' : Disk) (i : Fin BLOCK_NUM) (block : Block) (c new : List (Fin BLOCK_NUM))
    (p : CStr) (buf : ℕ → UInt8) (o n : ℕ) : Prop where
  total : d'.sb.totalblocks = d.sb.totalblocks
  frame : ∀ j, j ≠ i → j ∉ c → j ∉ new → d'.blocks j = d.blocks j
  alloc : ∀ j, d'.Allocated j ↔ j ∈ new ∨ d.Allocated j
  fresh : ∀ j ∈ new, ¬ d.Allocated j
  chain : d'.Chain (addr i) (i :: (c ++ new))
  first : SameFile block (d'.blocks i)
  kept : ∀ j ∈ c, SameFile (d.blocks j) (d'.blocks j)
  added : ∀ j ∈ new, (d'.blocks j).dbm.head = 0 ∧ (d'.blocks j).name = p
  bytes : ∀ x, d'.byteAt (i :: (c ++ new)) x =
    if o ≤ x ∧ x < o + n then buf (x - o)
    else if x < BLOCK_DATA then block.byte x else d.byteAt c (x - BLOCK_DATA)
  room : o + n ≤ (c.length + 1 + new.length) * BLOCK_DATA
  tight : new = [] ∨ (c.length + new.length) * BLOCK_DATA < o + n


section step

variable {d d' : Disk} {i j : Fin BLOCK_NUM} {block b : Block} {c new : List (Fin BLOCK_NUM)}
  {p : CStr} {buf : ℕ → UInt8} {o n : ℕ}

/-- Going down the chain: the offset is behind this block. -/
lemma Written.down (hi : i ∉ j :: c) (ha : ∀ k ∈ i :: j :: c, d.Allocated k)
    (hb : d.blocks i = block) (hn : block.dbm.next = addr j) (ho : BLOCK_DATA < o)
    (h : Written d d' j (d.blocks j) c new p buf (o - BLOCK_DATA) n) :
    Written d d' i block (j :: c) new p buf o n := by
  have hin : i ∉ new := fun hmem => h.fresh i hmem (ha i (by simp))
  have hij : i ≠ j := fun hij => hi (by simp [hij])
  have hic : i ∉ c := fun hic => hi (by simp [hic])
  have hdi : d'.blocks i = block := by rw [h.frame i hij hic hin, hb]
  refine ⟨h.total, ?_, h.alloc, h.fresh, ?_, ?_, ?_, h.added, ?_, ?_, ?_⟩
  · intro k h1 h2 h3
    rw [List.mem_cons, not_or] at h2
    exact h.frame k h2.1 h2.2 h3
  · refine seg_cons.mpr ⟨rfl, ?_⟩
    rw [Disk.next, hdi, hn]
    exact h.chain
  · rw [hdi]; exact .refl block
  · intro k hk
    rcases List.mem_cons.mp hk with rfl | hk'
    · exact h.first
    · exact h.kept k hk'
  · intro x
    rw [byteAt_cons, hdi, List.cons_append, h.bytes, byteAt_cons]
    simp only [BLOCK_DATA] at ho ⊢
    split
    · rename_i hx
      rw [if_neg (by omega)]
    · rename_i hx
      have hc : (o - 3768 ≤ x - 3768 ∧ x - 3768 < o - 3768 + n) ↔ (o ≤ x ∧ x < o + n) := by omega
      have he : x - 3768 - (o - 3768) = x - o := by omega
      simp only [hc, he]
  · have hr := h.room
    simp only [BLOCK_DATA, List.length_cons] at hr ho ⊢
    omega
  · rcases h.tight with ht | ht
    · exact Or.inl ht
    · refine Or.inr ?_
      simp only [BLOCK_DATA, List.length_cons] at ht ho ⊢
      grind

lemma range_split {B m x : ℕ} {y z : UInt8} (hm : o + m = B) (hn : m < n) :
    (if x < B then if o ≤ x ∧ x < o + m then buf (x - o) else y
      else if 0 ≤ x - B ∧ x - B < 0 + (n - m) then buf (x - B - 0 + m) else z) =
      if o ≤ x ∧ x < o + n then buf (x - o) else if x < B then y else z := by
  split
  · rename_i hx
    have hc : x < o + m ↔ x < o + n := by omega
    simp only [hc]
  · rename_i hx
    have hc : (0 ≤ x - B ∧ x - B < 0 + (n - m)) ↔ (o ≤ x ∧ x < o + n) := by omega
    have he : x - B - 0 + m = x - o := by omega
    simp only [hc, he]

/-- The block is `block` with its bytes from `o` on replaced, and with any links and times. -/
structure Filled (block b : Block) (buf : ℕ → UInt8) (o m : ℕ) : Prop where
  same : SameFile block b
  data : b.data = (block.fill buf o m).data

lemma Touched.filled {m : ℕ} (ht : Touched (block.fill buf o m) b) : Filled block b buf o m := by
  have h1 := ht.filename
  have h2 := ht.head
  have h3 := ht.size
  rw [fill_dbm] at h1 h2 h3
  exact ⟨⟨h1, h2, h3⟩, ht.data⟩

lemma Touched.filled_link {m : ℕ} {next : ℤ}
    (ht : Touched { block.fill buf o m with dbm.next := next } b) : Filled block b buf o m := by
  have h1 := ht.filename
  have h2 := ht.head
  have h3 := ht.size
  simp only [fill_dbm] at h1 h2 h3
  exact ⟨⟨h1, h2, h3⟩, ht.data⟩

lemma Filled.byte {m : ℕ} (hb : Filled block b buf o m) (h : o + m ≤ BLOCK_DATA) (x : ℕ) :
    b.byte x = if o ≤ x ∧ x < o + m then buf (x - o) else block.byte x := by
  rw [← fill_byte block buf h, Block.byte, hb.data, Block.byte]

/-- The last block that takes bytes. -/
lemma Written.last (hi : i ∉ c) (hc : d.Chain block.dbm.next c) (hn : o + n ≤ BLOCK_DATA)
    (ht : Touched (block.fill buf o n) b) : Written d (d.put i b) i block c [] p buf o n := by
  have hput : ∀ k ∈ c, (d.put i b).blocks k = d.blocks k := fun k hk =>
    put_blocks_of_ne _ _ fun h => hi (h ▸ hk)
  refine ⟨rfl, ?_, by simp, by simp, ?_, ?_, ?_, by simp, ?_, ?_, Or.inl rfl⟩
  · intro k hk _ _
    exact put_blocks_of_ne _ _ hk
  · rw [List.append_nil]
    have hch : (d.put i b).Chain b.dbm.next c := by
      rw [ht.next, fill_dbm]
      exact (chain_congr fun k hk => by rw [Disk.next, Disk.next, hput k hk]).mpr hc
    refine seg_cons.mpr ⟨rfl, ?_⟩
    rw [Disk.next, put_blocks_self]
    exact hch
  · rw [put_blocks_self]; exact ht.filled.same
  · intro k hk
    rw [hput k hk]; exact .refl _
  · intro x
    have hb : ∀ y, (d.put i b).byteAt c y = d.byteAt c y :=
      byteAt_congr fun k hk => by rw [hput k hk]
    rw [List.append_nil, byteAt_cons, put_blocks_self, ht.filled.byte hn, hb]
    split
    · rfl
    · rw [if_neg (by omega)]
  · have : BLOCK_DATA ≤ (c.length + 1 + 0) * BLOCK_DATA := Nat.le_mul_of_pos_left _ (by omega)
    exact hn.trans this

/-- A block that is filled to its end, with a block behind it in the chain. -/
lemma Written.next {m : ℕ} (hi : i ∉ j :: c) (ha : d.Allocated i) (hnext : block.dbm.next = addr j)
    (hm : o + m = BLOCK_DATA) (hn : m < n) (ht : Touched (block.fill buf o m) b)
    (h : Written (d.put i b) d' j (d.blocks j) c new p (fun k => buf (k + m)) 0 (n - m)) :
    Written d d' i block (j :: c) new p buf o n := by
  have hin : i ∉ new := fun hmem => h.fresh i hmem ha
  have hij : i ≠ j := fun hij => hi (by simp [hij])
  have hic : i ∉ c := fun hic => hi (by simp [hic])
  have hput : ∀ k ∈ c, (d.put i b).blocks k = d.blocks k := fun k hk =>
    put_blocks_of_ne _ _ fun h => hic (h ▸ hk)
  have hdi : d'.blocks i = b := by rw [h.frame i hij hic hin, put_blocks_self]
  refine ⟨h.total, ?_, h.alloc, h.fresh, ?_, ?_, ?_, h.added, ?_, ?_, ?_⟩
  · intro k h1 h2 h3
    rw [List.mem_cons, not_or] at h2
    rw [h.frame k h2.1 h2.2 h3, put_blocks_of_ne _ _ h1]
  · refine seg_cons.mpr ⟨rfl, ?_⟩
    rw [Disk.next, hdi, ht.next, fill_dbm, hnext]
    exact h.chain
  · rw [hdi]; exact ht.filled.same
  · intro k hk
    rcases List.mem_cons.mp hk with rfl | hk'
    · exact h.first
    · rw [← hput k hk']; exact h.kept k hk'
  · intro x
    have hb : ∀ y, (d.put i b).byteAt c y = d.byteAt c y :=
      byteAt_congr fun k hk => by rw [hput k hk]
    rw [byteAt_cons, hdi, ht.filled.byte (le_of_eq hm), List.cons_append, h.bytes, byteAt_cons, hb]
    exact range_split hm hn
  · have hr := h.room
    simp only [BLOCK_DATA, List.length_cons] at hr hm ⊢
    omega
  · rcases h.tight with ht | ht
    · exact Or.inl ht
    · refine Or.inr ?_
      simp only [BLOCK_DATA, List.length_cons] at ht hm ⊢
      grind

/-- A block that is filled to its end, the last of the chain: a new one is linked in. -/
lemma Written.append {m : ℕ} {f : Fin BLOCK_NUM} {b0 : Block} (hp : p.length ≤ MAX_FILENAME)
    (hf : ¬ d.Allocated f) (ha : d.Allocated i) (hb0 : Cleared b0)
    (hm : o + m = BLOCK_DATA) (hn : m < n)
    (ht : Touched { block.fill buf o m with dbm.next := addr f } b)
    (h : Written (((d.mark f).put f b0).put i b) d' f (b0.strcpyFilename p) [] new p
      (fun k => buf (k + m)) 0 (n - m)) : Written d d' i block [] (f :: new) p buf o n := by
  have hif : i ≠ f := fun h => hf (h ▸ ha)
  have hmark : ∀ k, (((d.mark f).put f b0).put i b).Allocated k ↔ k = f ∨ d.Allocated k := by
    intro k; rw [allocated_put, allocated_put, allocated_mark]
  have hin : i ∉ new := fun hmem => h.fresh i hmem ((hmark i).mpr (Or.inr ha))
  have hdi : d'.blocks i = b := by
    rw [h.frame i hif (by simp) hin, put_blocks_self]
  refine ⟨h.total, ?_, ?_, ?_, ?_, ?_, by simp, ?_, ?_, ?_, ?_⟩
  · intro k h1 _ h3
    rw [List.mem_cons, not_or] at h3
    rw [h.frame k h3.1 (by simp) h3.2, put_blocks_of_ne _ _ h1, put_blocks_of_ne _ _ h3.1,
      mark_blocks]
  · intro k
    rw [h.alloc, hmark, List.mem_cons]
    tauto
  · intro k hk
    rcases List.mem_cons.mp hk with rfl | hk'
    · exact hf
    · exact fun hak => h.fresh k hk' ((hmark k).mpr (Or.inr hak))
  · refine seg_cons.mpr ⟨rfl, ?_⟩
    rw [Disk.next, hdi, ht.next]
    exact h.chain
  · rw [hdi]; exact ht.filled_link.same
  · intro k hk
    rcases List.mem_cons.mp hk with rfl | hk'
    · have hs := h.first
      rw [b0.strcpyFilename_short hp] at hs
      refine ⟨by rw [hs.head]; exact hb0.head, ?_⟩
      exact Block.name_eq hp (b0.name_strcpyFilename hp) h.first.filename
    · exact h.added k hk'
  · -- the bytes up to the end of this block, and those of the rest of the loop
    intro x
    have hzero : ∀ y, (b0.strcpyFilename p).byte y = 0 := by
      intro y
      rw [b0.strcpyFilename_short hp, Block.byte, hb0.data]
      by_cases hy : y < BLOCK_DATA <;> simp [hy]
    have hh := h.bytes (x - BLOCK_DATA)
    rw [List.nil_append] at hh
    rw [byteAt_cons, hdi, ht.filled_link.byte (le_of_eq hm), List.nil_append, hh, byteAt_nil,
      byteAt_nil, hzero, ite_self]
    exact range_split hm hn
  · have hr := h.room
    simp only [BLOCK_DATA, List.length_cons, List.length_nil] at hr hm ⊢
    omega
  · refine Or.inr ?_
    rcases h.tight with rfl | ht
    · simp only [BLOCK_DATA, List.length_cons, List.length_nil] at hm ⊢
      omega
    · simp only [BLOCK_DATA, List.length_cons, List.length_nil] at ht hm ⊢
      grind

end step

lemma writeLoop_done (p : CStr) (buf : ℕ → UInt8) (o blockNum written : ℤ) (b nb : Block) :
    writeLoop p buf 0 o blockNum written b nb = .ret written := by
  rw [writeLoop, dif_neg (by omega)]
  rfl

section iteration

variable {p : CStr} {d : Disk} {i j : Fin BLOCK_NUM} {block nextBlock : Block} {buf : ℕ → UInt8}
  {o n m : ℕ} {written : ℤ} {Q : ℤ → Disk → Prop}

lemma behind_iff (ho : o < 9223372036854775808) : BLOCK_DATA < toULong o ↔ BLOCK_DATA < o := by
  rw [toULong_natCast (by omega)]
  exact Nat.cast_lt

lemma toLong_sub_block (ho : o < 9223372036854775808) (h : BLOCK_DATA ≤ o) :
    toLong (o - (BLOCK_DATA : ℕ)) = ((o - BLOCK_DATA : ℕ) : ℤ) := by
  rw [← Nat.cast_sub h]
  exact toLong_natCast (by omega)

/-- The offset is behind this block, and the next one is read. -/
lemma safe_writeLoop_down (hn : 0 < n) (ho : o < 9223372036854775808) (hbig : BLOCK_DATA < o)
    (hnext : block.dbm.next = addr j)
    (h : Safe (writeLoop p buf n (o - BLOCK_DATA : ℕ) (addr j) written (d.blocks j) nextBlock) d Q) :
    Safe (writeLoop p buf n o (addr i) written block nextBlock) d Q := by
  rw [writeLoop, dif_pos (by omega), dif_pos ((behind_iff ho).mpr hbig),
    toLong_sub_block ho hbig.le, hnext]
  exact safe_bind (safe_readBlock h)

/-- `m` bytes go into this block. -/
lemma writeLoop_fill (hn : 0 < n) (hn' : n < 2147483648) (ho : o ≤ BLOCK_DATA)
    (hm : min n (BLOCK_DATA - o) = m) :
    writeLoop p buf n o (addr i) written block nextBlock = (do
      let r ← linkNext p (n - m : ℕ) (block.fill buf o m) nextBlock
      storeBlock (addr i) r.1
      writeLoop p (fun k => buf (k + m)) (n - m : ℕ) (0 : ℕ) r.1.dbm.next (written + m) r.2 r.2) := by
  have hin : ¬ BLOCK_DATA < toULong (o : ℤ) :=
    mt (behind_iff (ho.trans_lt (by decide))).mp (not_lt.mpr ho)
  have hleft : (n : ℤ) - (m : ℕ) = ((n - m : ℕ) : ℤ) := by omega
  rw [writeLoop, dif_pos (by omega), dif_neg hin, writeToBlock_eq buf block hn' ho]
  simp only [hm, hleft, Int.toNat_natCast, Nat.cast_zero]

/-- The rest of the bytes fits into this block. -/
lemma safe_writeLoop_last (hn : 0 < n) (hn' : n < 2147483648) (hfit : o + n ≤ BLOCK_DATA)
    (hQ : ∀ b, Touched (block.fill buf o n) b → Q (written + n) (d.put i b)) :
    Safe (writeLoop p buf n o (addr i) written block nextBlock) d Q := by
  rw [writeLoop_fill (m := n) hn hn' (by omega) (by omega), Nat.sub_self]
  refine safe_bind (safe_linkNext_last rfl fun nb => ?_)
  refine safe_bind (safe_storeBlock fun b hb => ?_)
  rw [Nat.cast_zero, writeLoop_done]
  exact safe_ret (hQ b hb)

variable (hn' : n < 2147483648) (hm : o + m = BLOCK_DATA) (hmn : m < n)
include hn' hm hmn

/-- This block is filled to its end, and the next one of the chain is read. -/
lemma safe_writeLoop_next (hnext : block.dbm.next = addr j)
    (h : ∀ b, Touched (block.fill buf o m) b → Safe (writeLoop p (fun k => buf (k + m))
      (n - m : ℕ) (0 : ℕ) (addr j) (written + m) (d.blocks j) (d.blocks j)) (d.put i b) Q) :
    Safe (writeLoop p buf n o (addr i) written block nextBlock) d Q := by
  rw [writeLoop_fill (m := m) (by omega) hn' (by omega) (by omega)]
  refine safe_bind (safe_linkNext_next (by rw [fill_dbm]; exact hnext) ?_)
  refine safe_bind (safe_storeBlock fun b hb => ?_)
  rw [fill_dbm, hnext]
  exact h b hb

/-- This block is filled to its end, and a new one is linked in behind it. -/
lemma safe_writeLoop_new (ht : d.sb.totalblocks.toNat ≤ BLOCK_NUM) (hfree : 0 < d.freeCount)
    (hlast : block.dbm.next = -1)
    (h : ∀ f b0 b, d.FirstFree f → Cleared b0 →
      Touched { block.fill buf o m with dbm.next := addr f } b → Safe (writeLoop p
        (fun k => buf (k + m)) (n - m : ℕ) (0 : ℕ) (addr f) (written + m) (b0.strcpyFilename p)
        (b0.strcpyFilename p)) (((d.mark f).put f b0).put i b) Q) :
    Safe (writeLoop p buf n o (addr i) written block nextBlock) d Q := by
  rw [writeLoop_fill (m := m) (by omega) hn' (by omega) (by omega)]
  refine safe_bind (safe_linkNext_new ht hfree (by omega) ?_ fun f b0 hf hb0 => ?_)
  · rw [fill_dbm, hlast]
  exact safe_bind (safe_storeBlock fun b hb => h f b0 b hf hb0 hb)

end iteration

/-- **The loop of `aofs_write_file`**, on a chain that holds the offset and a disk with
enough free blocks. -/
theorem safe_writeLoop {p : CStr} {d : Disk} {i : Fin BLOCK_NUM} {block nextBlock : Block}
    {c : List (Fin BLOCK_NUM)} {buf : ℕ → UInt8} {o n : ℕ} {written : ℤ}
    {Q : ℤ → Disk → Prop} (hp : p.length ≤ MAX_FILENAME)
    (hn : 0 < n) (hn' : n < 2147483648) (ho : o < 9223372036854775808)
    (ht : d.sb.totalblocks.toNat ≤ BLOCK_NUM) (hi : i ∉ c) (hc : d.Chain block.dbm.next c)
    (hb : BLOCK_DATA < o → d.blocks i = block) (ha : ∀ j ∈ i :: c, d.Allocated j)
    (hoff : o ≤ (c.length + 1) * BLOCK_DATA)
    (hroom : o + n ≤ (c.length + 1 + d.freeCount) * BLOCK_DATA)
    (hQ : ∀ d' new, Written d d' i block c new p buf o n → (∀ j ∈ new, d.IsFree j) →
      Q (written + n) d') :
    Safe (writeLoop p buf n o (addr i) written block nextBlock) d Q := by
  induction hk : o + n using Nat.strong_induction_on
    generalizing d i block nextBlock c buf o n written with
  | _ k ih =>
    by_cases hbig : BLOCK_DATA < o
    · -- the offset is behind this block
      obtain ⟨j, c, rfl⟩ : ∃ j c', c = j :: c' := by
        cases c with
        | nil => simp only [List.length_nil, BLOCK_DATA] at hoff hbig; omega
        | cons j c' => exact ⟨j, c', rfl⟩
      obtain ⟨hnext, hc'⟩ := seg_cons.mp hc
      refine safe_writeLoop_down hn ho hbig hnext ?_
      refine ih (o - BLOCK_DATA + n) ?_ hn hn' ?_ ht (List.nodup_cons.mp hc.nodup).1 hc'
        (fun _ => rfl) (fun l hl => ha l (by simp [hl])) ?_ ?_ (fun d' new h hfr => ?_) rfl
      · simp only [BLOCK_DATA] at hbig ⊢; omega
      · omega
      · simp only [BLOCK_DATA, List.length_cons] at hbig hoff ⊢; omega
      · simp only [BLOCK_DATA, List.length_cons] at hbig hroom ⊢; omega
      · exact hQ d' new (h.down hi ha (hb hbig) hnext hbig) hfr
    by_cases hfit : o + n ≤ BLOCK_DATA
    · -- the rest fits into this block
      refine safe_writeLoop_last hn hn' hfit fun b htb => ?_
      exact hQ _ [] (Written.last hi hc hfit htb) (by simp)
    -- this block is filled to its end, and the rest goes to the next one
    obtain ⟨m, hm⟩ : ∃ m, o + m = BLOCK_DATA := ⟨BLOCK_DATA - o, by omega⟩
    have hmn : m < n := by omega
    have hless : 0 + (n - m) < k := by simp only [BLOCK_DATA] at hm; omega
    have hsum : written + n = written + m + (n - m : ℕ) := by omega
    rw [hsum] at hQ
    cases c with
    | nil =>
      have hfree : 0 < d.freeCount := by
        simp only [BLOCK_DATA, List.length_nil] at hroom hm; omega
      refine safe_writeLoop_new hn' hm hmn ht hfree (seg_nil.mp hc) fun f b0 b hf hb0 htb => ?_
      have hnext : (b0.strcpyFilename p).dbm.next = -1 := by
        rw [b0.strcpyFilename_short hp]; exact hb0.next
      have hcount : ((d.mark f).put f b0).freeCount + 1 = d.freeCount := freeCount_mark hf.1
      refine ih (0 + (n - m)) hless (by omega) (by omega) (by omega) ht (c := []) (by simp)
        (by rw [hnext]; exact seg_nil.mpr rfl) (fun h => absurd h (by omega)) ?_ (Nat.zero_le _) ?_
        (fun d' new h hfr => ?_) rfl
      · intro j hj
        rw [List.mem_singleton.mp hj, allocated_put, allocated_put]
        exact allocated_mark.mpr (Or.inl rfl)
      · rw [freeCount_put]
        simp only [BLOCK_DATA, List.length_nil] at hroom hm ⊢
        omega
      · refine hQ d' _ (h.append hp hf.1.1 (ha i (by simp)) hb0 hm hmn htb) ?_
        rintro j (_ | ⟨_, hj⟩)
        · exact hf.1
        · exact (hfr j hj).of_mark
    | cons j c =>
      obtain ⟨hnext, hc'⟩ := seg_cons.mp hc
      have hij : j ≠ i := fun h => hi (by simp [h])
      have hic : i ∉ c := fun h => hi (by simp [h])
      refine safe_writeLoop_next hn' hm hmn hnext fun b htb => ?_
      rw [← put_blocks_of_ne d b hij]
      refine ih (0 + (n - m)) hless (by omega) (by omega) (by omega) ht
        (List.nodup_cons.mp hc.nodup).1 ?_ (fun h => absurd h (by omega))
        (fun k hk => ha k (List.mem_cons_of_mem _ hk)) (Nat.zero_le _) ?_
        (fun d' new h hfr => ?_) rfl
      · rw [put_blocks_of_ne d b hij]
        refine (chain_congr fun k hk => ?_).mpr hc'
        have hki : k ≠ i := fun h => hic (h ▸ hk)
        rw [Disk.next, Disk.next, put_blocks_of_ne _ _ hki]
      · rw [freeCount_put]
        simp only [BLOCK_DATA, List.length_cons] at hroom hm ⊢
        omega
      · rw [put_blocks_of_ne d b hij] at h
        exact hQ d' _ (h.next hi (ha i (by simp)) hnext hm hmn htb) hfr

/-! ### The file -/

/-- What `aofs_write_file` does to the file with head `h`, when it writes `n` bytes of `buf`
from the offset `o` on. The size is `o + n`, also where the file was larger. -/
structure Wrote (d d' : Disk) (p : CStr) (h : Fin BLOCK_NUM) (new : List (Fin BLOCK_NUM))
    (buf : ℕ → UInt8) (o n : ℕ) : Prop where
  rewrites : Rewrites d d' p h (d.chain h) (d.chain h ++ new)
  size : (d'.blocks h).dbm.st_size = (o + n : ℕ)
  bytes : ∀ x, d'.byteAt (d.chain h ++ new) x =
    if o ≤ x ∧ x < o + n then buf (x - o) else d.byteAt (d.chain h) x
  room : 0 < n → o + n ≤ ((d.chain h).length + new.length) * BLOCK_DATA
  tight : new = [] ∨ ((d.chain h).length + new.length - 1) * BLOCK_DATA < o + n

/-- The blocks `new`, linked in behind the file `p`, were free. They carry its name and are no
heads. -/
structure Taken (d d' : Disk) (p : CStr) (new : List (Fin BLOCK_NUM)) : Prop where
  free : ∀ j ∈ new, d.IsFree j
  head : ∀ j ∈ new, (d'.blocks j).dbm.head = 0
  name : ∀ j ∈ new, (d'.blocks j).name = p

lemma Taken.nil (d d' : Disk) (p : CStr) : Taken d d' p [] := ⟨by simp, by simp, by simp⟩

section file

variable {d d' : Disk} {p : CStr} {h : Fin BLOCK_NUM} {buf : ℕ → UInt8} {o n : ℕ}

lemma wrote_nothing (hl : d.Linked) (hf : d.IsFile p h) (hp : p.length ≤ MAX_FILENAME) :
    Wrote d (d.put h { d.blocks h with dbm.st_size := o }) p h [] buf o 0 := by
  have hname : ({ d.blocks h with dbm.st_size := o } : Block).name = p :=
    Block.name_eq hp hf.2 rfl
  have hdata : ∀ k ∈ d.chain h, ((d.put h { d.blocks h with dbm.st_size := o }).blocks k).data =
      (d.blocks k).data := by
    intro k _
    by_cases hk : k = h
    · rw [hk, put_blocks_self]
    · rw [put_blocks_of_ne _ _ hk]
  refine ⟨?_, ?_, fun x => ?_, fun h0 => absurd h0 (by omega), Or.inl rfl⟩
  · rw [List.append_nil]
    exact rewrites_head hl hf.1 hf.2 hname rfl hf.1.2 (by simp)
  · rw [put_blocks_self]; rfl
  · rw [List.append_nil, byteAt_congr hdata, if_neg (by omega)]

lemma Written.wrote {c new : List (Fin BLOCK_NUM)} (hl : d.Linked) (hf : d.IsFile p h)
    (hp : p.length ≤ MAX_FILENAME) (hc : d.chain h = h :: c) (hhc : h ∉ c)
    (hw : Written (d.put h { d.blocks h with dbm.st_size := (o + n : ℕ) }) d' h
      { d.blocks h with dbm.st_size := (o + n : ℕ) } c new p buf o n) :
    Wrote d d' p h new buf o n := by
  have hput : ∀ k, k ≠ h → (d.put h { d.blocks h with dbm.st_size := (o + n : ℕ) }).blocks k =
      d.blocks k := fun k hk => put_blocks_of_ne _ _ hk
  have hsize : (d'.blocks h).dbm.st_size = (o + n : ℕ) := hw.first.size
  refine ⟨rewrites_append hl hf hp hw.total (fun j h1 h2 => ?_) hw.alloc hw.fresh ?_
    (fun j hj => ?_) (fun j hj => (hw.added j hj).1) hw.first.filename
    (by rw [hsize]; exact Int.natCast_nonneg _), hsize, ?_, ?_, ?_⟩
  · rw [hc, List.mem_cons, not_or] at h1
    rw [hw.frame j h1.1 h1.2 h2, hput j h1.1]
  · rw [hc, List.cons_append]; exact hw.chain
  · rw [hc] at hj
    rcases List.mem_cons.mp hj with rfl | hjc
    · exact hw.first.head
    · have hjh : j ≠ h := by rintro rfl; exact hhc hjc
      rw [(hw.kept j hjc).head, hput j hjh]
  · intro x
    have hb : ∀ y, (d.put h { d.blocks h with dbm.st_size := (o + n : ℕ) }).byteAt c y =
        d.byteAt c y :=
      byteAt_congr fun k hk => by rw [hput k (by rintro rfl; exact hhc hk)]
    rw [hc, List.cons_append, hw.bytes, hb, byteAt_cons]
    rfl
  · intro _
    have := hw.room
    rw [hc, List.length_cons]; exact this
  · rcases hw.tight with ht | ht
    · exact Or.inl ht
    · refine Or.inr ?_
      have he : c.length + 1 + new.length - 1 = c.length + new.length := by omega
      rw [hc, List.length_cons, he]; exact ht

/-- **The write to a file**, from where its head block is in memory. -/
theorem safe_writeFound {size offset : ℕ} {nextBlock : Block} {Q : ℤ → Disk → Prop}
    (hl : d.Linked) (hf : d.IsFile p h) (hp : p.length ≤ MAX_FILENAME)
    (hs : size ≤ INT_MAX) (ho : offset ≤ OFF_MAX)
    (o_eq : o = min offset (d.blocks h).dbm.st_size.toNat)
    (hroom : 0 < size → o ≤ (d.chain h).length * BLOCK_DATA ∧
      o + size ≤ ((d.chain h).length + d.freeCount) * BLOCK_DATA)
    (hQ : ∀ d' new, Wrote d d' p h new buf o size → Taken d d' p new → Q size d') :
    Safe (writeFound p buf size offset (addr h) (d.blocks h) nextBlock) d Q := by
  obtain ⟨c, hc, hcc, hhc⟩ := hl.chain_cons hf.1
  have hs0 := hl.size_nonneg h hf.1
  have hL : (d.chain h).length ≤ BLOCK_NUM := (hl.ends h hf.1).length_le
  simp only [INT_MAX, OFF_MAX, BLOCK_NUM] at hs ho hL
  have hoff : (if (d.blocks h).dbm.st_size < (offset : ℤ) then (d.blocks h).dbm.st_size
      else (offset : ℤ)) = (o : ℕ) := by
    split <;> omega
  have hsize : toInt (size : ℤ) = size := toInt_of_range (by omega) (by omega)
  -- the new size does not wrap, since the blocks hold it
  have hlong : toLong ((size : ℤ) + o) = (o + size : ℕ) := by
    rcases Nat.eq_zero_or_pos size with rfl | hpos
    · rw [toLong_of_range (by omega) (by omega)]; omega
    · have hr := (hroom hpos).1
      simp only [BLOCK_DATA] at hr
      rw [toLong_of_range (by omega) (by omega)]; omega
  unfold writeFound
  simp only [hoff, hsize, hlong]
  refine safe_bind (safe_writeBlock ?_)
  rcases Nat.eq_zero_or_pos size with rfl | hpos
  · -- nothing is to be written, but the size changes
    rw [Nat.cast_zero, writeLoop_done]
    refine safe_bind (safe_ret (safe_bind (safe_printAofs (safe_ret ?_))))
    exact hQ _ [] (wrote_nothing hl hf hp) (.nil ..)
  · obtain ⟨hr1, hr2⟩ := hroom hpos
    have hs' : size < 2147483648 := Nat.lt_succ_of_le hs
    have ho' : o < 9223372036854775808 := by
      rw [o_eq]
      exact Nat.lt_succ_of_le ((Nat.min_le_left _ _).trans ho)
    rw [hc, List.length_cons] at hr1 hr2
    have hput : ∀ k ∈ c, (d.put h { d.blocks h with dbm.st_size := (o + size : ℕ) }).blocks k =
        d.blocks k := fun k hk => put_blocks_of_ne _ _ (by rintro rfl; exact hhc hk)
    refine safe_bind (safe_writeLoop hp hpos hs' ho' hl.total_le hhc ?_ ?_ ?_ hr1
      ?_ fun d' new hw hfr => ?_)
    · exact (chain_congr fun k hk => by rw [Disk.next, Disk.next, hput k hk]).mpr hcc
    · exact fun _ => put_blocks_self ..
    · exact fun k hk => hl.alloc h hf.1 k (hc ▸ hk)
    · rw [freeCount_put]; exact hr2
    · refine safe_bind (safe_printAofs (safe_ret ?_))
      rw [zero_add]
      exact hQ d' new (hw.wrote hl hf hp hc hhc)
        ⟨hfr, fun j hj => (hw.added j hj).1, fun j hj => (hw.added j hj).2⟩

/-- **`aofs_write_file` on a file that exists.** -/
theorem safe_aofsWriteFile_found {size offset : ℕ} {Q : ℤ → Disk → Prop}
    (hl : d.Linked) (hf : d.lookup p = some h) (hp : p.length ≤ MAX_FILENAME)
    (hs : size ≤ INT_MAX) (ho : offset ≤ OFF_MAX)
    (o_eq : o = min offset (d.blocks h).dbm.st_size.toNat)
    (hroom : 0 < size → o ≤ (d.chain h).length * BLOCK_DATA ∧
      o + size ≤ ((d.chain h).length + d.freeCount) * BLOCK_DATA)
    (hQ : ∀ d' new, Wrote d d' p h new buf o size → Taken d d' p new → Q size d') :
    Safe (aofsWriteFile p buf size offset) d Q := by
  refine safe_bind (safe_newBlock fun b1 => safe_bind (safe_newBlock fun b2 => ?_))
  refine safe_bind (safe_bind (safe_find_found hf ?_))
  rw [if_neg (addr_nonneg h)]
  exact safe_ret (safe_writeFound hl (lookup_eq_some.mp hf).1 hp hs ho o_eq hroom hQ)

/-- **`aofs_write_file` on a name without file**, with enough free blocks. -/
theorem safe_aofsWriteFile_new {size offset : ℕ} {Q : ℤ → Disk → Prop}
    (hl : d.Linked) (hf : d.lookup p = none) (hp : p.length ≤ MAX_FILENAME)
    (hs : size ≤ INT_MAX) (ho : offset ≤ OFF_MAX) (hfree : 0 < d.freeCount)
    (hroom : size ≤ d.freeCount * BLOCK_DATA)
    (hQ : ∀ d' i b new, d.FirstFree i → NewHead b p →
      Wrote ((d.mark i).put i b) d' p i new buf 0 size → Q size d') :
    Safe (aofsWriteFile p buf size offset) d Q := by
  refine safe_bind (safe_newBlock fun b1 => safe_bind (safe_newBlock fun b2 => ?_))
  refine safe_bind (safe_bind (safe_find_missing hf ?_))
  have hneg : (-1 : ℤ) < 0 := by omega
  rw [if_pos hneg]
  refine safe_bind (safe_aofsCreateFile hp hl.total_le (fun i b hi hb => ?_) fun h0 => ?_)
  · have hl' := (rewrites_new hi.1 hb).linked hl
    have hfile : ((d.mark i).put i b).IsFile p i := isFile_new hb
    have hchain := chain_new hi.1 hb hl
    have hcount : ((d.mark i).put i b).freeCount + 1 = d.freeCount := freeCount_mark hi.1
    refine safe_bind (safe_readBlock (safe_ret ?_))
    refine safe_writeFound (o := 0) hl' hfile hp hs ho ?_ (fun _ => ?_)
      fun d' new hw _ => hQ d' i b new hi hb hw
    · rw [put_blocks_self, hb.size]; simp
    · rw [hchain, List.length_singleton, zero_add, add_comm 1, hcount]
      exact ⟨Nat.zero_le _, hroom⟩
  · omega

end file

end Messaround.Aofs
