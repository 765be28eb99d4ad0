import Messaround.Aofs.Termination
import Messaround.Lib.Slices

/-!
The loop of `aofs_write_file` on any image.

The loop is given a number of rounds and keeps a record of its calls of `write_to_block`. A
round that goes down the links takes a block off the offset, and one that copies fills its
block or is the last, so the offset and the bytes left lose a block in every round, wherever
the links lead.
-/

namespace Messaround.Aofs

open Messaround.CInt Messaround.Slices Disk

/-! ### Calls of `write_to_block` -/

/-- The slices of the caller's buffer that calls copy: start and length. -/
def slices (ws : List BlockWrite) : List (ℤ × ℤ) :=
  ws.filterMap fun w => w.memcpy.map fun c => (w.src, c.2)

/-- The calls stay in their blocks and copy the bytes from `a` to `b` of the buffer, slice after
slice. -/
structure Copies (a b : ℤ) (ws : List BlockWrite) : Prop where
  offset : ∀ w ∈ ws, 0 ≤ w.offset ∧ w.offset ≤ BLOCK_DATA
  inBlock : ∀ w ∈ ws, ∀ c ∈ w.memcpy, 0 ≤ c.1 ∧ 0 ≤ c.2 ∧ c.1 + c.2 ≤ BLOCK_DATA
  consecutive : Tiles a (slices ws) b

/-- The calls copy a buffer of `size` bytes. -/
structure CopiesBuffer (size : ℤ) (ws : List BlockWrite) : Prop extends Copies 0 size ws where
  disjoint : (slices ws).Pairwise fun s t => s.1 + s.2 ≤ t.1
  inBuffer : ∀ s ∈ slices ws, 0 ≤ s.1 ∧ s.1 + s.2 ≤ size

section copies

variable {a b : ℤ} {ws : List BlockWrite} {n o : ℕ}

lemma copies_nil (a : ℤ) : Copies a a [] :=
  ⟨fun _ hw => absurd hw List.not_mem_nil, fun _ hw => absurd hw List.not_mem_nil, .nil a⟩

lemma Copies.cons (hn : n < 2147483648) (ho : o ≤ BLOCK_DATA)
    (h : Copies (a + (min n (BLOCK_DATA - o) : ℕ)) b ws) : Copies a b (⟨a, n, o⟩ :: ws) := by
  have hcopy := BlockWrite.memcpy_eq a hn ho
  refine ⟨List.forall_mem_cons.mpr ⟨?_, h.offset⟩, List.forall_mem_cons.mpr ⟨?_, h.inBlock⟩, ?_⟩
  · exact ⟨Int.natCast_nonneg o, Int.ofNat_le.mpr ho⟩
  · intro c hc
    rw [hcopy] at hc
    obtain rfl := Option.some.inj hc
    dsimp only
    omega
  · have hslices : slices (⟨a, n, o⟩ :: ws) =
        (a, ((min n (BLOCK_DATA - o) : ℕ) : ℤ)) :: slices ws :=
      List.filterMap_cons_some (by rw [hcopy]; rfl)
    rw [hslices]
    exact .cons (Int.le_add_of_nonneg_right (Int.natCast_nonneg _)) h.consecutive

lemma Copies.buffer (h : Copies 0 b ws) : CopiesBuffer b ws :=
  ⟨h, h.consecutive.pairwise, fun _ hs => h.consecutive.mem hs⟩

end copies

/-! ### The loop with a record -/

/-- `writeLoop` for at most `rounds` rounds, with its calls of `write_to_block`. -/
def writeRounds (filename : CStr) : (rounds : ℕ) → (buf : ℕ → UInt8) →
    (src bytesToWrite offset blockNum bytesWritten : ℤ) → (block nextBlock : Block) →
    Code (ℤ × List BlockWrite)
  | rounds, buf, src, bytesToWrite, offset, blockNum, bytesWritten, block, nextBlock =>
    if 0 < bytesToWrite then
      match rounds with
      | 0 => .stuck
      | rounds + 1 =>
        if BLOCK_DATA < toULong offset then do
          let block' ← readBlock block.dbm.next block
          writeRounds filename rounds buf src bytesToWrite (toLong (offset - BLOCK_DATA))
            block.dbm.next bytesWritten block' nextBlock
        else do
          let wr := (writeToBlock buf block bytesToWrite offset).1
          let r ← linkNext filename (bytesToWrite - wr)
            (writeToBlock buf block bytesToWrite offset).2 nextBlock
          storeBlock blockNum r.1
          let (written, ws) ← writeRounds filename rounds (fun k => buf (k + wr.toNat)) (src + wr)
            (bytesToWrite - wr) 0 r.1.dbm.next (bytesWritten + wr) r.2 r.2
          return (written, ⟨src, bytesToWrite, offset⟩ :: ws)
    else return (bytesWritten, [])

def writeFoundRounds (rounds : ℕ) (filename : CStr) (buf : ℕ → UInt8) (size offset blockNum : ℤ)
    (block nextBlock : Block) : Code (ℤ × List BlockWrite) := do
  let offset := if block.dbm.st_size < offset then block.dbm.st_size else offset
  let block := { block with dbm.st_size := toLong (size + offset) }
  writeBlock blockNum block
  let r ← writeRounds filename rounds buf 0 (toInt size) offset blockNum 0 block nextBlock
  printAofs
  return r

/-- `aofs_write_file` with at most `rounds` rounds of its loop. -/
def aofsWriteRounds (rounds : ℕ) (filename : CStr) (buf : ℕ → UInt8) (size offset : ℤ) :
    Code (ℤ × List BlockWrite) := do
  let block ← newBlock
  let nextBlock ← newBlock
  let (blockNum, block) ← findOrCreate filename block
  writeFoundRounds rounds filename buf size offset blockNum block nextBlock

/-! ### The rounds -/

section rounds

variable {p : CStr} {buf : ℕ → UInt8} {rounds n o m : ℕ} {src blockNum written : ℤ}
  {block nextBlock : Block}

lemma writeRounds_done : writeRounds p rounds buf src 0 o blockNum written block nextBlock =
    .ret (written, []) := by
  rw [writeRounds.eq_def]
  dsimp only
  rw [if_neg (lt_irrefl 0)]
  rfl

/-- The offset is behind this block, and the next one is read. -/
lemma writeRounds_down (hn : 0 < n) (ho : o ≤ OFF_MAX) (hbig : BLOCK_DATA < o) :
    writeRounds p (rounds + 1) buf src n o blockNum written block nextBlock = (do
      let block' ← readBlock block.dbm.next block
      writeRounds p rounds buf src n (o - BLOCK_DATA : ℕ) block.dbm.next written block'
        nextBlock) := by
  have ho' : o < 9223372036854775808 := Nat.lt_succ_of_le ho
  rw [writeRounds.eq_def]
  dsimp only
  rw [if_pos (by omega), if_pos ((behind_iff ho').mpr hbig), toLong_sub_block ho' hbig.le]

/-- `m` bytes go into this block. -/
lemma writeRounds_copy (hn : 0 < n) (hn' : n < 2147483648) (ho : o ≤ BLOCK_DATA)
    (hm : min n (BLOCK_DATA - o) = m) :
    writeRounds p (rounds + 1) buf src n o blockNum written block nextBlock = (do
      let r ← linkNext p (n - m : ℕ) (block.fill buf o m) nextBlock
      storeBlock blockNum r.1
      let (total, ws) ← writeRounds p rounds (fun k => buf (k + m)) (src + m) (n - m : ℕ) (0 : ℕ)
        r.1.dbm.next (written + m) r.2 r.2
      return (total, ⟨src, n, o⟩ :: ws)) := by
  have hin : ¬ BLOCK_DATA < toULong (o : ℤ) :=
    mt (behind_iff (ho.trans_lt (by decide))).mp (not_lt.mpr ho)
  have hleft : (n : ℤ) - (m : ℕ) = ((n - m : ℕ) : ℤ) := by omega
  rw [writeRounds.eq_def]
  dsimp only
  rw [if_pos (by omega), if_neg hin, writeToBlock_eq buf block hn' ho]
  simp only [hm, hleft, Int.toNat_natCast, Nat.cast_zero]

/-- **The loop ends** within the rounds that the offset and the bytes fill, whatever it reads,
and copies the bytes slice after slice. -/
lemma yields_writeRounds (hn : n ≤ INT_MAX) (ho : o ≤ OFF_MAX)
    (hr : o + n ≤ rounds * BLOCK_DATA) :
    (writeRounds p rounds buf src n o blockNum written block nextBlock).Yields
      fun r => Copies src (src + n) r.2 := by
  induction rounds generalizing buf src n o blockNum written block nextBlock with
  | zero =>
    obtain rfl : n = 0 := by omega
    rw [Nat.cast_zero, writeRounds_done, add_zero]
    exact .ret (copies_nil src)
  | succ rounds ih =>
    rw [Nat.succ_mul] at hr
    rcases Nat.eq_zero_or_pos n with rfl | hpos
    · rw [Nat.cast_zero, writeRounds_done, add_zero]
      exact .ret (copies_nil src)
    rcases lt_or_ge BLOCK_DATA o with hbig | hle
    · rw [writeRounds_down hpos ho hbig]
      exact Prog.yields_bind (total_readBlock _ _) fun block' _ =>
        ih hn ((Nat.sub_le _ _).trans ho) (by omega)
    · obtain ⟨m, hm⟩ : ∃ m, min n (BLOCK_DATA - o) = m := ⟨_, rfl⟩
      have hn' : n < 2147483648 := Nat.lt_succ_of_le hn
      rw [writeRounds_copy hpos hn' hle hm]
      refine Prog.yields_bind total_linkNext fun r _ => ?_
      refine Prog.yields_bind total_storeBlock fun _ _ => ?_
      refine Prog.yields_bind (ih ((Nat.sub_le _ _).trans hn) (Nat.zero_le _) (by omega))
        fun t ht => ?_
      refine .ret (Copies.cons hn' hle ?_)
      have hsum : src + n = src + m + (n - m : ℕ) := by omega
      rw [hm, hsum]
      exact ht

end rounds

lemma writeRounds_le {p : CStr} {rounds : ℕ} {buf : ℕ → UInt8} {src n o blockNum written : ℤ}
    {block nextBlock : Block} :
    (writeRounds p rounds buf src n o blockNum written block nextBlock >>= fun r => pure r.1).Le
      (writeLoop p buf n o blockNum written block nextBlock) := by
  induction rounds generalizing buf src n o blockNum written block nextBlock with
  | zero =>
    rw [writeRounds.eq_def, writeLoop]
    dsimp only
    by_cases hn : 0 < n
    · rw [if_pos hn]
      exact .stuck _
    · rw [if_neg hn, dif_neg hn]
      exact .ret _
  | succ rounds ih =>
    rw [writeRounds.eq_def, writeLoop]
    dsimp only
    by_cases hn : 0 < n
    · rw [if_pos hn, dif_pos hn]
      by_cases ho : BLOCK_DATA < toULong o
      · rw [if_pos ho, dif_pos ho, Prog.bind_assoc]
        exact Prog.le_bind (.refl _) fun block' => ih
      · rw [if_neg ho, dif_neg ho, Prog.bind_assoc]
        refine Prog.le_bind (.refl _) fun r => ?_
        rw [Prog.bind_assoc]
        refine Prog.le_bind (.refl _) fun _ => ?_
        rw [Prog.bind_assoc]
        exact ih
    · rw [if_neg hn, dif_neg hn]
      exact .ret _

lemma yields_writeFoundRounds {p : CStr} {rounds size offset : ℕ} (buf : ℕ → UInt8) (blockNum : ℤ)
    {block : Block} (nextBlock : Block) (h0 : 0 ≤ block.dbm.st_size) (hs : size ≤ INT_MAX)
    (ho : offset ≤ OFF_MAX) (hr : offset + size ≤ rounds * BLOCK_DATA) :
    (writeFoundRounds rounds p buf size offset blockNum block nextBlock).Yields
      fun r => CopiesBuffer size r.2 := by
  have hoff : (if block.dbm.st_size < (offset : ℤ) then block.dbm.st_size else (offset : ℤ)) =
      ((min offset block.dbm.st_size.toNat : ℕ) : ℤ) := by
    split <;> omega
  have hsize : toInt (size : ℤ) = size := by
    simp only [INT_MAX] at hs
    exact toInt_of_range (by omega) (by omega)
  have hle := Nat.min_le_left offset block.dbm.st_size.toNat
  unfold writeFoundRounds
  simp only [hoff, hsize]
  refine Prog.yields_bind (total_writeBlock _ _) fun _ _ => ?_
  refine Prog.yields_bind (yields_writeRounds hs (hle.trans ho) (by omega)) fun r hc => ?_
  refine Prog.yields_bind total_printAofs fun _ _ => .ret ?_
  rw [zero_add] at hc
  exact hc.buffer

lemma writeFoundRounds_le {p : CStr} {rounds : ℕ} {buf : ℕ → UInt8} {size offset blockNum : ℤ}
    {block nextBlock : Block} :
    (writeFoundRounds rounds p buf size offset blockNum block nextBlock >>= fun r => pure r.1).Le
      (writeFound p buf size offset blockNum block nextBlock) := by
  unfold writeFoundRounds writeFound
  dsimp only
  rw [Prog.bind_assoc]
  refine Prog.le_bind (.refl _) fun _ => ?_
  -- what is printed comes behind the loop
  have hswap : ∀ q : Code (ℤ × List BlockWrite),
      (q >>= fun r => printAofs >>= fun _ => pure r) >>= (fun r => pure r.1) =
        (q >>= fun r => pure r.1) >>= fun written => printAofs >>= fun _ => pure written := by
    intro q
    simp only [Prog.bind_assoc, Prog.pure_eq, Prog.ret_bind]
  rw [hswap]
  exact Prog.le_bind writeRounds_le fun _ => .refl _

lemma aofsWriteRounds_le {p : CStr} {rounds : ℕ} {buf : ℕ → UInt8} {size offset : ℤ} :
    (aofsWriteRounds rounds p buf size offset >>= fun r => pure r.1).Le
      (aofsWriteFile p buf size offset) := by
  unfold aofsWriteRounds aofsWriteFile
  rw [Prog.bind_assoc]
  refine Prog.le_bind (.refl _) fun block => ?_
  rw [Prog.bind_assoc]
  refine Prog.le_bind (.refl _) fun nextBlock => ?_
  rw [Prog.bind_assoc]
  exact Prog.le_bind (.refl _) fun r => writeFoundRounds_le

/-- **The loop of `aofs_write_file` ends** on every image, and its calls of `write_to_block`
copy the buffer slice after slice, each inside its block. -/
theorem write_terminates {d : Disk} {p : CStr} {h : Fin BLOCK_NUM} {size offset rounds : ℕ}
    (buf : ℕ → UInt8) (hf : d.lookup p = some h) (h0 : 0 ≤ (d.blocks h).dbm.st_size)
    (hs : size ≤ INT_MAX) (ho : offset ≤ OFF_MAX) (hr : offset + size ≤ rounds * BLOCK_DATA)
    (l : Local) : ∃ r d' l',
      (aofsWriteRounds rounds p buf size offset).run exec d l = some (r, d', l') ∧
      (aofsWriteFile p buf size offset).run exec d l = some (r.1, d', l') ∧
      CopiesBuffer size r.2 := by
  have hends : Ends (aofsWriteRounds rounds p buf size offset) d
      fun r _ => CopiesBuffer size r.2 := by
    refine Prog.Ends.bind (Safe.ends (safe_newBlock fun block => ?_))
    refine Prog.Ends.bind (Safe.ends (safe_newBlock fun nextBlock => ?_))
    refine Prog.Ends.bind (Safe.ends (safe_bind (safe_find_found hf ?_)))
    rw [if_neg (addr_nonneg h)]
    exact safe_ret ((yields_writeFoundRounds buf _ nextBlock h0 hs ho hr).ends fun _ _ hc => hc)
  obtain ⟨r, d', l', hrun, hc⟩ := hends l
  have hfst : (aofsWriteRounds rounds p buf size offset >>= fun r => pure r.1).run exec d l =
      some (r.1, d', l') := by
    rw [Prog.run_bind, hrun]
    rfl
  exact ⟨r, d', l', hrun, aofsWriteRounds_le.run hfst, hc⟩

/-- A write to a file whose only block is linked to itself. -/
theorem write_terminates_selfLinked : ∃ r d' l',
    (aofsWriteRounds 3 slashA (fun _ => 7) (10000 : ℕ) (5 : ℕ)).run exec selfLinked default =
      some (r, d', l') ∧
    (aofsWriteFile slashA (fun _ => 7) (10000 : ℕ) (5 : ℕ)).run exec selfLinked default =
      some (r.1, d', l') ∧
    CopiesBuffer (10000 : ℕ) r.2 := by
  have hsize : (selfLinked.blocks 0).dbm.st_size = 0 := by rw [selfLinked, put_blocks_self]; rfl
  exact write_terminates _ selfLinked_lookup hsize.ge (by decide) (by decide) (by decide) default

end Messaround.Aofs
