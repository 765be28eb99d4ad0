import Messaround.Aofs.Laws

/-!
Writes that find too few free blocks.

The loop of `aofs_write_file` takes the `-1` of a failed allocation for a block number and
goes on, so it counts all the bytes it was given, on whatever disk it runs.
-/

namespace Messaround.Aofs

open Messaround.CInt Messaround.Segment Disk

/-! ### Functions that end on every disk -/

lemma total_readSuperBlock : readSuperBlock.Total := Prog.total_perform Call.readSuperBlock

lemma total_writeSuperBlock (sb : SuperBlock) : (writeSuperBlock sb).Total :=
  Prog.total_perform (Call.writeSuperBlock sb)

lemma total_readBlock (n : ℤ) (b : Block) : (readBlock n b).Total :=
  Prog.total_perform (Call.readBlock n b)

lemma total_writeBlock (n : ℤ) (b : Block) : (writeBlock n b).Total :=
  Prog.total_perform (Call.writeBlock n b)

lemma total_time : time.Total := Prog.total_perform Call.time

lemma total_newBlock : newBlock.Total := Prog.total_perform Call.newBlock

lemma total_clearBlock (b : Block) : (clearBlock b).Total := by
  refine Prog.total_bind total_time fun t1 => Prog.total_bind total_time fun t2 => ?_
  refine Prog.total_bind total_time fun t3 => Prog.total_bind total_time fun t4 => ?_
  exact Prog.total_pure _

lemma total_allocateBlock : allocateBlock.Total := by
  refine Prog.total_bind total_readSuperBlock fun sb => ?_
  dsimp only
  split
  · exact Prog.total_pure _
  · refine Prog.total_bind (total_writeSuperBlock _) fun _ => ?_
    refine Prog.total_bind total_newBlock fun b => Prog.total_bind (total_clearBlock b) fun _ => ?_
    refine Prog.total_bind total_time fun t1 => Prog.total_bind total_time fun t2 => ?_
    refine Prog.total_bind total_time fun t3 => Prog.total_bind total_time fun t4 => ?_
    exact Prog.total_bind (total_writeBlock _ _) fun _ => Prog.total_pure _

lemma total_aofsCreateFile (p : CStr) : (aofsCreateFile p).Total := by
  refine Prog.total_bind total_allocateBlock fun n => ?_
  split
  · exact Prog.total_pure _
  · refine Prog.total_bind total_newBlock fun b => Prog.total_bind (total_clearBlock b) fun _ => ?_
    exact Prog.total_bind (total_writeBlock _ _) fun _ => Prog.total_pure _

lemma total_findLoop {bitmap : Vector UInt8 BITMAP_SIZE} {p : CStr} {block b : Block}
    {todo n : ℕ} : (findLoop bitmap p block todo n b).Total := by
  induction todo generalizing n b with
  | zero => exact Prog.total_pure _
  | succ todo ih =>
    unfold findLoop
    split
    · refine Prog.total_bind (total_readBlock _ _) fun b' => ?_
      split
      · exact Prog.total_pure _
      · exact ih
    · exact ih

lemma total_printLoop {bitmap : Vector UInt8 BITMAP_SIZE} {todo n : ℕ} {b : Block} :
    (printLoop bitmap todo n b).Total := by
  induction todo generalizing n b with
  | zero => exact Prog.total_pure _
  | succ todo ih =>
    unfold printLoop
    split
    · exact Prog.total_bind (total_readBlock _ _) fun _ => ih
    · exact ih

lemma total_printAofs : printAofs.Total :=
  Prog.total_bind total_readSuperBlock fun _ => Prog.total_bind total_newBlock
    fun _ => total_printLoop

lemma total_findOrCreate (p : CStr) (block : Block) : (findOrCreate p block).Total := by
  have hfind : (aofsFindFileHead p block).Total :=
    Prog.total_bind total_readSuperBlock fun _ => Prog.total_bind total_newBlock
      fun _ => total_findLoop
  refine Prog.total_bind hfind fun r => ?_
  split
  · exact Prog.total_bind (total_aofsCreateFile p) fun _ =>
      Prog.total_bind (total_readBlock _ _) fun _ => Prog.total_pure _
  · exact Prog.total_pure _

lemma total_linkNext {p : CStr} {left : ℤ} {block nextBlock : Block} :
    (linkNext p left block nextBlock).Total := by
  unfold linkNext
  split
  · exact Prog.total_bind total_allocateBlock fun _ =>
      Prog.total_bind (total_readBlock _ _) fun _ => Prog.total_pure _
  · exact Prog.total_bind (total_readBlock _ _) fun _ => Prog.total_pure _

lemma total_storeBlock {n : ℤ} {b : Block} : (storeBlock n b).Total :=
  Prog.total_bind total_time fun _ => Prog.total_bind total_time
    fun _ => Prog.total_bind total_time fun _ => total_writeBlock _ _

/-! ### The count of the loop -/

lemma writeToBlock_le (buf : ℕ → UInt8) (block : Block) {n o : ℤ} (h0 : 0 < n)
    (hn : n ≤ INT_MAX) (ho : ¬ BLOCK_DATA < toULong o) :
    0 ≤ (writeToBlock buf block n o).1 ∧ (writeToBlock buf block n o).1 ≤ n := by
  have hr : toLong o = toULong o := toLong_eq_toULong (by
    simp only [BLOCK_DATA, Nat.cast_ofNat] at ho; omega)
  have hpos := (toULong_range o).1
  simp only [writeToBlock, toULong_toLong, if_neg ho]
  rw [hr, if_neg (not_lt.mpr hpos)]
  simp only [BLOCK_DATA, INT_MAX, Nat.cast_ofNat] at ho hn ⊢
  rw [toULong_of_range (x := n + toULong o) (by omega) (by omega)]
  split
  · rw [toInt_of_range (by omega) (by omega)]; omega
  · exact ⟨h0.le, le_rfl⟩

lemma ends_writeLoop {d : Disk} {p : CStr} {buf : ℕ → UInt8} {n o blockNum written : ℤ}
    {block nextBlock : Block} (h0 : 0 ≤ n) (hn : n ≤ INT_MAX) :
    Ends (writeLoop p buf n o blockNum written block nextBlock) d fun r _ => r = written + n := by
  induction buf, n, o, blockNum, written, block, nextBlock using writeLoop.induct generalizing d with
  | case1 buf n o blockNum written block nextBlock hb ho ih =>
    rw [writeLoop, dif_pos hb, dif_pos ho]
    exact Prog.Ends.bind (Prog.ends_perform fun l => ih _ h0 hn)
  | case2 buf n o blockNum written block nextBlock hb ho wr =>
    rename_i ih
    obtain ⟨h1, h2⟩ := writeToBlock_le buf block hb hn ho
    rw [writeLoop, dif_pos hb, dif_neg ho]
    refine Prog.Ends.bind (total_linkNext.ends fun r d' => ?_)
    refine Prog.Ends.bind (total_storeBlock.ends fun _ d'' => ?_)
    refine (ih r (by omega) (by omega)).mono fun a _ ha => ?_
    rw [ha]
    ring
  | case3 buf n o blockNum written block nextBlock hb =>
    rw [writeLoop, dif_neg hb]
    obtain rfl : n = 0 := by omega
    rw [add_zero]
    exact fun l => ⟨written, d, l, rfl, rfl⟩

/-- `aofs_write_file` ends on every disk and returns the size it was given. -/
lemma ends_aofsWriteFile {d : Disk} {p : CStr} {buf : ℕ → UInt8} {size : ℕ} {offset : ℤ}
    (hs : size ≤ INT_MAX) : Ends (aofsWriteFile p buf size offset) d fun r _ => r = size := by
  have hint : toInt (size : ℤ) = size := by
    simp only [INT_MAX] at hs
    exact toInt_of_range (by omega) (by omega)
  refine Prog.Ends.bind (total_newBlock.ends fun b1 d1 => ?_)
  refine Prog.Ends.bind (total_newBlock.ends fun b2 d2 => ?_)
  refine Prog.Ends.bind ((total_findOrCreate p b1).ends fun r d3 => ?_)
  refine Prog.Ends.bind ((total_writeBlock _ _).ends fun _ d4 => ?_)
  rw [hint]
  refine Prog.Ends.bind ((ends_writeLoop (Int.natCast_nonneg _) (by exact_mod_cast hs)).mono
    fun a d5 ha => ?_)
  refine Prog.Ends.bind (total_printAofs.ends fun _ d6 => ?_)
  rw [ha, zero_add]
  exact fun l => ⟨_, d6, l, rfl, rfl⟩

/-! ### The report of a failure -/

/-- What a write should do when the disk is full: report less than the size or an error, and
leave the other files, the allocated blocks and the shape of the disk as they were. -/
structure ReportsFull (d d' : Disk) (p : CStr) (size : ℕ) (r : ℤ) : Prop where
  result : r < size
  others : ∀ q g, q ≠ p → d.lookup q = some g →
    d'.lookup q = some g ∧ d'.fileSize g = d.fileSize g ∧ d'.content g = d.content g
  allocated : ∀ i, d.Allocated i → d'.Allocated i
  wellFormed : d'.WellFormed

/-- **A full disk is never reported**: whatever blocks are free, the write returns the size
it was given. -/
theorem never_reportsFull (d : Disk) (p : CStr) (buf : ℕ → UInt8) {size : ℕ} (offset : ℕ)
    (hs : size ≤ INT_MAX) :
    Ends (aofsWriteFile p buf size offset) d fun r d' => r = size ∧ ¬ ReportsFull d d' p size r :=
  (ends_aofsWriteFile hs).mono fun r _ hr => ⟨hr, fun h => by have := h.result; omega⟩

/-- The bytes of the whole image, from the end of a file of two bytes on. -/
def writeImage : Op := .write slashA (fun _ => 7) (BLOCK_NUM * BLOCK_DATA) 2

lemma writeImage_not_room : ¬ writeImage.Room twoBytes := by
  intro hroom
  have h := hroom.1 0 twoBytes_onlyFile.1.lookup (by decide)
  rw [show ((twoBytes.blocks 0).dbm.st_size.toNat) = 2 from twoBytes_fileSize,
    twoBytes_onlyFile.2, twoBytes_freeCount, List.length_singleton] at h
  exact absurd h (by decide)

theorem never_reportsFull_writeImage :
    Ends (aofsWriteFile slashA (fun _ => 7) (BLOCK_NUM * BLOCK_DATA : ℕ) (2 : ℕ)) twoBytes
      fun r d' => r = (BLOCK_NUM * BLOCK_DATA : ℕ) ∧
        ¬ ReportsFull twoBytes d' slashA (BLOCK_NUM * BLOCK_DATA) r :=
  never_reportsFull twoBytes slashA (fun _ => 7) 2 (by decide)

/-- That write finds 4095 free blocks, needs 4096, and does not report it. -/
theorem not_reportsFull_writeImage : twoBytes.WellFormed ∧ writeImage.Valid ∧
    ¬ writeImage.Room twoBytes ∧
    ¬ Ends (aofsWriteFile slashA (fun _ => 7) (BLOCK_NUM * BLOCK_DATA : ℕ) (2 : ℕ)) twoBytes
      fun r d' => ReportsFull twoBytes d' slashA (BLOCK_NUM * BLOCK_DATA) r := by
  refine ⟨twoBytes_wellFormed, ⟨by decide, show _ ≤ _ ∧ _ ≤ _ from ⟨by decide, by decide⟩⟩,
    writeImage_not_room, fun hrep => ?_⟩
  obtain ⟨r, d', hr, hsize⟩ := Prog.Ends.meet hrep (ends_aofsWriteFile (by decide))
  have := hr.result
  omega

end Messaround.Aofs
