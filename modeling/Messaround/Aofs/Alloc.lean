import Messaround.Aofs.Rules

/-!
The allocator, the search for a file, and the deletion of a chain.
-/

namespace Messaround.Aofs

open Messaround.CInt Messaround.Segment Disk

namespace Disk

/-- The disk with the bit of block `i` set. -/
def mark (d : Disk) (i : Fin BLOCK_NUM) : Disk :=
  { d with sb.bitmap := (setBit d.sb.bitmap i).2 }

/-- The disk with the bit of block `i` clear. -/
def unmark (d : Disk) (i : Fin BLOCK_NUM) : Disk :=
  { d with sb.bitmap := (clearBit d.sb.bitmap i).2 }

variable {d : Disk} {i j : Fin BLOCK_NUM} {b : Block}

@[simp] lemma mark_blocks : (d.mark i).blocks = d.blocks := rfl
@[simp] lemma mark_total : (d.mark i).sb.totalblocks = d.sb.totalblocks := rfl
@[simp] lemma unmark_blocks : (d.unmark i).blocks = d.blocks := rfl

lemma allocated_iff : d.Allocated i ↔ isSet d.sb.bitmap i = true := bitAt_eq_one

lemma not_allocated_iff : ¬ d.Allocated i ↔ isSet d.sb.bitmap i = false := by
  rw [allocated_iff, Bool.not_eq_true]

@[simp] lemma allocated_put : (d.put i b).Allocated j ↔ d.Allocated j := Iff.rfl

lemma val_lt (i : Fin BLOCK_NUM) : (i : ℕ) < 8 * BITMAP_SIZE := by
  have := i.isLt
  simp only [BLOCK_NUM, BITMAP_SIZE] at this ⊢; omega

@[simp] lemma allocated_mark : (d.mark i).Allocated j ↔ j = i ∨ d.Allocated j := by
  rw [allocated_iff, allocated_iff, mark, isSet_setBit (val_lt i)]
  simp [Fin.ext_iff]

@[simp] lemma allocated_unmark : (d.unmark i).Allocated j ↔ j ≠ i ∧ d.Allocated j := by
  rw [allocated_iff, allocated_iff, unmark, isSet_clearBit (val_lt i)]
  simp [Fin.ext_iff]

/-- The block that `allocate_block` takes: the first free one. -/
def FirstFree (d : Disk) (i : Fin BLOCK_NUM) : Prop :=
  d.IsFree i ∧ ∀ j < i, d.Allocated j

lemma IsFree.of_mark (hj : (d.mark i).IsFree j) : d.IsFree j :=
  ⟨fun ha => hj.1 (allocated_mark.mpr (Or.inr ha)), hj.2⟩

lemma freeCount_mark (hi : d.IsFree i) : ((d.mark i).put i b).freeCount + 1 = d.freeCount := by
  have hset : (Finset.univ.filter ((d.mark i).put i b).IsFree) =
      (Finset.univ.filter d.IsFree).erase i := by
    ext j
    simp only [Finset.mem_filter_univ, Finset.mem_erase, IsFree, allocated_put, allocated_mark,
      put_sb, mark_total, not_or, and_assoc]
  rw [freeCount, freeCount, hset]
  exact Finset.card_erase_add_one (by simpa using hi)

@[simp] lemma freeCount_put : (d.put i b).freeCount = d.freeCount := rfl

lemma exists_free (h : 0 < d.freeCount) : ∃ i, d.IsFree i := by
  obtain ⟨i, hi⟩ := Finset.card_pos.mp h
  exact ⟨i, by simpa using hi⟩

end Disk

/-! ### The allocator -/

variable {d : Disk}

lemma toInt_total (ht : d.sb.totalblocks.toNat ≤ BLOCK_NUM) :
    toInt d.sb.totalblocks.toNat = d.sb.totalblocks.toNat := by
  simp only [BLOCK_NUM] at ht
  exact toInt_of_range (by omega) (by omega)

lemma findFreeBit_disk (ht : d.sb.totalblocks.toNat ≤ BLOCK_NUM) :
    (∃ i, d.FirstFree i ∧ findFreeBit d.sb.bitmap (toInt d.sb.totalblocks.toNat) = addr i) ∨
      (d.freeCount = 0 ∧ findFreeBit d.sb.bitmap (toInt d.sb.totalblocks.toNat) = -1) := by
  rw [toInt_total ht]
  rcases findFreeBit_cases d.sb.bitmap d.sb.totalblocks.toNat with hf | ⟨k, hk⟩
  · refine Or.inr ⟨?_, hf⟩
    by_contra hpos
    obtain ⟨i, hna, hlt⟩ := exists_free (Nat.pos_of_ne_zero hpos)
    rw [not_allocated_iff, findFreeBit_eq_none.mp hf i (by omega)] at hna
    cases hna
  · obtain ⟨h1, h2, h3⟩ := findFreeBit_eq_some.mp hk
    have hlt : k < BLOCK_NUM := by omega
    refine Or.inl ⟨⟨k, hlt⟩, ⟨⟨not_allocated_iff.mpr h2, ?_⟩, ?_⟩, hk⟩
    · simpa using h1
    · intro j hj
      exact allocated_iff.mpr (h3 j hj)

/-- `allocate_block` takes the first free block and leaves it cleared, or returns `-1` and
leaves the disk as it is when there is none. -/
lemma safe_allocateBlock {Q : ℤ → Disk → Prop} (ht : d.sb.totalblocks.toNat ≤ BLOCK_NUM)
    (hfree : ∀ i b, d.FirstFree i → Cleared b → Q (addr i) ((d.mark i).put i b))
    (hfull : d.freeCount = 0 → Q (-1) d) : Safe allocateBlock d Q := by
  refine safe_bind (safe_readSuperBlock ?_)
  rcases findFreeBit_disk ht with ⟨i, hi, hf⟩ | ⟨h0, hf⟩
  · rw [hf]
    simp only [addr_ne i, if_false]
    refine safe_bind (safe_writeSuperBlock rfl ?_)
    refine safe_bind (safe_newBlock fun b0 => safe_bind (safe_clearBlock fun b hb => ?_))
    refine safe_bind (safe_time fun t1 => safe_bind (safe_time fun t2 => ?_))
    refine safe_bind (safe_time fun t3 => safe_bind (safe_time fun t4 => ?_))
    exact safe_bind (safe_writeBlock (safe_ret (hfree i _ hi (hb.congr rfl rfl rfl rfl rfl))))
  · rw [hf]
    exact safe_ret (hfull h0)

/-- `deallocate_block` clears the block and its bit and returns the next block. -/
lemma safe_deallocateBlock {i : Fin BLOCK_NUM} {Q : ℤ → Disk → Prop}
    (h : ∀ b, Cleared b → Q (d.next i) ((d.put i b).unmark i)) :
    Safe (deallocateBlock (addr i)) d Q := by
  unfold deallocateBlock
  rw [if_neg (addr_nonneg i)]
  refine safe_bind (safe_readSuperBlock (safe_bind (safe_newBlock fun b0 => ?_)))
  refine safe_bind (safe_readBlock (safe_bind (safe_clearBlock fun b hb => ?_)))
  exact safe_bind (safe_writeBlock (safe_bind (safe_writeSuperBlock rfl (safe_ret (h b hb)))))

/-! ### The search for a file -/

lemma safe_findLoop {filename : CStr} {block b : Block} {Q : ℤ × Block → Disk → Prop}
    {todo blockNum : ℕ} (hsum : blockNum + todo = BLOCK_NUM)
    (hbefore : ∀ g : Fin BLOCK_NUM, (g : ℕ) < blockNum → ¬ d.IsFile filename g)
    (hfound : ∀ h, d.IsFile filename h → (∀ g < h, ¬ d.IsFile filename g) →
      Q (addr h, d.blocks h) d)
    (hnone : (∀ h, ¬ d.IsFile filename h) → Q (-1, block) d) :
    Safe (findLoop d.sb.bitmap filename block todo blockNum b) d Q := by
  induction todo generalizing blockNum b with
  | zero => exact safe_ret (hnone fun h => hbefore h (by omega))
  | succ todo ih =>
    obtain ⟨i, hi⟩ : ∃ i : Fin BLOCK_NUM, (i : ℕ) = blockNum := ⟨⟨blockNum, by omega⟩, rfl⟩
    -- the next block, when this one is not the file
    have hnext : ¬ d.IsFile filename i → ∀ g : Fin BLOCK_NUM, (g : ℕ) < blockNum + 1 →
        ¬ d.IsFile filename g := by
      intro hno g hg
      by_cases hgi : g = i
      · rw [hgi]; exact hno
      · exact hbefore g (by have : (g : ℕ) ≠ i := fun h => hgi (Fin.ext h); omega)
    unfold findLoop
    split
    · rename_i hbit
      have hbit' : d.Allocated i := by
        rw [Disk.Allocated, hi]
        rw [bitAt_eq] at hbit ⊢
        cases hs : isSet d.sb.bitmap blockNum <;> simp [hs] at hbit ⊢
      have haddr : (blockNum : ℤ) = addr i := by rw [addr, hi]
      rw [haddr]
      refine safe_bind (safe_readBlock ?_)
      split
      · rename_i hfile
        exact safe_ret (hfound i ⟨⟨hbit', hfile.1⟩, hfile.2⟩ fun g hg => hbefore g (by omega))
      · rename_i hno
        exact ih (by omega) (hnext fun hf => hno ⟨hf.1.2, hf.2⟩)
    · rename_i hbit
      refine ih (by omega) (hnext fun hf => hbit ?_)
      have : bitAt d.sb.bitmap i = 1 := hf.1.1
      rw [← hi, this]; decide

lemma safe_aofsFindFileHead {filename : CStr} {block : Block} {Q : ℤ × Block → Disk → Prop}
    (hfound : ∀ h, d.lookup filename = some h → Q (addr h, d.blocks h) d)
    (hnone : d.lookup filename = none → Q (-1, block) d) :
    Safe (aofsFindFileHead filename block) d Q := by
  refine safe_bind (safe_readSuperBlock (safe_bind (safe_newBlock fun b => ?_)))
  refine safe_findLoop (by omega) (fun g hg => absurd hg (by omega)) ?_ ?_
  · exact fun h hf hlt => hfound h (lookup_eq_some.mpr ⟨hf, hlt⟩)
  · exact fun hno => hnone (lookup_eq_none.mpr hno)

lemma safe_find_found {filename : CStr} {block : Block} {h : Fin BLOCK_NUM}
    {Q : ℤ × Block → Disk → Prop} (hf : d.lookup filename = some h)
    (hQ : Q (addr h, d.blocks h) d) : Safe (aofsFindFileHead filename block) d Q := by
  refine safe_aofsFindFileHead (fun g hg => ?_) fun hno => ?_
  · obtain rfl : h = g := Option.some.inj (hf.symm.trans hg)
    exact hQ
  · rw [hf] at hno; cases hno

lemma safe_find_missing {filename : CStr} {block : Block} {Q : ℤ × Block → Disk → Prop}
    (hf : d.lookup filename = none) (hQ : Q (-1, block) d) :
    Safe (aofsFindFileHead filename block) d Q :=
  safe_aofsFindFileHead (fun h hh => by rw [hf] at hh; cases hh) fun _ => hQ

lemma safe_printLoop {bitmap : Vector UInt8 BITMAP_SIZE} {Q : Unit → Disk → Prop} {todo b : ℕ}
    {block : Block} (h : Q () d) : Safe (printLoop bitmap todo b block) d Q := by
  induction todo generalizing b block with
  | zero => exact safe_ret h
  | succ todo ih =>
    unfold printLoop
    split
    · exact safe_bind (safe_readBlock_any fun _ => ih)
    · exact ih

lemma safe_printAofs {Q : Unit → Disk → Prop} (h : Q () d) : Safe printAofs d Q :=
  safe_bind (safe_readSuperBlock (safe_bind (safe_newBlock fun _ => safe_printLoop h)))

/-! ### Creating a file -/

/-- The head block of a new file. -/
structure NewHead (b : Block) (p : CStr) : Prop where
  name : b.name = p
  next : b.dbm.next = -1
  head : b.dbm.head ≠ 0
  size : b.dbm.st_size = 0
  data : b.data = .replicate BLOCK_DATA 0

lemma newHead_of_cleared {b : Block} {p : CStr} (hp : p.length ≤ MAX_FILENAME) (hb : Cleared b) :
    NewHead { b.strcpyFilename p with dbm.head := 1 } p := by
  refine ⟨Block.name_eq hp (b.name_strcpyFilename hp) rfl, ?_, ?_, ?_, ?_⟩
  · rw [b.strcpyFilename_short hp]; exact hb.next
  · exact (by decide : (1 : UInt8) ≠ 0)
  · rw [b.strcpyFilename_short hp]; exact hb.size
  · rw [b.strcpyFilename_short hp]; exact hb.data

lemma Disk.put_put (i : Fin BLOCK_NUM) (b b' : Block) : (d.put i b).put i b' = d.put i b' := by
  simp only [Disk.put, Function.update_idem]

/-- `aofs_create_file` makes the first free block a file of size 0, or returns `-1` and
leaves the disk as it is when there is none. -/
lemma safe_aofsCreateFile {p : CStr} {Q : ℤ → Disk → Prop} (hp : p.length ≤ MAX_FILENAME)
    (ht : d.sb.totalblocks.toNat ≤ BLOCK_NUM)
    (hfree : ∀ i b, d.FirstFree i → NewHead b p → Q (addr i) ((d.mark i).put i b))
    (hfull : d.freeCount = 0 → Q (-1) d) : Safe (aofsCreateFile p) d Q := by
  refine safe_bind (safe_allocateBlock ht (fun i b0 hi _ => ?_) fun h0 => ?_)
  · rw [if_neg (addr_ne i)]
    refine safe_bind (safe_newBlock fun b1 => safe_bind (safe_clearBlock fun b hb => ?_))
    refine safe_bind (safe_writeBlock (safe_ret ?_))
    rw [put_put]
    exact hfree i _ hi (newHead_of_cleared hp hb)
  · rw [if_pos rfl]
    exact safe_ret (hfull h0)

/-! ### Deleting a chain -/

/-- The disk `d'` is `d` with the blocks of `s` wiped and their bits clear; the other blocks
and bits, and all there is besides, are as before. -/
structure Freed (d d' : Disk) (s : Fin BLOCK_NUM → Prop) : Prop where
  wiped : ∀ i, s i → Cleared (d'.blocks i) ∧ ¬ d'.Allocated i
  kept : ∀ i, ¬ s i → d'.blocks i = d.blocks i
  bits : ∀ k : ℕ, (∀ i : Fin BLOCK_NUM, s i → (i : ℕ) ≠ k) →
    isSet d'.sb.bitmap k = isSet d.sb.bitmap k
  superBlock : d'.sb = { d.sb with bitmap := d'.sb.bitmap }
  beyond : d'.beyond = d.beyond

section freed

variable {d' : Disk} {i : Fin BLOCK_NUM} {b : Block} {s : Fin BLOCK_NUM → Prop}

lemma Freed.refl (d : Disk) (hs : ∀ i, ¬ s i) : Freed d d s :=
  ⟨fun i hi => absurd hi (hs i), fun _ _ => rfl, fun _ _ => rfl, rfl, rfl⟩

lemma Freed.congr {s' : Fin BLOCK_NUM → Prop} (h : Freed d d' s) (hs : ∀ i, s i ↔ s' i) :
    Freed d d' s' := by
  obtain rfl : s = s' := funext fun i => propext (hs i)
  exact h

lemma Freed.allocated_iff (h : Freed d d' s) (hi : ¬ s i) : d'.Allocated i ↔ d.Allocated i := by
  rw [Disk.allocated_iff, Disk.allocated_iff, h.bits i fun j hj hji => hi (Fin.ext hji ▸ hj)]

lemma Freed.cons (hb : Cleared b) (h : Freed ((d.put i b).unmark i) d' s) :
    Freed d d' fun j => j = i ∨ s j := by
  have hself : Cleared (d'.blocks i) ∧ ¬ d'.Allocated i := by
    by_cases hi : s i
    · exact h.wiped i hi
    · refine ⟨?_, fun ha => ?_⟩
      · rw [h.kept i hi, unmark_blocks, put_blocks_self]; exact hb
      · rw [h.allocated_iff hi, allocated_unmark] at ha
        exact ha.1 rfl
  refine ⟨fun j hj => ?_, fun j hj => ?_, fun k hk => ?_, h.superBlock, h.beyond⟩
  · rcases hj with rfl | hj
    · exact hself
    · exact h.wiped j hj
  · rw [not_or] at hj
    rw [h.kept j hj.2, unmark_blocks, put_blocks_of_ne _ _ hj.1]
  · have hki : ¬ k = i := fun hki => hk i (Or.inl rfl) hki.symm
    rw [h.bits k fun j hj => hk j (Or.inr hj), unmark, isSet_clearBit (val_lt i)]
    simp [hki]

end freed

lemma safe_deleteChain_step {i : Fin BLOCK_NUM} {fuel : ℕ} {Q : Unit → Disk → Prop}
    (h : ∀ b, Cleared b → Safe (deleteChain fuel (d.next i)) ((d.put i b).unmark i) Q) :
    Safe (deleteChain (fuel + 1) (addr i)) d Q := by
  unfold deleteChain
  rw [if_neg (addr_ne i)]
  exact safe_bind (safe_deallocateBlock h)

lemma safe_deleteChain_end {fuel : ℕ} {Q : Unit → Disk → Prop} (h : Q () d) :
    Safe (deleteChain fuel (-1)) d Q := by
  unfold deleteChain
  exact safe_ret h

/-- **`delete_chain` frees the blocks of a chain**, and no other. -/
theorem safe_deleteChain_freed {c : List (Fin BLOCK_NUM)} {p : ℤ} {fuel : ℕ}
    {Q : Unit → Disk → Prop} (hc : d.Chain p c) (hf : c.length ≤ fuel)
    (hQ : ∀ d', Freed d d' (· ∈ c) → Q () d') : Safe (deleteChain fuel p) d Q := by
  induction c generalizing d p fuel Q with
  | nil =>
    rw [seg_nil.mp hc]
    exact safe_deleteChain_end (hQ d (.refl d (by simp)))
  | cons i c ih =>
    obtain ⟨rfl, hc'⟩ := seg_cons.mp hc
    have hi : i ∉ c := (List.nodup_cons.mp hc.nodup).1
    obtain ⟨fuel, rfl⟩ : ∃ k, fuel = k + 1 := ⟨fuel - 1, by simp at hf; omega⟩
    refine safe_deleteChain_step fun b hb => ih ?_ (by simpa using hf) fun d' hd => ?_
    · -- the rest of the chain does not pass the block just cleared
      refine (chain_congr fun j hj => ?_).mpr hc'
      have hji : j ≠ i := fun h => hi (h ▸ hj)
      rw [Disk.next, Disk.next, unmark_blocks, put_blocks_of_ne _ _ hji]
    · exact hQ d' ((hd.cons hb).congr fun j => List.mem_cons.symm)

/-- The disk `d'` is `d` with the blocks `c` cleared and free. -/
structure Wiped (d d' : Disk) (c : List (Fin BLOCK_NUM)) : Prop where
  total : d'.sb.totalblocks = d.sb.totalblocks
  frame : ∀ i, i ∉ c → d'.blocks i = d.blocks i
  alloc : ∀ i, d'.Allocated i ↔ i ∉ c ∧ d.Allocated i
  cleared : ∀ i ∈ c, Cleared (d'.blocks i)

lemma Freed.toWiped {d' : Disk} {c : List (Fin BLOCK_NUM)} (h : Freed d d' (· ∈ c)) :
    Wiped d d' c := by
  refine ⟨by rw [h.superBlock], h.kept, fun i => ?_, fun i hi => (h.wiped i hi).1⟩
  by_cases hi : i ∈ c
  · exact iff_of_false (h.wiped i hi).2 fun ha => ha.1 hi
  · rw [h.allocated_iff hi]
    exact ⟨fun ha => ⟨hi, ha⟩, fun ha => ha.2⟩

end Messaround.Aofs
