import Messaround.Aofs.Write

/-!
Small disks: the blank one, and those with one file.

What a single file on the disk makes simple is which blocks are in use: those of its chain.
-/

namespace Messaround.Aofs

open Messaround.CInt Messaround.Segment Disk

/-! ### Blank disks -/

/-- The superblock that `init_fs` fills in. -/
def initialSuperBlock : SuperBlock :=
  ⟨MAGICNUM, .ofNat BLOCK_NUM, .ofNat BLOCK_SIZE, .replicate BITMAP_SIZE 0⟩

/-- A disk with the initial superblock: no block is in use. -/
def Blank (d : Disk) : Prop := d.sb = initialSuperBlock

namespace Blank

variable {d : Disk} (hd : Blank d)
include hd

lemma not_allocated (i : Fin BLOCK_NUM) : ¬ d.Allocated i := by
  rw [not_allocated_iff, hd, initialSuperBlock, isSet, Vector.getElem?_replicate]
  split <;> exact Nat.zero_testBit _

lemma total : d.sb.totalblocks.toNat = BLOCK_NUM := by
  rw [hd, initialSuperBlock]
  rfl

lemma not_isHead (h : Fin BLOCK_NUM) : ¬ d.IsHead h := fun hh => hd.not_allocated h hh.1

lemma linked : d.Linked :=
  ⟨hd.total.le, fun h hh => absurd hh (hd.not_isHead h), fun h hh => absurd hh (hd.not_isHead h),
    fun h _ hh => absurd hh (hd.not_isHead h), fun i hi => absurd hi (hd.not_allocated i),
    fun h hh => absurd hh (hd.not_isHead h), fun h hh => absurd hh (hd.not_isHead h)⟩

lemma sized : d.Sized := fun h hh => absurd hh (hd.not_isHead h)

lemma wellFormed : d.WellFormed :=
  ⟨hd.linked, hd.sized, fun h _ hh => absurd hh (hd.not_isHead h),
    fun h hh => absurd hh (hd.not_isHead h)⟩

lemma lookup (p : CStr) : d.lookup p = none :=
  lookup_eq_none.mpr fun h hf => hd.not_isHead h hf.1

lemma freeCount : d.freeCount = BLOCK_NUM := by
  have hall : Finset.univ.filter d.IsFree = Finset.univ :=
    Finset.filter_true_of_mem fun i _ => ⟨hd.not_allocated i, by rw [hd.total]; exact i.isLt⟩
  rw [Disk.freeCount, hall, Finset.card_univ, Fintype.card_fin]

end Blank

/-! ### Disks with one file -/

/-- The file `p` with head `h` is all there is on the disk. -/
structure OnlyFile (d : Disk) (p : CStr) (h : Fin BLOCK_NUM) : Prop where
  linked : d.Linked
  total : d.sb.totalblocks.toNat = BLOCK_NUM
  file : d.IsFile p h
  all : ∀ i, d.Allocated i ↔ i ∈ d.chain h

namespace OnlyFile

variable {d d' : Disk} {p : CStr} {h : Fin BLOCK_NUM} (ho : OnlyFile d p h)
include ho

lemma isHead_iff (g : Fin BLOCK_NUM) : d.IsHead g ↔ g = h :=
  ⟨fun hg => ho.linked.heads h ho.file.1 g ((ho.all g).mp hg.1) hg.2,
    fun hg => by rw [hg]; exact ho.file.1⟩

lemma lookup : d.lookup p = some h :=
  lookup_of_unique ho.file fun g hg => (ho.isHead_iff g).mp hg.1

lemma lookup_none {q : CStr} (hq : q ≠ p) : d.lookup q = none := by
  refine lookup_eq_none.mpr fun g hf => hq ?_
  rw [(ho.isHead_iff g).mp hf.1] at hf
  exact hf.2.symm.trans ho.file.2

lemma wellFormed (hp : p.length ≤ MAX_FILENAME)
    (hs : (d.blocks h).dbm.st_size ≤ (d.chain h).length * BLOCK_DATA) : d.WellFormed := by
  refine ⟨ho.linked, fun g hg => ?_, fun g k hg hk _ => ?_, fun g hg => ?_⟩
  · rw [(ho.isHead_iff g).mp hg]; exact hs
  · rw [(ho.isHead_iff g).mp hg, (ho.isHead_iff k).mp hk]
  · rw [(ho.isHead_iff g).mp hg, ho.file.2]; exact hp

lemma freeCount : d.freeCount + (d.chain h).length = BLOCK_NUM := by
  have hused : (Finset.univ.filter d.IsFree)ᶜ = (d.chain h).toFinset := by
    ext i
    have htot : (i : ℕ) < d.sb.totalblocks.toNat := by rw [ho.total]; exact i.isLt
    simp only [Finset.mem_compl, Finset.mem_filter_univ, List.mem_toFinset, IsFree, ho.all, htot,
      and_true, not_not]
  have hcard := Finset.card_add_card_compl (Finset.univ.filter d.IsFree)
  rw [hused, List.toFinset_card_of_nodup (ho.linked.ends h ho.file.1).nodup,
    Fintype.card_fin] at hcard
  exact hcard

lemma rewrites {c : List (Fin BLOCK_NUM)} (hr : Rewrites d d' p h (d.chain h) c) (hc : c ≠ []) :
    OnlyFile d' p h := by
  have hh := hr.isHead ho.linked hc
  refine ⟨hr.linked ho.linked, by rw [hr.edit.total, ho.total], ⟨hh, hr.after hh⟩, fun i => ?_⟩
  rw [hr.edit.alloc, hr.chain_eq ho.linked hh, ho.all]
  exact ⟨fun hi => hi.elim id fun ⟨h1, h2⟩ => absurd h2 h1, Or.inl⟩

end OnlyFile

/-- The first file. -/
lemma Blank.onlyFile {d : Disk} {p : CStr} {h : Fin BLOCK_NUM} {b : Block} (hd : Blank d)
    (hb : NewHead b p) : OnlyFile ((d.mark h).put h b) p h := by
  have hfree : d.IsFree h := ⟨hd.not_allocated h, by rw [hd.total]; exact h.isLt⟩
  refine ⟨(rewrites_new hfree hb).linked hd.linked, hd.total, isFile_new hb, fun i => ?_⟩
  rw [chain_new hfree hb hd.linked, allocated_put, allocated_mark, List.mem_singleton]
  exact or_iff_left (hd.not_allocated i)

/-- A write to a blank disk makes a file with as many blocks as its bytes need. -/
lemma Blank.safe_write {d : Disk} {p : CStr} {buf : ℕ → UInt8} {n : ℕ}
    {Q : ℤ → Disk → Prop} (hd : Blank d) (hp : p.length ≤ MAX_FILENAME) (hn : 0 < n)
    (hn' : n ≤ BLOCK_NUM * BLOCK_DATA)
    (hQ : ∀ d' h, OnlyFile d' p h → (d'.blocks h).dbm.st_size = n →
      n ≤ (d'.chain h).length * BLOCK_DATA → ((d'.chain h).length - 1) * BLOCK_DATA < n →
      Q n d') : Safe (aofsWriteFile p buf n 0) d Q := by
  have hint : n ≤ INT_MAX := hn'.trans (by decide)
  refine safe_aofsWriteFile_new hd.linked (hd.lookup p) hp hint (Nat.zero_le OFF_MAX)
    (by rw [hd.freeCount]; decide) (by rw [hd.freeCount]; exact hn') fun d' i b new hi hb hw => ?_
  have ho := hd.onlyFile (h := i) hb
  have hchain := chain_new hi.1 hb hd.linked
  have hroom := hw.room hn
  have htight := hw.tight
  have ho' := ho.rewrites hw.rewrites (by rw [hchain]; simp)
  have hch := hw.rewrites.chain_eq ho.linked ho'.file.1
  rw [hchain, zero_add] at hroom htight
  refine hQ d' i ho' (by rw [hw.size, zero_add]) ?_ ?_
  · rw [hch, hchain, List.length_append]; exact hroom
  · rw [hch, hchain, List.length_append]
    rcases htight with rfl | ht
    · simpa using hn
    · exact ht

/-! ### A file of one block -/

/-- The path `/a`. -/
def slashA : CStr := ⟨[47, 97], by simp⟩

/-- The path `/b`. -/
def slashB : CStr := ⟨[47, 98], by simp⟩

/-- The head block of `/a`, of size `size` and with the data `data`. -/
def headA (size : ℤ) (data : Vector UInt8 BLOCK_DATA) : Block :=
  let b := (default : Block).strcpyFilename slashA
  { b with dbm.next := -1, dbm.head := 1, dbm.st_size := size, data := data }

/-- The disk with the one file `/a`, in block 0. -/
def diskA (size : ℤ) (data : Vector UInt8 BLOCK_DATA) : Disk :=
  (Disk.mark ⟨initialSuperBlock, fun _ => default, []⟩ 0).put 0 (headA size data)

lemma headA_name (size : ℤ) (data : Vector UInt8 BLOCK_DATA) : (headA size data).name = slashA := by
  have hs : slashA.length ≤ MAX_FILENAME := by decide
  exact Block.name_eq hs ((default : Block).name_strcpyFilename hs) rfl

lemma diskA_onlyFile {size : ℤ} (h0 : 0 ≤ size) (data : Vector UInt8 BLOCK_DATA) :
    OnlyFile (diskA size data) slashA 0 ∧ (diskA size data).chain 0 = [0] := by
  have hblank : Blank ⟨initialSuperBlock, fun _ => default, []⟩ := rfl
  have hb : NewHead (headA 0 (.replicate BLOCK_DATA 0)) slashA :=
    ⟨headA_name _ _, rfl, (by decide : (1 : UInt8) ≠ 0), rfl, rfl⟩
  have ho := hblank.onlyFile (h := 0) hb
  have hc := chain_new ⟨hblank.not_allocated 0, by rw [hblank.total]; decide⟩ hb hblank.linked
  have hr := rewrites_head (b := headA size data) ho.linked ho.file.1 ho.file.2
    (headA_name size data) (by rw [put_blocks_self]; rfl) (by decide : (1 : UInt8) ≠ 0) h0
  rw [put_put, hc] at hr
  have ho' := ho.rewrites (by rw [hc]; exact hr) (by simp)
  exact ⟨ho', hr.chain_eq ho.linked ho'.file.1⟩

@[simp] lemma diskA_block (size : ℤ) (data : Vector UInt8 BLOCK_DATA) :
    (diskA size data).blocks 0 = headA size data := put_blocks_self ..

lemma diskA_size (size : ℤ) (data : Vector UInt8 BLOCK_DATA) :
    ((diskA size data).blocks 0).dbm.st_size = size := by
  rw [diskA_block]; rfl

lemma diskA_freeCount {size : ℤ} (h0 : 0 ≤ size) (data : Vector UInt8 BLOCK_DATA) :
    (diskA size data).freeCount = 4095 := by
  obtain ⟨ho, hc⟩ := diskA_onlyFile h0 data
  have hcount := ho.freeCount
  rw [hc, List.length_singleton] at hcount
  simp only [BLOCK_NUM] at hcount
  omega

lemma diskA_wellFormed {size : ℤ} (h0 : 0 ≤ size) (hs : size ≤ BLOCK_DATA)
    (data : Vector UInt8 BLOCK_DATA) : (diskA size data).WellFormed := by
  obtain ⟨ho, hc⟩ := diskA_onlyFile h0 data
  refine ho.wellFormed (by decide) ?_
  rw [diskA_size, hc, List.length_singleton, Nat.cast_one, one_mul]
  exact hs

/-! ### A file of two blocks -/

/-- The second block of `/a`. -/
def tailA : Block :=
  let b := (default : Block).strcpyFilename slashA
  { b with dbm.next := -1, dbm.head := 0 }

/-- The disk with the first block of a file `/a` of 4000 bytes. -/
def firstOfTwo : Disk := diskA 4000 (.replicate BLOCK_DATA 0)

/-- The disk with the one file `/a` of 4000 bytes, in the blocks 0 and 1. -/
def twoBlocks : Disk :=
  ((firstOfTwo.mark 1).put 0 { headA 4000 (.replicate BLOCK_DATA 0) with dbm.next := 1 }).put 1
    tailA

lemma twoBlocks_head : twoBlocks.blocks 0 =
    { headA 4000 (.replicate BLOCK_DATA 0) with dbm.next := 1 } := by
  rw [twoBlocks, put_blocks_of_ne _ _ (by decide), put_blocks_self]

lemma twoBlocks_tail : twoBlocks.blocks 1 = tailA := put_blocks_self ..

lemma twoBlocks_onlyFile : OnlyFile twoBlocks slashA 0 ∧ twoBlocks.chain 0 = [0, 1] := by
  obtain ⟨ho, hc⟩ : OnlyFile firstOfTwo slashA 0 ∧ firstOfTwo.chain 0 = [0] :=
    diskA_onlyFile (by decide) _
  have hhead : (firstOfTwo.blocks 0) = headA 4000 (.replicate BLOCK_DATA 0) := diskA_block ..
  have hr : Rewrites firstOfTwo twoBlocks slashA 0 (firstOfTwo.chain 0)
      (firstOfTwo.chain 0 ++ [1]) := by
    refine rewrites_append ho.linked ho.file (by decide) rfl ?_ (fun j => ?_) ?_ ?_ ?_ ?_ ?_ ?_
    · intro j h0 h1
      rw [hc, List.mem_singleton] at h0
      rw [twoBlocks, put_blocks_of_ne _ _ (by simpa using h1), put_blocks_of_ne _ _ h0, mark_blocks]
    · rw [twoBlocks, allocated_put, allocated_put, allocated_mark, List.mem_singleton]
    · intro j hj
      rw [List.mem_singleton.mp hj, ho.all, hc]
      decide
    · rw [hc]
      refine seg_cons.mpr ⟨rfl, seg_cons.mpr ⟨?_, ?_⟩⟩
      · rw [Disk.next, twoBlocks_head]
        rfl
      · rw [Disk.next, twoBlocks_tail]
        exact seg_nil.mpr rfl
    · intro j hj
      rw [hc, List.mem_singleton] at hj
      rw [hj, twoBlocks_head, hhead]
    · intro j hj
      rw [List.mem_singleton.mp hj, twoBlocks_tail]
      rfl
    · rw [twoBlocks_head, hhead]
    · rw [twoBlocks_head]
      decide
  have ho' := ho.rewrites hr (by simp)
  refine ⟨ho', (hr.chain_eq ho.linked ho'.file.1).trans ?_⟩
  rw [hc]
  rfl

lemma twoBlocks_size : (twoBlocks.blocks 0).dbm.st_size = 4000 := by
  rw [twoBlocks_head]
  rfl

lemma twoBlocks_wellFormed : twoBlocks.WellFormed := by
  refine twoBlocks_onlyFile.1.wellFormed (by decide) ?_
  rw [twoBlocks_size, twoBlocks_onlyFile.2]
  decide

end Messaround.Aofs
