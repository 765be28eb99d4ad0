import Messaround.Aofs.Runs

/-!
What holds of the disk in every run from the image.

The chains stay sound as long as every write finds its free blocks, and sizes fit their
chains as long as a growing truncate links in what the new size needs. A write that leaves
its chain stores into block `-1`, the place of the bitmap.
-/

namespace Messaround.Aofs

open Messaround.CInt Messaround.Segment Disk

/-! ### Three calls -/

/-- One block full of zeros is written to `/a`, and then the file grows by one byte. -/
def fillBlock : Op := .write slashA (fun _ => 0) BLOCK_DATA 0
def growByOne : Op := .truncate slashA (BLOCK_DATA + 1)

lemma fillBlock_valid : fillBlock.Valid := by
  refine ⟨?_, ?_, ?_⟩ <;> decide

lemma growByOne_valid : growByOne.Valid :=
  ⟨by decide, show BLOCK_DATA + 1 ≤ OFF_MAX by decide⟩

/-- One byte is written behind the only block of `/a`. -/
def writeBehind : Op := .write slashA (fun _ => 0) 1 (BLOCK_DATA + 1)

lemma writeBehind_valid : writeBehind.Valid :=
  ⟨by decide, show 1 ≤ INT_MAX ∧ BLOCK_DATA + 1 ≤ OFF_MAX by decide⟩

/-- The first call leaves a file of exactly one block. -/
lemma exists_filled : ∃ d₀ d₁ h, Image d₀ ∧ fillBlock.Leaves d₀ d₁ ∧ OnlyFile d₁ slashA h ∧
    (d₁.blocks h).dbm.st_size = (BLOCK_DATA : ℕ) ∧ d₁.chain h = [h] := by
  obtain ⟨d₀, h0⟩ := exists_image
  have hw : Safe (fillBlock.code 0) d₀ fun _ d₁ => ∃ h, OnlyFile d₁ slashA h ∧
      (d₁.blocks h).dbm.st_size = (BLOCK_DATA : ℕ) ∧ d₁.chain h = [h] := by
    refine h0.blank.safe_write (by decide) (by decide) (by decide) fun d₁ h ho hs _ h2 => ?_
    obtain ⟨c, hc, -, -⟩ := ho.linked.chain_cons ho.file.1
    rw [hc, List.length_cons] at h2
    have hlen : c.length < 1 := Nat.lt_of_mul_lt_mul_right (a := BLOCK_DATA) (by simpa using h2)
    rw [List.length_eq_zero_iff.mp (Nat.lt_one_iff.mp hlen)] at hc
    exact ⟨h, ho, hs, hc⟩
  obtain ⟨_, d₁, hl₁, h, ho, hs, hc⟩ := Op.exists_leaves hw.ends
  exact ⟨d₀, d₁, h, h0, hl₁, ho, hs, hc⟩

lemma reached_filled {ok : Disk → Op → Prop} {d₀ d₁ : Disk} (h0 : Image d₀)
    (hok : ok d₀ fillBlock) (h1 : fillBlock.Leaves d₀ d₁) : Reached ok d₁ :=
  (Reached.image h0).step fillBlock_valid hok h1

lemma fillBlock_room {d₀ : Disk} (h0 : Image d₀) : fillBlock.Room d₀ := by
  refine ⟨fun h hh => ?_, fun _ => ?_⟩
  · rw [h0.blank.lookup] at hh; cases hh
  · rw [h0.blank.freeCount]; decide

/-- Growing a file of exactly one block by a byte links in no block. -/
lemma exists_outgrown : ∃ d₀ d₁ d₂ h, Image d₀ ∧ fillBlock.Leaves d₀ d₁ ∧
    growByOne.Leaves d₁ d₂ ∧ OnlyFile d₂ slashA h ∧
      (d₂.blocks h).dbm.st_size = (BLOCK_DATA + 1 : ℕ) ∧ d₂.chain h = [h] := by
  obtain ⟨d₀, d₁, h, h0, hl₁, ho, hs, hc⟩ := exists_filled
  have ht : Safe (growByOne.code BLOCK_NUM) d₁ fun _ d₂ => OnlyFile d₂ slashA h ∧
      (d₂.blocks h).dbm.st_size = (BLOCK_DATA + 1 : ℕ) ∧ d₂.chain h = [h] := by
    have hm : missingBlocks (BLOCK_DATA : ℕ) (BLOCK_DATA + 1 : ℕ) = 0 := by decide
    refine safe_aofsTruncateFile ho.linked ho.lookup (by decide) le_rfl (by decide)
      (fun hlt _ => ?_) fun r d₂ h2 => ?_
    · rw [hs] at hlt; exact absurd hlt (by decide)
    · cases h2 with
      | kept _ _ hless _ => rw [hs] at hless; exact absurd hless (by decide)
      | cut _ _ _ hless _ _ => rw [hs] at hless; exact absurd hless (by decide)
      | grown new hr hsize _ _ hlen _ =>
        rw [hs, hm] at hlen
        rw [List.length_eq_zero_iff.mp hlen, List.append_nil, hc] at hr
        have ho₂ := ho.rewrites (by rw [hc]; exact hr) (by simp)
        exact ⟨ho₂, hsize, hr.chain_eq ho.linked ho₂.file.1⟩
      | full new _ _ _ hmiss _ => rw [hs, hm] at hmiss; exact absurd hmiss (by omega)
  obtain ⟨_, d₂, hl₂, ho₂, hs₂, hc₂⟩ := Op.exists_leaves ht.ends
  exact ⟨d₀, d₁, d₂, h, h0, hl₁, hl₂, ho₂, hs₂, hc₂⟩

/-! ### The chains -/

/-- The invariant of the chains, with the sizes of the files. -/
structure ChainInvariant (d : Disk) : Prop where
  /-- The chain of a head ends after distinct allocated blocks. -/
  ends : ∀ h, d.IsHead h →
    d.Chain (addr h) (d.chain h) ∧ (d.chain h).Nodup ∧ ∀ i ∈ d.chain h, d.Allocated i
  disjoint : ∀ h g, d.IsHead h → d.IsHead g → h ≠ g → (d.chain h).Disjoint (d.chain g)
  /-- The set bits are the blocks on chains. -/
  bitmap : ∀ i : Fin BLOCK_NUM, (i : ℕ) < d.sb.totalblocks.toNat →
    (d.Allocated i ↔ ∃ h, d.IsHead h ∧ i ∈ d.chain h)
  /-- Only the first block of a chain is a head. -/
  heads : ∀ h, d.IsHead h → ∀ i ∈ d.chain h, (d.blocks i).dbm.head ≠ 0 ↔ i = h
  sized : ∀ h, d.IsHead h → (d.blocks h).dbm.st_size ≤ (d.chain h).length * BLOCK_DATA

lemma chainInvariant_of_linked {d : Disk} (hl : d.Linked) (hs : d.Sized) : ChainInvariant d := by
  refine ⟨fun h hh => ⟨hl.ends h hh, (hl.ends h hh).nodup, hl.alloc h hh⟩, hl.disjoint, ?_, ?_, hs⟩
  · rintro i -
    exact ⟨hl.cover i, fun ⟨h, hh, hi⟩ => hl.alloc h hh i hi⟩
  · intro h hh i hi
    exact ⟨hl.heads h hh i hi, fun hih => by rw [hih]; exact hh.2⟩

/-- A call that finds its blocks: a write enough free ones, a growing truncate as many as its
new size needs. -/
def Fits (d : Disk) (op : Op) : Prop := op.Room d ∧ op.GrowthFits d

lemma Reached.sized {d : Disk} (hd : Reached Fits d) : d.Linked ∧ d.Sized := by
  induction hd with
  | image hi => exact ⟨hi.blank.linked, hi.blank.sized⟩
  | step _ hv hok hd ih =>
    obtain ⟨hl, hs⟩ := ih
    have he := hd.effect hl hv hok.1 (Op.onChain_of_sized hl hs _)
    exact ⟨he.touches.linked hl, he.sized hs hok.2⟩

/-- **The chain invariant** holds after every run whose calls find their blocks. -/
theorem chainInvariant_of_reached {d : Disk} (hd : Reached Fits d) : ChainInvariant d :=
  chainInvariant_of_linked hd.sized.1 hd.sized.2

/-- A run of one call that finds its block. -/
theorem chainInvariant_filled : ∃ d h, d.IsFile slashA h ∧ ChainInvariant d := by
  obtain ⟨d₀, d₁, h, h0, h1, ho, -, -⟩ := exists_filled
  exact ⟨d₁, h, ho.file, chainInvariant_of_reached
    (reached_filled h0 ⟨fillBlock_room h0, trivial⟩ h1)⟩

/-- Without the condition, a run of two calls breaks the invariant: the second call leaves a
file that is larger than its chain. -/
theorem not_chainInvariant : ∃ d₀ d₁ d₂, Image d₀ ∧ fillBlock.Valid ∧ fillBlock.Leaves d₀ d₁ ∧
    growByOne.Valid ∧ growByOne.Leaves d₁ d₂ ∧ Reached (fun _ _ => True) d₂ ∧
      ¬ ChainInvariant d₂ := by
  obtain ⟨d₀, d₁, d₂, h, h0, h1, h2, ho, hs, hc⟩ := exists_outgrown
  refine ⟨d₀, d₁, d₂, h0, fillBlock_valid, h1, growByOne_valid, h2, ?_, fun hinv => ?_⟩
  · exact ((Reached.image h0).step fillBlock_valid trivial h1).step growByOne_valid trivial h2
  have := hinv.sized h ho.file.1
  rw [hs, hc, List.length_singleton] at this
  exact absurd this (by decide)

/-! ### The superblock -/

/-- In every run of the call, a `write_block` names a block of the image, and no other call
than `write_super_block` changes the superblock. -/
def KeepsSuperBlock (op : Op) (d : Disk) : Prop :=
  ∀ fuel l, ∀ x ∈ (op.code fuel).calls exec d l,
    (∀ n b, x.1 = .writeBlock n b → 0 ≤ n ∧ n < x.2.sb.totalblocks.toNat) ∧
    ((∀ sb, x.1 ≠ .writeSuperBlock sb) → ∀ l', (exec x.1 x.2 l').2.1.sb = x.2.sb)

lemma InImage.sb {c : Call} {d : Disk} {l : Local} (hc : InImage c d)
    (hne : ∀ sb, c ≠ .writeSuperBlock sb) : (exec c d l).2.1.sb = d.sb := by
  cases c with
  | writeBlock n b =>
    obtain ⟨h0, h1⟩ := hc
    have hn : n = addr ⟨n.toNat, by omega⟩ := by simp only [addr]; omega
    rw [hn, exec_writeBlock]
    rfl
  | writeSuperBlock sb => exact absurd rfl (hne sb)
  | _ => rfl

lemma InImage.total {c : Call} {d : Disk} {l : Local} (hc : InImage c d) :
    (exec c d l).2.1.sb.totalblocks = d.sb.totalblocks := by
  cases c with
  | writeSuperBlock sb => exact hc
  | _ => rw [InImage.sb hc (by simp)]

/-- A call that finds its free blocks and stays on the chain of its file. -/
def Stays (d : Disk) (op : Op) : Prop := op.Room d ∧ op.OnChain d

/-- **The superblock is changed by `write_super_block` alone**, in every run whose calls find
their free blocks and stay on the chains of their files. -/
theorem keepsSuperBlock_of_reached {d : Disk} {op : Op} (hd : Reached Stays d) (hv : op.Valid)
    (hs : Stays d op) : KeepsSuperBlock op d := by
  obtain ⟨hl, ht⟩ := hd.linked fun _ _ _ h => h
  intro fuel l x hx
  have hle := Op.code_le (Nat.le_max_left fuel BLOCK_NUM) op
  have hcalls := (Op.always hl hv hs.1 hs.2 (Nat.le_max_right fuel BLOCK_NUM) l).1
  have htotal : x.2.sb.totalblocks = d.sb.totalblocks :=
    Prog.calls_invariant (I := fun s => s.sb.totalblocks = d.sb.totalblocks)
      (fun c s l hc hI => hc.total.trans hI) rfl
      hcalls x ((hle.calls d l).subset hx)
  have hin := hcalls x ((hle.calls d l).subset hx)
  refine ⟨fun n b he => ?_, fun hne l' => hin.sb hne⟩
  rw [he] at hin
  rw [htotal, ht]
  exact hin

/-- Behind a full block, where the write adds one. -/
theorem keepsSuperBlock_filled : ∃ d, Reached Stays d ∧ KeepsSuperBlock writeBehind d := by
  obtain ⟨d₀, d₁, h, h0, h1, ho, hs, hc⟩ := exists_filled
  have hd : Reached Stays d₁ := reached_filled h0 ⟨fillBlock_room h0, fun g hg => by
    rw [h0.blank.lookup] at hg; cases hg⟩ h1
  have hfree : 1 + d₁.freeCount = BLOCK_NUM := by
    rw [add_comm, ← ho.freeCount, hc, List.length_singleton]
  refine ⟨d₁, hd, keepsSuperBlock_of_reached hd writeBehind_valid
    ⟨⟨fun g hg _ => ?_, fun hno => ?_⟩, fun g hg _ => ?_⟩⟩
  · obtain rfl : h = g := by simpa [ho.lookup] using hg
    rw [hs, hc, List.length_singleton, hfree]
    decide
  · rw [ho.lookup] at hno; cases hno
  · obtain rfl : h = g := by simpa [ho.lookup] using hg
    rw [hs, hc, List.length_singleton]
    decide

/-! ### A write to the bitmap -/

/-- A `write_block` to block `-1`. -/
def HitsBitmap : Call → Disk → Prop
  | .writeBlock n _, _ => n = -1
  | _, _ => False

lemma makes_storeBlock {d : Disk} {b : Block} : (storeBlock (-1) b).Makes exec HitsBitmap d := by
  refine Prog.Holds.makes_bind (safe_time fun t1 => Prog.Holds.makes_bind (safe_time fun t2 => ?_))
  exact Prog.Holds.makes_bind (safe_time fun t3 => Prog.makes_perform rfl)

/-- The loop goes on at block `-1` when the chain ends before the offset. -/
lemma makes_writeLoop {d : Disk} {p : CStr} {buf : ℕ → UInt8} {n written : ℤ}
    {block nextBlock : Block} (hend : block.dbm.next = -1) :
    (writeLoop p buf 1 (BLOCK_DATA + 1 : ℕ) n written block nextBlock).Makes exec HitsBitmap d := by
  have hsub : toLong (((BLOCK_DATA + 1 : ℕ) : ℤ) - (BLOCK_DATA : ℕ)) = (1 : ℕ) := by decide
  have hbig : ((BLOCK_DATA : ℕ) : ℤ) < toULong ((BLOCK_DATA + 1 : ℕ) : ℤ) := by decide
  have hsmall : ¬ ((BLOCK_DATA : ℕ) : ℤ) < toULong ((1 : ℕ) : ℤ) := by decide
  rw [writeLoop, dif_pos (by decide), dif_pos hbig, hsub, hend]
  refine Prog.Holds.makes_bind (safe_readBlock_any fun b => ?_)
  have hwr : (writeToBlock buf b 1 (1 : ℕ)).1 = 1 := by
    have h := writeToBlock_eq buf b (n := 1) (o := 1) (by decide) (by decide)
    exact congrArg Prod.fst h
  rw [writeLoop, dif_pos (by decide), dif_neg hsmall, hwr]
  refine Prog.Holds.makes_bind (safe_linkNext_last (by decide) fun nb => ?_)
  exact makes_storeBlock.bind

lemma makes_writeBehind (fuel : ℕ) {d : Disk} {h : Fin BLOCK_NUM} (ho : OnlyFile d slashA h)
    (hs : (d.blocks h).dbm.st_size = (BLOCK_DATA + 1 : ℕ)) (hc : d.chain h = [h]) :
    (writeBehind.code fuel).Makes exec HitsBitmap d := by
  have hch := ho.linked.ends h ho.file.1
  rw [hc] at hch
  have hend : (d.blocks h).dbm.next = -1 := seg_nil.mp (seg_cons.mp hch).2
  have hoff : (if (d.blocks h).dbm.st_size < ((BLOCK_DATA + 1 : ℕ) : ℤ) then
      (d.blocks h).dbm.st_size else ((BLOCK_DATA + 1 : ℕ) : ℤ)) = (BLOCK_DATA + 1 : ℕ) := by
    rw [hs]; exact if_neg (lt_irrefl _)
  refine Prog.Holds.makes_bind (safe_newBlock fun b1 => Prog.Holds.makes_bind
    (safe_newBlock fun b2 => Prog.Holds.makes_bind (safe_bind (safe_find_found ho.lookup ?_))))
  rw [if_neg (addr_nonneg h)]
  refine safe_ret ?_
  unfold writeFound
  simp only [hoff]
  have hone : toInt ((1 : ℕ) : ℤ) = 1 := by decide
  rw [hone]
  refine Prog.Holds.makes_bind (safe_writeBlock (Prog.Makes.bind (makes_writeLoop ?_)))
  exact hend

/-- Without the condition, the third call of a run stores a block over the bitmap. -/
theorem not_keepsSuperBlock : ∃ d₀ d₁ d₂, Image d₀ ∧ fillBlock.Valid ∧
    fillBlock.Leaves d₀ d₁ ∧ growByOne.Valid ∧ growByOne.Leaves d₁ d₂ ∧
      Reached (fun _ _ => True) d₂ ∧ writeBehind.Valid ∧ ¬ KeepsSuperBlock writeBehind d₂ := by
  obtain ⟨d₀, d₁, d₂, h, h0, h1, h2, ho, hs, hc⟩ := exists_outgrown
  refine ⟨d₀, d₁, d₂, h0, fillBlock_valid, h1, growByOne_valid, h2, ?_, writeBehind_valid,
    fun hk => ?_⟩
  · exact ((Reached.image h0).step fillBlock_valid trivial h1).step growByOne_valid trivial h2
  obtain ⟨⟨c, d⟩, hx, hb⟩ := makes_writeBehind 0 ho hs hc default
  cases c with
  | writeBlock n b =>
    obtain rfl : n = -1 := hb
    exact absurd ((hk 0 default _ hx).1 (-1) b rfl).1 (by decide)
  | _ => exact hb.elim

end Messaround.Aofs
