import Messaround.Aofs.ReadCopies
import Messaround.Aofs.Reclaim

/-!
Where the copies of `aofs_read_file` go in the caller's buffer, on any image.

The first block goes to the start of the buffer and the later ones to the places they would
have behind a whole first block, so a read that starts inside a block and goes on behind it
can leave the buffer. Links may be cyclic: a read follows them as often as it has blocks left.
-/

namespace Messaround.Aofs

open Messaround.CInt Messaround.Segment Disk

variable {d : Disk} {p : CStr} {h i : Fin BLOCK_NUM} {o size offset : ℕ}

/-- Every byte of the copy goes to one of the first `size` places of the buffer. -/
def InBuffer (size : ℕ) (c : Copy) : Prop :=
  ∀ k < c.bytes.length, 0 ≤ c.dst + k ∧ c.dst + k < size

/-- The blocks behind block `i` that the links lead through, at most `n`. -/
def Disk.behind (d : Disk) (i : Fin BLOCK_NUM) (n : ℕ) : List (Fin BLOCK_NUM) :=
  follow d.next blockOf n (d.next i)

/-- A read of `size` bytes from byte `o` of block `i` on that stays in the buffer. Where it
reaches into more blocks, it is not the empty range at the start of a block, and either the
links end early and the full blocks it copies fit at their places, or it starts at the start
of a block and the rest fits the last one. -/
def FitsFrom (d : Disk) (i : Fin BLOCK_NUM) (o size : ℕ) : Prop :=
  moreBlocks o size < 0 ∨ (moreBlocks o size = 0 ∧ o + size ≤ BLOCK_DATA) ∨
    (0 < moreBlocks o size ∧ 0 < o + size ∧
      (((d.behind i (moreBlocks o size).toNat).length < (moreBlocks o size).toNat ∧
          (d.behind i (moreBlocks o size).toNat = [] ∨
            o + BLOCK_DATA * (d.behind i (moreBlocks o size).toNat).length ≤ size)) ∨
        ((d.behind i (moreBlocks o size).toNat).length = (moreBlocks o size).toNat ∧ o = 0 ∧
          o + size ≤ ((moreBlocks o size).toNat + 1) * BLOCK_DATA)))

/-- The number of links followed to the first block to read, in an `int`. -/
def startBlock (offset : ℕ) : ℕ := (toInt ((offset / BLOCK_DATA : ℕ) : ℤ)).toNat

/-- The links end before the first block to read, or what is read from it on fits. -/
def CopiesFit (d : Disk) (h : Fin BLOCK_NUM) (size offset : ℕ) : Prop :=
  ∀ i, nth d.next blockOf (startBlock offset) h = some i →
    FitsFrom d i (offset % BLOCK_DATA) size

/-! ### Copies in the buffer -/

lemma inBuffer_partCopy {b : Block} {dst src n : ℕ} (hn : src + n ≤ BLOCK_DATA) :
    InBuffer size (partCopy b dst src n) ↔ n = 0 ∨ dst + n ≤ size := by
  have hlen : (partCopy b dst src n).bytes.length = n := by
    rw [partCopy, List.length_take, List.length_drop, Vector.length_toList]; omega
  have hdst : (partCopy b dst src n).dst = dst := rfl
  rw [InBuffer, hlen, hdst]
  constructor
  · intro hall
    rcases Nat.eq_zero_or_pos n with h0 | hpos
    · exact Or.inl h0
    · have := hall (n - 1) (by omega)
      omega
  · intro hfit k hk
    omega

lemma inBuffer_fullCopies {a : List (Fin BLOCK_NUM)} {k : ℕ} :
    (∀ c ∈ fullCopies d o k a, InBuffer size c) ↔
      a = [] ∨ o + BLOCK_DATA * (k + a.length) ≤ size := by
  induction a generalizing k with
  | nil => simp [fullCopies]
  | cons j a ih =>
    have hB : BLOCK_DATA ≠ 0 := by decide
    have hk : BLOCK_DATA * (k + (j :: a).length) = BLOCK_DATA * (k + 1 + a.length) := by
      rw [List.length_cons]; ring
    have hone : BLOCK_DATA * (k + 1) = BLOCK_DATA * k + BLOCK_DATA := Nat.mul_succ _ _
    have hle : BLOCK_DATA * (k + 1) ≤ BLOCK_DATA * (k + 1 + a.length) :=
      Nat.mul_le_mul_left _ (Nat.le_add_right _ _)
    rw [fullCopies, List.forall_mem_cons, inBuffer_partCopy (by omega), ih, hk]
    rcases a with - | ⟨j', a⟩
    · simp only [true_or, and_true, hB, false_or, reduceCtorEq, List.length_nil, add_zero]
      omega
    · simp only [hB, false_or, reduceCtorEq]
      omega

lemma inBuffer_blockCopies {a : List (Fin BLOCK_NUM)} (ho : o < BLOCK_DATA) :
    (∀ c ∈ blockCopies d o i a, InBuffer size c) ↔
      BLOCK_DATA - o ≤ size ∧ (a = [] ∨ o + BLOCK_DATA * a.length ≤ size) := by
  rw [blockCopies, List.forall_mem_cons, inBuffer_partCopy (by omega), inBuffer_fullCopies,
    zero_add, zero_add]
  have hne : BLOCK_DATA - o ≠ 0 := Nat.sub_ne_zero_of_lt ho
  simp only [hne, false_or]

/-! ### Numbers of blocks -/

/-- A number of blocks that is negative as an `int` belongs to a large range. -/
lemma le_of_moreBlocks_neg (hneg : moreBlocks o size < 0) : BLOCK_DATA - o ≤ size := by
  have h0 : 0 < o + size := by
    rcases Nat.eq_zero_or_pos (o + size) with h0 | h0
    · obtain ⟨rfl, rfl⟩ : o = 0 ∧ size = 0 := by omega
      have := lt_moreBlocks_zero
      omega
    · exact h0
  have hle : toULong ((o : ℤ) + size - 1) ≤ (o : ℤ) + size - 1 := by unfold toULong; omega
  have hlow := (toULong_range ((o : ℤ) + size - 1)).1
  rw [moreBlocks, toInt] at hneg
  simp only [BLOCK_DATA] at hneg ⊢
  omega

lemma blockOf_some {q : ℤ} {j : Fin BLOCK_NUM} (hj : blockOf q = some j) : q = addr j := by
  unfold blockOf at hj
  split at hj
  · rename_i hq
    obtain rfl := Option.some.inj hj
    simp only [addr]
    omega
  · cases hj

lemma seg_behind (d : Disk) (i : Fin BLOCK_NUM) (n : ℕ) :
    ∃ q, Seg addr d.next (d.next i) (d.behind i n) q ∧ (d.behind i n).length ≤ n ∧
      ((d.behind i n).length < n → blockOf q = none) :=
  seg_follow (fun _ _ => blockOf_some) n (d.next i)

lemma blockOf_none (hd : d.LinksInRange) (hn : blockOf (d.next i) = none) : d.next i < 0 := by
  obtain ⟨h1, h2⟩ := hd.next i
  have h3 := hd.total_le
  unfold blockOf at hn
  split at hn
  · cases hn
  · omega

/-! ### From the first block on -/

section several

variable {n : ℕ} (ho : o < BLOCK_DATA) (hn : moreBlocks o size = (n + 1 : ℕ))
include hn

include ho in
/-- Where there are more blocks to read, the first copy fits unless the range is empty. -/
lemma first_fits_iff : BLOCK_DATA - o ≤ size ↔ 0 < o + size := by
  constructor
  · intro hle
    omega
  · intro hpos
    have hone := lt_of_moreBlocks (n := 1) hpos (by omega)
    omega

lemma fitsFrom_several : FitsFrom d i o size ↔ 0 < o + size ∧
    (((d.behind i (n + 1)).length < n + 1 ∧ (d.behind i (n + 1) = [] ∨
        o + BLOCK_DATA * (d.behind i (n + 1)).length ≤ size)) ∨
      ((d.behind i (n + 1)).length = n + 1 ∧ o = 0 ∧ o + size ≤ (n + 1 + 1) * BLOCK_DATA)) := by
  have h1 : ¬ ((n + 1 : ℕ) : ℤ) < 0 := by omega
  have h2 : ¬ ((n + 1 : ℕ) : ℤ) = 0 := by omega
  have h3 : (0 : ℤ) < ((n + 1 : ℕ) : ℤ) := by omega
  rw [FitsFrom, hn, Int.toNat_natCast]
  simp only [h1, h2, h3, false_and, true_and, false_or]

lemma fitsFrom_short (hlen : (d.behind i (n + 1)).length < n + 1) : FitsFrom d i o size ↔
    0 < o + size ∧ (d.behind i (n + 1) = [] ∨
      o + BLOCK_DATA * (d.behind i (n + 1)).length ≤ size) := by
  rw [fitsFrom_several hn]
  simp only [hlen, hlen.ne, false_and, true_and, or_false]

lemma fitsFrom_full (hlen : (d.behind i (n + 1)).length = n + 1) : FitsFrom d i o size ↔
    0 < o + size ∧ o = 0 ∧ o + size ≤ (n + 1 + 1) * BLOCK_DATA := by
  rw [fitsFrom_several hn]
  simp only [hlen, lt_irrefl, false_and, true_and, false_or]

include ho

lemma endsIff_readFrom_short (hd : d.LinksInRange) (hlen : (d.behind i (n + 1)).length < n + 1) :
    (readFrom o size (d.blocks i)).EndsIff exec d (fun r _ => ∀ c ∈ r.2, InBuffer size c)
      (FitsFrom d i o size) := by
  obtain ⟨q, hseg, -, hend⟩ := seg_behind d i (n + 1)
  obtain ⟨k, rfl⟩ := seg_end hseg
  have hneg : d.next k < 0 := blockOf_none hd (hend hlen)
  have htodo : (((n + 1 : ℕ) : ℤ) - 1).toNat = n := by omega
  have hiff : (∀ c ∈ blockCopies d o i (d.behind i (n + 1)), InBuffer size c) ↔
      FitsFrom d i o size := by
    rw [inBuffer_blockCopies ho, first_fits_iff ho hn, fitsFrom_short hn hlen]
  rw [readFrom_eq ho (by omega), hn]
  refine Prog.Holds.endsIff_bind (safe_copyOut rfl rfl rfl (by omega) ?_)
  unfold readRest
  rw [htodo]
  refine Prog.Holds.endsIff_bind (safe_readMiddle_seg hseg (fun _ j hj => ?_)
    (fun _ => ⟨hneg, Prog.Holds.endsIff (safe_pure hiff)⟩) (Nat.le_of_lt_succ hlen))
  have hj' : (d.blocks j).dbm.next < 0 := hj.trans_lt hneg
  dsimp only
  rw [if_pos (by omega), if_pos hj']
  exact Prog.Holds.endsIff (safe_pure hiff)

/-- The last copy starts as far behind the end of the copied bytes as the first one started
inside its block. -/
lemma last_fits_iff {a : List (Fin BLOCK_NUM)} {b : Block} {m : ℕ} (ha : a.length = n)
    (hm : o + size = (n + 1) * BLOCK_DATA + m) (hm0 : 0 < m) (hmB : m ≤ BLOCK_DATA) :
    (∀ c ∈ blockCopies d o i a ++ [partCopy b (o + BLOCK_DATA * (n + 1)) 0 m], InBuffer size c) ↔
      o = 0 := by
  have hmul : (n + 1) * BLOCK_DATA = BLOCK_DATA * n + BLOCK_DATA := by ring
  have hsucc : BLOCK_DATA * (n + 1) = BLOCK_DATA * n + BLOCK_DATA := by ring
  rw [List.forall_mem_append, inBuffer_blockCopies ho, List.forall_mem_singleton,
    inBuffer_partCopy (by omega), ha]
  constructor
  · rintro ⟨-, hlast⟩
    omega
  · rintro rfl
    exact ⟨⟨by omega, Or.inr (by omega)⟩, Or.inr (by omega)⟩

lemma endsIff_readFrom_full (hs : size < 18446744073709551616)
    (hlen : (d.behind i (n + 1)).length = n + 1) :
    (readFrom o size (d.blocks i)).EndsIff exec d (fun r _ => ∀ c ∈ r.2, InBuffer size c)
      (FitsFrom d i o size) := by
  obtain ⟨q, hseg, -, -⟩ := seg_behind d i (n + 1)
  have hfull := fitsFrom_full hn hlen
  obtain ⟨a, j, b, hsplit, ha⟩ := exists_split (show n < (d.behind i (n + 1)).length by omega)
  rw [hsplit] at hseg
  obtain ⟨r, hsega, hsegj⟩ := seg_append.mp hseg
  have htodo : (((n + 1 : ℕ) : ℤ) - 1).toNat = n := by omega
  rw [readFrom_eq ho (by omega), hn]
  refine Prog.Holds.endsIff_bind (safe_copyOut rfl rfl rfl (by omega) ?_)
  unfold readRest
  rw [htodo]
  refine Prog.Holds.endsIff_bind (safe_readMiddle_seg hsega (fun _ k hk => ?_)
    (fun hlt => absurd hlt (by omega)) ha.le)
  have hj : (d.blocks k).dbm.next = addr j := hk.trans (seg_cons.mp hsegj).1
  dsimp only
  rw [if_pos (by omega), hj, if_neg (addr_nonneg j)]
  refine Prog.Holds.endsIff_bind (safe_readBlock ?_)
  have hrange := (toInt_range (toULong ((o : ℤ) + size - 1) / (BLOCK_DATA : ℕ))).2
  rw [← moreBlocks, hn] at hrange
  by_cases hpos : 0 < o + size
  · have hlo := lt_of_moreBlocks hpos hn.ge
    obtain ⟨m, hm⟩ : ∃ m, o + size = (n + 1) * BLOCK_DATA + m :=
      ⟨_, (Nat.add_sub_cancel' hlo.le).symm⟩
    rw [toULong_left ho hs (Nat.succ_pos n) hm]
    by_cases hfit : m ≤ BLOCK_DATA
    · refine Prog.Holds.endsIff_bind (safe_copyOut Nat.cast_zero.symm rfl (by push_cast; rfl)
        (by omega) (Prog.Holds.endsIff (safe_pure ?_)))
      have hbound : o + size ≤ (n + 1 + 1) * BLOCK_DATA := by
        rw [hm, Nat.succ_mul (n + 1)]; omega
      rw [hfull]
      exact (last_fits_iff ho hn ha hm (by omega) hfit).trans
        ⟨fun h0 => ⟨hpos, h0, hbound⟩, fun h => h.2.1⟩
    · rw [copyOut, if_neg (by omega)]
      refine Prog.endsIff_stuck fun hF => ?_
      have hbound := (hfull.mp hF).2.2
      rw [hm, Nat.succ_mul (n + 1)] at hbound
      omega
  · -- the empty range: what is left is counted below zero
    obtain ⟨rfl, rfl⟩ : o = 0 ∧ size = 0 := by omega
    have hbig : ¬ 0 + toULong (((0 : ℕ) : ℤ) + ((0 : ℕ) : ℤ) -
        ((n + 1 : ℕ) : ℤ) * (BLOCK_DATA : ℕ)) ≤ (BLOCK_DATA : ℕ) := by
      simp only [BLOCK_DATA]
      rw [toULong_of_neg (by omega) (by omega)]
      omega
    rw [copyOut, if_neg fun h => hbig h.2]
    exact Prog.endsIff_stuck fun hF => hpos (hfull.mp hF).1

end several

/-- **A read from a block on** ends and stays in the buffer if it fits, and otherwise does
not. -/
theorem endsIff_readFrom_fits (hd : d.LinksInRange) (ho : o < BLOCK_DATA)
    (hs : size < 18446744073709551616) :
    (readFrom o size (d.blocks i)).EndsIff exec d (fun r _ => ∀ c ∈ r.2, InBuffer size c)
      (FitsFrom d i o size) := by
  rcases lt_trichotomy (moreBlocks o size) 0 with hneg | hzero | hmore
  · refine Prog.Holds.endsIff (safe_readFrom_first ho hneg (iff_of_true ?_ (Or.inl hneg)))
    exact (inBuffer_blockCopies ho).mpr ⟨le_of_moreBlocks_neg hneg, Or.inl rfl⟩
  · have hpos : 0 < o + size := by
      rcases Nat.eq_zero_or_pos (o + size) with h0 | h0
      · obtain ⟨rfl, rfl⟩ : o = 0 ∧ size = 0 := by omega
        exact absurd hzero (lt_trans (by decide) lt_moreBlocks_zero).ne'
      · exact h0
    by_cases hfit : o + size ≤ BLOCK_DATA
    · refine Prog.Holds.endsIff (safe_readFrom_one hpos hfit
        (iff_of_true ?_ (Or.inr (Or.inl ⟨hzero, hfit⟩))))
      rw [List.forall_mem_singleton, inBuffer_partCopy hfit, zero_add]
      exact Or.inr le_rfl
    · rw [readFrom_stuck hzero hfit]
      refine Prog.endsIff_stuck ?_
      rintro (hneg | ⟨-, hfit'⟩ | ⟨hmore, -⟩)
      · omega
      · exact hfit hfit'
      · omega
  · obtain ⟨n, hn⟩ : ∃ n : ℕ, moreBlocks o size = (n + 1 : ℕ) :=
      ⟨(moreBlocks o size - 1).toNat, by omega⟩
    obtain ⟨q, -, hle, -⟩ := seg_behind d i (n + 1)
    rcases hle.lt_or_eq with hlt | heq
    · exact endsIff_readFrom_short ho hn hd hlt
    · exact endsIff_readFrom_full ho hn hs heq

/-! ### The whole read -/

lemma safe_seekStart_nth {todo : ℕ} {Q : Option Block → Disk → Prop} (hd : d.LinksInRange)
    (hsome : ∀ i, nth d.next blockOf todo h = some i → Q (some (d.blocks i)) d)
    (hnone : nth d.next blockOf todo h = none → Q none d) :
    Safe (seekStart todo (d.blocks h)) d Q := by
  induction todo generalizing h with
  | zero => exact safe_ret (hsome h rfl)
  | succ todo ih =>
    rw [nth] at hsome hnone
    rw [seekStart]
    cases hb : blockOf (d.next h) with
    | none =>
      rw [hb] at hnone
      have hneg : (d.blocks h).dbm.next < 0 := blockOf_none hd hb
      rw [if_pos hneg]
      exact safe_pure (hnone rfl)
    | some j =>
      rw [hb] at hsome hnone
      have hj : (d.blocks h).dbm.next = addr j := blockOf_some hb
      rw [hj, if_neg (addr_nonneg j)]
      exact safe_bind (safe_readBlock (ih hsome hnone))

lemma endsIff_readFound_fits (hd : d.LinksInRange) (hs : size < 18446744073709551616)
    (ho : offset ≤ OFF_MAX) : (readFound size offset (d.blocks h)).EndsIff exec d
      (fun r _ => ∀ c ∈ r.2, InBuffer size c) (CopiesFit d h size offset) := by
  rw [readFound_eq ho]
  refine Prog.Holds.endsIff_bind (safe_seekStart_nth hd (fun i hi => ?_) fun hno => ?_)
  · have hiff : CopiesFit d h size offset ↔ FitsFrom d i (offset % BLOCK_DATA) size :=
      ⟨fun hfits => hfits i hi, fun hfits j hj => by
        obtain rfl : i = j := Option.some.inj (hi.symm.trans hj)
        exact hfits⟩
    rw [hiff]
    exact endsIff_readFrom_fits hd (Nat.mod_lt _ (by decide)) hs
  · refine Prog.Holds.endsIff (safe_pure (iff_of_true (by simp) fun i hi => ?_))
    rw [startBlock, hno] at hi
    cases hi

lemma next_accessed (t : UInt64) : (accessed d h t).next = d.next := by
  funext i
  by_cases hi : i = h
  · rw [hi, Disk.next, accessed, put_blocks_self, Disk.next]
  · rw [Disk.next, accessed, put_blocks_of_ne _ _ hi, Disk.next]

lemma endsIff_aofsReadFile_fits (hd : d.LinksInRange) (hf : d.lookup p = some h)
    (hs : size < 18446744073709551616) (ho : offset ≤ OFF_MAX) :
    (aofsReadFile p size offset).EndsIff exec d (fun r _ => ∀ c ∈ r.2, InBuffer size c)
      (CopiesFit d h size offset) := by
  unfold aofsReadFile
  refine Prog.Holds.endsIff_bind (safe_newBlock fun b => Prog.Holds.endsIff_bind
    (safe_find_found hf ?_))
  dsimp only
  rw [if_neg (addr_ne h)]
  refine Prog.Holds.endsIff_bind (safe_time fun t => Prog.Holds.endsIff_bind (safe_writeBlock ?_))
  have hnext := next_accessed (d := d) (h := h) t
  have hd' : (accessed d h t).LinksInRange := ⟨hd.total_le, fun i => by rw [hnext]; exact hd.next i⟩
  have hfits : CopiesFit (accessed d h t) h size offset ↔ CopiesFit d h size offset := by
    simp only [CopiesFit, FitsFrom, Disk.behind, hnext]
  have hread := endsIff_readFound_fits (h := h) hd' hs ho
  rw [hfits, accessed, put_blocks_self] at hread
  exact hread

lemma twoBlocks_not_fits : ¬ CopiesFit twoBlocks 0 BLOCK_DATA 1 := by
  intro hfits
  have hnum : moreBlocks (1 % BLOCK_DATA) BLOCK_DATA = 1 := by decide
  have hbehind : twoBlocks.behind 0 1 = [1] := by
    rw [Disk.behind, twoBlocks_next]
    rfl
  have hlast := hfits 0 rfl
  rw [FitsFrom, hnum, Int.toNat_one, hbehind] at hlast
  simp at hlast

end Messaround.Aofs
