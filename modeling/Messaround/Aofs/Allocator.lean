import Messaround.Aofs.Small

/-!
The allocator as a component: `allocate_block` and `deallocate_block` called in any order on
any bitmap.

A history lists the results of the calls. What one call does to the bits carries over to
their number, and to the block that a later call can be given.
-/

namespace Messaround.Aofs

open Messaround.CInt Disk

variable {d d' d₀ : Disk} {i j : Fin BLOCK_NUM} {r : ℤ}

/-- The number of set bits. -/
def setCount (map : Vector UInt8 BITMAP_SIZE) : ℕ :=
  ((Finset.range (8 * BITMAP_SIZE)).filter fun k => isSet map k = true).card

/-- What `allocate_block` does: it returns the least index of a clear bit below
`totalblocks`, sets exactly this bit and stores an empty block; or it returns `-1`, exactly
when no such bit is clear, and changes nothing. -/
structure AllocateContract (d : Disk) (r : ℤ) (d' : Disk) : Prop where
  result : r = -1 ∨ ∃ i, r = addr i
  least : ∀ i, r = addr i → (i : ℕ) < d.sb.totalblocks.toNat ∧ isSet d.sb.bitmap i = false ∧
    ∀ k < (i : ℕ), isSet d.sb.bitmap k = true
  bits : ∀ i, r = addr i → ∀ k, isSet d'.sb.bitmap k = (decide (k = i) || isSet d.sb.bitmap k)
  superBlock : d'.sb = { d.sb with bitmap := d'.sb.bitmap }
  stored : ∀ i, r = addr i → Cleared (d'.blocks i) ∧ ∀ j, j ≠ i → d'.blocks j = d.blocks j
  full : r = -1 ↔ ∀ k < d.sb.totalblocks.toNat, isSet d.sb.bitmap k = true
  unchanged : r = -1 → d' = d

/-- What `deallocate_block` does to the bits and the other blocks. -/
structure DeallocateContract (d : Disk) (i : Fin BLOCK_NUM) (d' : Disk) : Prop where
  bits : ∀ k, isSet d'.sb.bitmap k = (!decide (k = i) && isSet d.sb.bitmap k)
  superBlock : d'.sb = { d.sb with bitmap := d'.sb.bitmap }
  stored : Cleared (d'.blocks i) ∧ ∀ j, j ≠ i → d'.blocks j = d.blocks j

lemma isSet_mark (i : Fin BLOCK_NUM) (k : ℕ) :
    isSet (d.mark i).sb.bitmap k = (decide (k = i) || isSet d.sb.bitmap k) :=
  isSet_setBit (val_lt i) k

lemma allocateContract_taken {b : Block} (hi : d.FirstFree i) (hb : Cleared b) :
    AllocateContract d (addr i) ((d.mark i).put i b) := by
  have hclear := not_allocated_iff.mp hi.1.1
  have hself : ∀ k, addr i = addr k → k = i := fun k hk => (addr_injective hk).symm
  refine ⟨Or.inr ⟨i, rfl⟩, ?_, ?_, rfl, ?_, ?_, fun h => absurd h (addr_ne i)⟩
  · intro k hk
    rw [hself k hk]
    refine ⟨hi.1.2, hclear, fun n hn => ?_⟩
    obtain ⟨m, rfl⟩ : ∃ m : Fin BLOCK_NUM, (m : ℕ) = n := ⟨⟨n, hn.trans i.isLt⟩, rfl⟩
    exact Disk.allocated_iff.mp (hi.2 m (Fin.lt_def.mpr hn))
  · intro k hk n
    rw [hself k hk, put_sb]
    exact isSet_mark i n
  · intro k hk
    rw [hself k hk, put_blocks_self]
    exact ⟨hb, fun j hj => by rw [put_blocks_of_ne _ _ hj, mark_blocks]⟩
  · refine iff_of_false (addr_ne i) fun hall => ?_
    rw [hall i hi.1.2] at hclear
    cases hclear

lemma allocateContract_full (ht : d.sb.totalblocks.toNat ≤ BLOCK_NUM) (h0 : d.freeCount = 0) :
    AllocateContract d (-1) d := by
  have hno : ∀ i, ¬ -1 = addr i := fun i hi => addr_ne i hi.symm
  refine ⟨Or.inl rfl, fun i hi => absurd hi (hno i), fun i hi => absurd hi (hno i), rfl,
    fun i hi => absurd hi (hno i), iff_of_true rfl fun k hk => ?_, fun _ => rfl⟩
  by_contra hk'
  refine absurd h0 (Nat.pos_iff_ne_zero.mp (Finset.card_pos.mpr ⟨⟨k, hk.trans_le ht⟩, ?_⟩))
  rw [Finset.mem_filter_univ]
  exact ⟨not_allocated_iff.mpr (Bool.not_eq_true _ ▸ hk'), hk⟩

lemma safe_allocateBlock_contract (ht : d.sb.totalblocks.toNat ≤ BLOCK_NUM) :
    Safe allocateBlock d (AllocateContract d) :=
  safe_allocateBlock ht (fun _ _ hi hb => allocateContract_taken hi hb) (allocateContract_full ht)

lemma safe_deallocateBlock_contract :
    Safe (deallocateBlock (addr i)) d fun _ d' => DeallocateContract d i d' := by
  refine safe_deallocateBlock fun b hb => ⟨isSet_clearBit (val_lt i), rfl, ?_, fun j hj => ?_⟩
  · rw [unmark_blocks, put_blocks_self]; exact hb
  · rw [unmark_blocks, put_blocks_of_ne _ _ hj]

/-! ### The number of set bits -/

lemma setCount_insert {map map' : Vector UInt8 BITMAP_SIZE} (hi : isSet map i = false)
    (h : ∀ k, isSet map' k = (decide (k = i) || isSet map k)) :
    setCount map' = setCount map + 1 := by
  have hset : ((Finset.range (8 * BITMAP_SIZE)).filter fun k => isSet map' k = true) =
      insert (i : ℕ) ((Finset.range (8 * BITMAP_SIZE)).filter fun k => isSet map k = true) := by
    ext k
    rw [Finset.mem_filter, Finset.mem_insert, Finset.mem_filter, Finset.mem_range, h]
    by_cases hk : k = i
    · simp [hk, val_lt i]
    · simp [hk]
  rw [setCount, hset, Finset.card_insert_of_notMem (by simp [hi])]
  rfl

lemma setCount_erase {map map' : Vector UInt8 BITMAP_SIZE} (hi : isSet map i = true)
    (h : ∀ k, isSet map' k = (!decide (k = i) && isSet map k)) :
    setCount map = setCount map' + 1 := by
  refine setCount_insert (i := i) (by simp [h]) fun k => ?_
  rw [h]
  by_cases hk : k = i
  · simp [hk, hi]
  · simp [hk]

/-! ### Histories -/

/-- A call with its result. -/
inductive AllocatorEvent
  | allocated (r : ℤ)
  | deallocated (i : Fin BLOCK_NUM)
  deriving DecidableEq

namespace AllocatorEvent

/-- A successful allocation. -/
def IsTake : AllocatorEvent → Bool
  | .allocated r => r ≠ -1
  | .deallocated _ => false

def IsGive : AllocatorEvent → Bool
  | .allocated _ => false
  | .deallocated _ => true

end AllocatorEvent

open AllocatorEvent

/-- One call of the allocator. Only an allocated block is given back. -/
inductive AllocatorStep : Disk → AllocatorEvent → Disk → Prop
  | allocate {d d' : Disk} {r : ℤ} {l l' : Local}
      (h : allocateBlock.run exec d l = some (r, d', l')) : AllocatorStep d (.allocated r) d'
  | deallocate {d d' : Disk} {i : Fin BLOCK_NUM} {n : ℤ} {l l' : Local} (ha : d.Allocated i)
      (h : (deallocateBlock (addr i)).run exec d l = some (n, d', l')) :
      AllocatorStep d (.deallocated i) d'

/-- The calls `es`, one after the other, lead from `d₀` to the disk. -/
inductive History (d₀ : Disk) : List AllocatorEvent → Disk → Prop
  | nil : History d₀ [] d₀
  | snoc {es : List AllocatorEvent} {e : AllocatorEvent} {d d' : Disk} (h : History d₀ es d)
      (hs : AllocatorStep d e d') : History d₀ (es ++ [e]) d'

/-- What a step does, by its kind. -/
lemma AllocatorStep.contract {e : AllocatorEvent} (ht : d.sb.totalblocks.toNat ≤ BLOCK_NUM)
    (hs : AllocatorStep d e d') : match e with
      | .allocated r => AllocateContract d r d'
      | .deallocated i => d.Allocated i ∧ DeallocateContract d i d' := by
  cases hs with
  | allocate h => exact (Prog.Holds.always (safe_allocateBlock_contract ht) _).2 _ _ _ h
  | deallocate ha h => exact ⟨ha, (Prog.Holds.always safe_deallocateBlock_contract _).2 _ _ _ h⟩

lemma AllocatorStep.total {e : AllocatorEvent} (ht : d.sb.totalblocks.toNat ≤ BLOCK_NUM)
    (hs : AllocatorStep d e d') : d'.sb.totalblocks = d.sb.totalblocks := by
  have h := hs.contract ht
  cases e with
  | allocated r => rw [h.superBlock]
  | deallocated i => rw [h.2.superBlock]

/-- One step changes the number of set bits by the block taken or given back. -/
lemma AllocatorStep.count {e : AllocatorEvent} (ht : d.sb.totalblocks.toNat ≤ BLOCK_NUM)
    (hs : AllocatorStep d e d') : setCount d'.sb.bitmap + [e].countP IsGive =
      setCount d.sb.bitmap + [e].countP IsTake := by
  have h := hs.contract ht
  rw [List.countP_singleton, List.countP_singleton]
  cases e with
  | allocated r =>
    rcases h.result with rfl | ⟨i, rfl⟩
    · rw [h.unchanged rfl]
      simp [IsTake, IsGive]
    · rw [setCount_insert (h.least i rfl).2.1 (h.bits i rfl)]
      simp [IsTake, IsGive, addr_ne]
  | deallocated i =>
    rw [setCount_erase (Disk.allocated_iff.mp h.1) h.2.bits]
    simp [IsTake, IsGive]

lemma AllocatorStep.keeps {e : AllocatorEvent} (ht : d.sb.totalblocks.toNat ≤ BLOCK_NUM)
    (hs : AllocatorStep d e d') (ha : d.Allocated i) (he : e ≠ .deallocated i) :
    d'.Allocated i := by
  have h := hs.contract ht
  rw [Disk.allocated_iff] at ha ⊢
  cases e with
  | allocated r =>
    rcases h.result with rfl | ⟨k, rfl⟩
    · rw [h.unchanged rfl]; exact ha
    · rw [h.bits k rfl, ha, Bool.or_true]
  | deallocated k =>
    have hik : (i : ℕ) ≠ k := fun hik => he (by rw [Fin.ext hik])
    rw [h.2.bits, ha, decide_eq_false hik]
    rfl

section history

variable {es xs ys zs : List AllocatorEvent} (ht : d₀.sb.totalblocks.toNat ≤ BLOCK_NUM)
include ht

lemma History.total_le (h : History d₀ es d) : d.sb.totalblocks.toNat ≤ BLOCK_NUM := by
  induction h with
  | nil => exact ht
  | snoc _ hs ih => rw [hs.total ih]; exact ih

lemma History.count (h : History d₀ es d) : setCount d.sb.bitmap + es.countP IsGive =
    setCount d₀.sb.bitmap + es.countP IsTake := by
  induction h with
  | nil => rfl
  | snoc h hs ih =>
    have hstep := hs.count (h.total_le ht)
    rw [List.countP_append, List.countP_append]
    omega

lemma History.allocated (h : History d₀ es d) (he : es = xs ++ .allocated (addr i) :: ys)
    (hno : .deallocated i ∉ ys) : d.Allocated i := by
  induction h generalizing ys with
  | nil => simp at he
  | @snoc es e d d' h hs ih =>
    have hle := h.total_le ht
    rcases List.eq_nil_or_concat ys with rfl | ⟨ys, e', rfl⟩
    · -- handed out by the last call
      obtain ⟨-, rfl⟩ : es = xs ∧ e = .allocated (addr i) := by simpa using he
      rw [Disk.allocated_iff, (hs.contract hle).bits i rfl, decide_eq_true rfl, Bool.true_or]
    · rw [List.concat_eq_append] at he hno
      rw [← List.cons_append, ← List.append_assoc] at he
      obtain ⟨rfl, he'⟩ := List.append_inj' he rfl
      obtain rfl : e = e' := by simpa using he'
      rw [List.mem_append, not_or, List.mem_singleton] at hno
      exact hs.keeps hle (ih rfl hno.1) (Ne.symm hno.2)

omit ht in
/-- A history stops at every call. -/
lemma History.split {e : AllocatorEvent} (h : History d₀ es d) (he : es = xs ++ e :: zs) :
    ∃ d₁ d₂, History d₀ xs d₁ ∧ AllocatorStep d₁ e d₂ := by
  induction h generalizing zs with
  | nil => simp at he
  | @snoc es e' d d' h hs ih =>
    rcases List.eq_nil_or_concat zs with rfl | ⟨zs, e'', rfl⟩
    · obtain ⟨rfl, rfl⟩ : es = xs ∧ e' = e := by simpa using he
      exact ⟨_, _, h, hs⟩
    · rw [List.concat_eq_append, ← List.cons_append, ← List.append_assoc] at he
      exact ih (List.append_inj' he rfl).1

/-- **No block is handed out twice** without being given back in between. -/
theorem History.given_back (h : History d₀ es d)
    (he : es = xs ++ .allocated (addr i) :: ys ++ .allocated (addr i) :: zs) :
    .deallocated i ∈ ys := by
  by_contra hno
  obtain ⟨d₁, d₂, h₁, hs⟩ := h.split he
  have hset := Disk.allocated_iff.mp (h₁.allocated ht rfl hno)
  rw [((hs.contract (h₁.total_le ht)).least i rfl).2.1] at hset
  cases hset

end history

/-- **The allocator's contract**, after any history on any bitmap. -/
theorem allocator_contract {es : List AllocatorEvent}
    (ht : d₀.sb.totalblocks.toNat ≤ BLOCK_NUM) (h : History d₀ es d) :
    Ends allocateBlock d (AllocateContract d) ∧
    (∀ i, Ends (deallocateBlock (addr i)) d fun _ d' => DeallocateContract d i d') ∧
    setCount d.sb.bitmap + es.countP IsGive = setCount d₀.sb.bitmap + es.countP IsTake ∧
    ∀ i xs ys zs, es = xs ++ .allocated (addr i) :: ys ++ .allocated (addr i) :: zs →
      .deallocated i ∈ ys :=
  ⟨(safe_allocateBlock_contract (h.total_le ht)).ends,
    fun _ => safe_deallocateBlock_contract.ends, h.count ht, fun _ _ _ _ he => h.given_back ht he⟩

/-! ### Block 0 handed out twice -/

lemma exists_allocate (ht : d.sb.totalblocks.toNat ≤ BLOCK_NUM) (hpos : 0 < d.sb.totalblocks.toNat)
    (h0 : ¬ d.Allocated 0) : ∃ d', AllocatorStep d (.allocated (addr 0)) d' := by
  rw [not_allocated_iff, Fin.val_zero] at h0
  obtain ⟨r, d', l', hr, hc⟩ := (safe_allocateBlock_contract ht).ends default
  rcases hc.result with rfl | ⟨i, rfl⟩
  · rw [hc.full.mp rfl 0 hpos] at h0
    cases h0
  · have hi : ¬ 0 < (i : ℕ) := fun hi => by
      rw [(hc.least i rfl).2.2 0 hi] at h0
      cases h0
    obtain rfl : i = 0 := Fin.ext (by simpa using hi)
    exact ⟨d', .allocate hr⟩

lemma exists_deallocate (ha : d.Allocated i) : ∃ d', AllocatorStep d (.deallocated i) d' := by
  obtain ⟨n, d', l', hr, -⟩ := (safe_deallocateBlock_contract (d := d) (i := i)).ends default
  exact ⟨d', .deallocate ha hr⟩

/-- Block 0 is taken, given back and taken again. -/
def takenAgain : List AllocatorEvent := [.allocated (addr 0), .deallocated 0, .allocated (addr 0)]

lemma exists_takenAgain {d₀ : Disk} (hd : Blank d₀) : ∃ d, History d₀ takenAgain d := by
  have ht : d₀.sb.totalblocks.toNat ≤ BLOCK_NUM := hd.total.le
  have hpos : 0 < d₀.sb.totalblocks.toNat := by rw [hd.total]; decide
  obtain ⟨d₁, h₁⟩ := exists_allocate ht hpos (hd.not_allocated 0)
  have hlast : [] ++ [AllocatorEvent.allocated (addr 0)] = [] ++ .allocated (addr 0) :: [] := rfl
  have ha : d₁.Allocated 0 := (History.snoc .nil h₁).allocated ht hlast (by simp)
  obtain ⟨d₂, h₂⟩ := exists_deallocate ha
  have ht₁ := h₁.total ht
  have ht₂ := h₂.total (ht₁ ▸ ht)
  have h0 : ¬ d₂.Allocated 0 := by
    rw [not_allocated_iff, (h₂.contract (ht₁ ▸ ht)).2.bits]
    rfl
  obtain ⟨d₃, h₃⟩ := exists_allocate (by rw [ht₂, ht₁]; exact ht) (by rw [ht₂, ht₁]; exact hpos) h0
  exact ⟨d₃, ((History.nil.snoc h₁).snoc h₂).snoc h₃⟩

theorem allocator_contract_takenAgain : ∃ d, History ⟨initialSuperBlock, fun _ => default, []⟩
    takenAgain d ∧ Ends allocateBlock d (AllocateContract d) ∧
      setCount d.sb.bitmap + 1 = setCount initialSuperBlock.bitmap + 2 := by
  have hblank : Blank ⟨initialSuperBlock, fun _ => default, []⟩ := rfl
  obtain ⟨d, hd⟩ := exists_takenAgain hblank
  obtain ⟨h1, -, h3, -⟩ := allocator_contract hblank.total.le hd
  have hgive : takenAgain.countP IsGive = 1 := by decide
  have htake : takenAgain.countP IsTake = 2 := by decide
  rw [hgive, htake] at h3
  exact ⟨d, hd, h1, h3⟩

end Messaround.Aofs
