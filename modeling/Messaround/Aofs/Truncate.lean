import Messaround.Aofs.Effect

/-!
Deleting and truncating a file.

A shrinking truncate keeps a prefix of the chain and frees the rest; a growing one links new
blocks in behind the last. Both end with the new size in the head block.
-/

namespace Messaround.Aofs

open Messaround.CInt Messaround.Segment Disk

variable {d d' : Disk} {p : CStr} {h i j : Fin BLOCK_NUM} {pre post new : List (Fin BLOCK_NUM)}

/-! ### Along the chain -/

lemma chain_next (hc : d.Chain (addr j) (j :: (pre ++ i :: post))) :
    ∃ k, d.next j = addr k ∧ d.Chain (addr k) (pre ++ i :: post) := by
  have hc' := (seg_cons.mp hc).2
  cases pre with
  | nil => exact ⟨i, (seg_cons.mp hc').1, by rw [← (seg_cons.mp hc').1]; exact hc'⟩
  | cons k pre => exact ⟨k, (seg_cons.mp hc').1, by rw [← (seg_cons.mp hc').1]; exact hc'⟩

/-- `pre.length` steps lead to the block behind `pre`. -/
lemma safe_seekKept {Q : ℤ × Block → Disk → Prop} (hc : d.Chain (addr j) (pre ++ i :: post))
    (hQ : Q (addr i, d.blocks i) d) : Safe (seekKept pre.length (addr j) (d.blocks j)) d Q := by
  induction pre generalizing j with
  | nil =>
    obtain rfl := addr_injective (seg_cons.mp hc).1
    exact safe_ret hQ
  | cons k pre ih =>
    obtain rfl := addr_injective (seg_cons.mp hc).1
    obtain ⟨k, hk, hc'⟩ := chain_next hc
    rw [List.length_cons, seekKept]
    change Safe (readBlock (d.next j) _ >>= fun cur' => seekKept pre.length (d.next j) cur') d Q
    rw [hk]
    exact safe_bind (safe_readBlock (ih hc'))

lemma safe_seekLast {fuel : ℕ} {Q : ℤ × Block → Disk → Prop}
    (hc : d.Chain (addr j) (pre ++ [i])) (hf : pre.length ≤ fuel)
    (hQ : Q (addr i, d.blocks i) d) : Safe (seekLast fuel (addr j) (d.blocks j)) d Q := by
  induction pre generalizing j fuel with
  | nil =>
    obtain ⟨h1, h2⟩ := seg_cons.mp hc
    obtain rfl := addr_injective h1
    have hend : (d.blocks j).dbm.next = -1 := seg_nil.mp h2
    unfold seekLast
    rw [if_pos hend]
    exact safe_ret hQ
  | cons k pre ih =>
    obtain rfl := addr_injective (seg_cons.mp hc).1
    obtain ⟨k, hk, hc'⟩ := chain_next hc
    obtain ⟨fuel, rfl⟩ : ∃ f, fuel = f + 1 := ⟨fuel - 1, by rw [List.length_cons] at hf; omega⟩
    have hk' : (d.blocks j).dbm.next = addr k := hk
    have hne : ¬ (d.blocks j).dbm.next = -1 := by rw [hk']; exact addr_ne k
    unfold seekLast
    rw [if_neg hne, hk']
    exact safe_bind (safe_readBlock (ih hc' (by simpa using hf)))

/-! ### Deleting -/

lemma Wiped.rewrites (hl : d.Linked) (hf : d.IsFile p h) (hw : Wiped d d' (d.chain h)) :
    Rewrites d d' p h (d.chain h) [] := by
  refine ⟨Or.inl ⟨hf.1, rfl⟩, ⟨hw.total, fun i hi _ => hw.frame i hi, fun i => ?_, by simp,
    Or.inl rfl⟩, fun _ => hf.2, fun hh => ?_⟩
  · rw [hw.alloc]; simp
  · exact absurd (hl.mem_chain hf.1) ((hw.alloc h).mp hh.1).1

/-- `aofs_delete_file` frees the blocks of the chain that its lookup finds. -/
lemma safe_delete_found {c : List (Fin BLOCK_NUM)} {fuel : ℕ} {Q : ℤ → Disk → Prop}
    (hf : d.lookup p = some h) (hc : d.Chain (addr h) c) (hfuel : c.length ≤ fuel)
    (hQ : ∀ d', Freed d d' (· ∈ c) → Q 0 d') : Safe (aofsDeleteFile fuel p) d Q := by
  refine safe_bind (safe_newBlock fun b => safe_bind (safe_find_found hf ?_))
  dsimp only
  rw [if_neg (addr_nonneg h)]
  exact safe_bind (safe_deleteChain_freed hc hfuel fun d' hd => safe_ret (hQ d' hd))

/-- **`aofs_delete_file`** frees the chain of the file. -/
theorem safe_aofsDeleteFile {fuel : ℕ} {Q : ℤ → Disk → Prop} (hl : d.Linked)
    (hfuel : BLOCK_NUM ≤ fuel)
    (hfound : ∀ h d', d.lookup p = some h → Wiped d d' (d.chain h) → Q 0 d')
    (hnone : d.lookup p = none → Q (-ENOENT) d) : Safe (aofsDeleteFile fuel p) d Q := by
  cases hf : d.lookup p with
  | some h =>
    have hc := hl.ends h (lookup_eq_some.mp hf).1.1
    exact safe_delete_found hf hc (hc.length_le.trans hfuel) fun d' hd => hfound h d' hf hd.toWiped
  | none =>
    refine safe_bind (safe_newBlock fun b => safe_bind (safe_find_missing hf ?_))
    dsimp only
    rw [if_pos (by omega)]
    exact safe_ret (hnone hf)

/-! ### Shrinking -/

lemma zeroFrom_byte (b : Block) (k x : ℕ) :
    (b.zeroFrom k).byte x = if x < k then b.byte x else 0 := by
  unfold Block.byte Block.zeroFrom
  by_cases hx : x < BLOCK_DATA
  · simp only [Vector.getElem?_ofFn, hx, dif_pos, Option.getD_some]
    by_cases hk : x < k
    · simp [hk, hx]
    · simp [hk]
  · simp [hx]

lemma zeroFrom_dbm (b : Block) (k : ℤ) : (b.zeroFrom k).dbm = b.dbm := by rw [Block.zeroFrom]

/-- The last block to keep, with the end of its data zeroed. -/
def lastKept (b : Block) (k : ℕ) : Block := ({ b with dbm.next := -1 } : Block).zeroFrom k

lemma lastKept_dbm (b : Block) (k : ℕ) : (lastKept b k).dbm = { b.dbm with next := -1 } := by
  rw [lastKept, zeroFrom_dbm]

lemma lastKept_byte (b : Block) (k x : ℕ) :
    (lastKept b k).byte x = if x < k then b.byte x else 0 := by
  rw [lastKept, zeroFrom_byte]; rfl

lemma nodup_split (hn : (pre ++ i :: post).Nodup) :
    i ∉ pre ∧ i ∉ post ∧ ∀ j ∈ pre, j ∉ post := by
  obtain ⟨-, h2, h3⟩ := List.nodup_append.mp hn
  refine ⟨fun hi => h3 i hi i (by simp) rfl, (List.nodup_cons.mp h2).1, fun j hj hjp => ?_⟩
  exact h3 j hj j (List.mem_cons_of_mem _ hjp) rfl

section cut

variable {k : ℕ} (hl : d.Linked) (hf : d.IsFile p h) (hc : d.chain h = pre ++ i :: post)
  (hw : Wiped d d' post)
include hl hf hc hw

lemma Wiped.cut_blocks {j : Fin BLOCK_NUM} (hj : j ∈ pre) :
    (d'.put i (lastKept (d.blocks i) k)).blocks j = d.blocks j := by
  have hnd := (hl.ends h hf.1).nodup
  rw [hc] at hnd
  obtain ⟨h1, -, h3⟩ := nodup_split hnd
  rw [put_blocks_of_ne _ _ (by rintro rfl; exact h1 hj), hw.frame j (h3 j hj)]

lemma Wiped.cut_bytes (hk : k ≤ BLOCK_DATA) (x : ℕ) :
    (d'.put i (lastKept (d.blocks i) k)).byteAt (pre ++ [i]) x =
      if x < pre.length * BLOCK_DATA + k then d.byteAt (d.chain h) x else 0 := by
  have hpre : ∀ y, (d'.put i (lastKept (d.blocks i) k)).byteAt pre y = d.byteAt pre y :=
    byteAt_congr fun j hj => by rw [hw.cut_blocks hl hf hc hj]
  rw [hc, byteAt_append, byteAt_append, hpre, byteAt_cons, byteAt_cons, put_blocks_self,
    lastKept_byte, byteAt_nil]
  generalize pre.length * BLOCK_DATA = m
  by_cases hx : x < m
  · rw [if_pos hx, if_pos hx, if_pos (by omega)]
  · rw [if_neg hx, if_neg hx]
    by_cases hxk : x - m < k
    · rw [if_pos (by omega), if_pos (by omega), if_pos (by omega), if_pos (by omega)]
    · rw [if_neg hxk, ite_self, if_neg (by omega)]

lemma Wiped.cut (hp : p.length ≤ MAX_FILENAME) :
    Rewrites d (d'.put i (lastKept (d.blocks i) k)) p h (d.chain h) (pre ++ [i]) := by
  have hch := hl.ends h hf.1
  have hnd := hch.nodup
  rw [hc] at hch hnd
  obtain ⟨-, hipost, hdisj⟩ := nodup_split hnd
  -- only link and data of the last kept block change
  have hmeta : ∀ j ∈ pre ++ [i],
      ((d'.put i (lastKept (d.blocks i) k)).blocks j).dbm.head = (d.blocks j).dbm.head ∧
      ((d'.put i (lastKept (d.blocks i) k)).blocks j).dbm.filename =
        (d.blocks j).dbm.filename ∧
      ((d'.put i (lastKept (d.blocks i) k)).blocks j).dbm.st_size =
        (d.blocks j).dbm.st_size := by
    intro j hj
    rcases List.mem_append.mp hj with hj' | hj'
    · rw [hw.cut_blocks hl hf hc hj']; exact ⟨rfl, rfl, rfl⟩
    · rw [List.mem_singleton.mp hj', put_blocks_self, lastKept_dbm]; exact ⟨rfl, rfl, rfl⟩
  have hmem_iff : ∀ j, j ∈ pre ++ [i] ↔ j ∈ d.chain h ∧ j ∉ post := by
    intro j
    have h1 := hdisj j
    rw [hc]
    simp only [List.mem_append, List.mem_cons, List.not_mem_nil, or_false]
    constructor
    · rintro (hj | rfl)
      · exact ⟨Or.inl hj, h1 hj⟩
      · exact ⟨Or.inr (Or.inl rfl), hipost⟩
    · rintro ⟨hj | rfl | hj, hjp⟩
      · exact Or.inl hj
      · exact Or.inr rfl
      · exact absurd hj hjp
  have hsub : ∀ j ∈ post, j ∈ d.chain h := fun j hj => by rw [hc]; simp [hj]
  have hcut : (d'.put i (lastKept (d.blocks i) k)).Chain (addr h) (pre ++ [i]) := by
    obtain ⟨r, hr1, hr2⟩ := seg_append.mp hch
    refine seg_append.mpr ⟨r, (seg_congr fun j hj => ?_).mpr hr1, ?_⟩
    · rw [Disk.next, Disk.next, hw.cut_blocks hl hf hc hj]
    · refine seg_cons.mpr ⟨(seg_cons.mp hr2).1, seg_nil.mpr ?_⟩
      rw [Disk.next, put_blocks_self, lastKept_dbm]
  obtain ⟨-, hname, hsize⟩ := hmeta h hcut.mem_start
  refine ⟨Or.inl ⟨hf.1, rfl⟩, ⟨hw.total, ?_, ?_, ?_, Or.inr ⟨hcut, ?_, ?_⟩⟩, fun _ => hf.2,
    fun _ => ?_⟩
  · -- the blocks off the chain
    intro j hj hj'
    have hji : j ≠ i := by rintro rfl; exact hj' (by simp)
    rw [put_blocks_of_ne _ _ hji, hw.frame j fun hjp => hj (hsub j hjp)]
  · -- the bitmap: the blocks behind the cut are free
    intro j
    rw [allocated_put, hw.alloc, hmem_iff]
    constructor
    · rintro ⟨h1, h2⟩
      by_cases hj : j ∈ d.chain h
      · exact Or.inl ⟨hj, h1⟩
      · exact Or.inr ⟨hj, h2⟩
    · rintro (⟨h1, h2⟩ | ⟨h1, h2⟩)
      · exact ⟨h2, hl.alloc h hf.1 j h1⟩
      · exact ⟨fun hjp => h1 (hsub j hjp), h2⟩
  · exact fun j hj hj' _ => hj' ((hmem_iff j).mp hj).1
  · -- no block of the rest is a head
    intro j hj
    rw [(hmeta j hj).1]
    exact ⟨hl.heads h hf.1 j ((hmem_iff j).mp hj).1, fun hjh => by rw [hjh]; exact hf.1.2⟩
  · rw [hsize]; exact hl.size_nonneg h hf.1
  · exact Block.name_eq hp hf.2 hname

end cut

/-! ### Growing -/

/-- What the loop over the new blocks does, when `i` is the last block of the chain: the
blocks `new` are linked in behind it. -/
structure Grown (d d' : Disk) (p : CStr) (i : Fin BLOCK_NUM) (new : List (Fin BLOCK_NUM)) :
    Prop where
  total : d'.sb.totalblocks = d.sb.totalblocks
  frame : ∀ j, j ≠ i → j ∉ new → d'.blocks j = d.blocks j
  alloc : ∀ j, d'.Allocated j ↔ j ∈ new ∨ d.Allocated j
  fresh : ∀ j ∈ new, ¬ d.Allocated j
  chain : d'.Chain (addr i) (i :: new)
  first : ∃ n, d'.blocks i = { d.blocks i with dbm.next := n }
  added : ∀ j ∈ new, (d'.blocks j).dbm.head = 0 ∧ (d'.blocks j).name = p ∧
    (d'.blocks j).data = .replicate BLOCK_DATA 0

lemma Grown.refl (hend : d.next i = -1) : Grown d d p i [] := by
  refine ⟨rfl, by simp, by simp, by simp, seg_cons.mpr ⟨rfl, seg_nil.mpr hend⟩, ⟨_, rfl⟩,
    by simp⟩

lemma Grown.cons {f : Fin BLOCK_NUM} {b0 b : Block} (ha : d.Allocated i) (hf : ¬ d.Allocated f)
    (hb : Cleared b) (hp : p.length ≤ MAX_FILENAME)
    (hg : Grown ((((d.mark f).put f b0).put i { d.blocks i with dbm.next := addr f }).put f
      (b.strcpyFilename p)) d' p f new) : Grown d d' p i (f :: new) := by
  have hif : i ≠ f := by rintro rfl; exact hf ha
  have halloc := hg.alloc
  have hfresh := hg.fresh
  simp only [allocated_put, allocated_mark] at halloc hfresh
  have hin : i ∉ new := fun hi => hfresh i hi (Or.inr ha)
  have hdi : d'.blocks i = { d.blocks i with dbm.next := addr f } := by
    rw [hg.frame i hif hin, put_blocks_of_ne _ _ hif, put_blocks_self]
  obtain ⟨n, hn⟩ := hg.first
  rw [put_blocks_self, b.strcpyFilename_short hp] at hn
  refine ⟨hg.total, ?_, ?_, ?_, ?_, ⟨_, hdi⟩, ?_⟩
  · -- the blocks that are not linked in
    intro j h1 h2
    rw [List.mem_cons, not_or] at h2
    rw [hg.frame j h2.1 h2.2, put_blocks_of_ne _ _ h2.1, put_blocks_of_ne _ _ h1,
      put_blocks_of_ne _ _ h2.1, mark_blocks]
  · intro j
    rw [halloc, List.mem_cons]
    tauto
  · intro j hj
    rcases List.mem_cons.mp hj with rfl | hj'
    · exact hf
    · exact fun haj => hfresh j hj' (Or.inr haj)
  · -- `i` leads to `f`, and from there on it is the chain of the rest
    refine seg_cons.mpr ⟨rfl, ?_⟩
    rw [Disk.next, hdi]
    exact hg.chain
  · intro j hj
    rcases List.mem_cons.mp hj with rfl | hj'
    · -- `f` only gets a link after it has got its name
      refine ⟨?_, Block.name_eq hp (b.name_strcpyFilename hp) ?_, ?_⟩
      · rw [hn]; exact hb.head
      · rw [hn, b.strcpyFilename_short hp]
      · rw [hn]; exact hb.data
    · exact hg.added j hj'

lemma safe_appendBlocks {todo : ℕ} {cur : Block} {Q : Bool → Disk → Prop}
    (hp : p.length ≤ MAX_FILENAME) (ht : d.sb.totalblocks.toNat ≤ BLOCK_NUM)
    (ha : d.Allocated i) (hcur : d.blocks i = cur) (hend : cur.dbm.next = -1)
    (hQ : ∀ d' new, Grown d d' p i new → new.length = min todo d.freeCount →
      (new = [] → d' = d) → Q (decide (todo ≤ d.freeCount)) d') :
    Safe (appendBlocks p todo (addr i) cur) d Q := by
  induction todo generalizing d i cur with
  | zero =>
    have := hQ d [] (Grown.refl (by rw [Disk.next, hcur, hend])) (by simp) fun _ => rfl
    exact safe_ret (by simpa using this)
  | succ todo ih =>
    unfold appendBlocks
    refine safe_bind (safe_allocateBlock ht (fun f b0 hf hb0 => ?_) fun h0 => ?_)
    · -- the search has found `f`, which becomes the last block
      have hcount : ((d.mark f).put f b0).freeCount + 1 = d.freeCount := freeCount_mark hf.1
      have hfi : f ≠ i := by rintro rfl; exact hf.1.1 ha
      dsimp only
      rw [if_neg (addr_ne f)]
      refine safe_bind (safe_writeBlock (safe_bind (safe_readBlock ?_)))
      refine safe_bind (safe_clearBlock fun b hb => safe_bind (safe_writeBlock ?_))
      refine ih ht ?_ (put_blocks_self ..) ?_ fun d' new hg hlen _ => ?_
      · simp
      · rw [b.strcpyFilename_short hp]; exact hb.next
      · rw [freeCount_put, freeCount_put] at hlen ⊢
        have hdec : (todo + 1 ≤ d.freeCount) ↔ todo ≤ ((d.mark f).put f b0).freeCount := by omega
        rw [← hcur] at hg
        have := hQ d' (f :: new) (hg.cons ha hf.1.1 hb hp) (by rw [List.length_cons]; omega)
          fun hnil => by cases hnil
        simpa only [hdec] using this
    · -- the disk is full
      dsimp only
      rw [if_pos rfl]
      have := hQ d [] (Grown.refl (by rw [Disk.next, hcur, hend])) (by simp [h0]) fun _ => rfl
      exact safe_ret (by simpa [h0] using this)

section grown

variable (hl : d.Linked) (hf : d.IsFile p h) (hg : Grown d d' p i new)
include hl hf hg

lemma Grown.blocks {j : Fin BLOCK_NUM} (hj : j ∈ d.chain h) :
    ∃ n, d'.blocks j = { d.blocks j with dbm.next := n } := by
  by_cases hji : j = i
  · rw [hji]; exact hg.first
  · have hjn : j ∉ new := fun hn => hg.fresh j hn (hl.alloc h hf.1 j hj)
    exact ⟨_, hg.frame j hji hjn⟩

/-- New blocks hold zeros, as does what is behind the chain. -/
lemma Grown.bytes (x : ℕ) : d'.byteAt (d.chain h ++ new) x = d.byteAt (d.chain h) x := by
  have hnew : ∀ (c : List (Fin BLOCK_NUM)) (y : ℕ), c ⊆ new → d'.byteAt c y = 0 := by
    intro c
    induction c with
    | nil => intro y _; exact byteAt_nil _ _
    | cons j c ih =>
      intro y hsub
      rw [byteAt_cons, ih _ fun k hk => hsub (List.mem_cons_of_mem _ hk), Block.byte,
        (hg.added j (hsub (by simp))).2.2]
      by_cases hy : y < BLOCK_DATA <;> simp [hy]
  have hold : ∀ y, d'.byteAt (d.chain h) y = d.byteAt (d.chain h) y :=
    byteAt_congr fun j hj => by
      obtain ⟨n, hn⟩ := hg.blocks hl hf hj
      rw [hn]
  rw [byteAt_append, hnew new _ (List.Subset.refl _), hold]
  split
  · rfl
  · rename_i hx
    exact (byteAt_of_le (by omega)).symm

lemma Grown.rewrites (hc : d.chain h = pre ++ [i]) (hp : p.length ≤ MAX_FILENAME) :
    Rewrites d d' p h (d.chain h) (d.chain h ++ new) := by
  have hch := hl.ends h hf.1
  have hi : i ∈ d.chain h := by rw [hc]; simp
  have hipre : i ∉ pre := by
    have hnd := hch.nodup
    rw [hc] at hnd
    exact (nodup_split hnd).1
  have hmeta : ∀ j ∈ d.chain h, (d'.blocks j).dbm.head = (d.blocks j).dbm.head ∧
      (d'.blocks j).dbm.filename = (d.blocks j).dbm.filename ∧
      (d'.blocks j).dbm.st_size = (d.blocks j).dbm.st_size := by
    intro j hj
    obtain ⟨n, hn⟩ := hg.blocks hl hf hj
    rw [hn]; exact ⟨rfl, rfl, rfl⟩
  obtain ⟨-, hname, hsize⟩ := hmeta h (hl.mem_chain hf.1)
  refine rewrites_append hl hf hp hg.total (fun j h1 h2 => ?_) hg.alloc hg.fresh ?_
    (fun j hj => (hmeta j hj).1) (fun j hj => (hg.added j hj).1) hname
    (by rw [hsize]; exact hl.size_nonneg h hf.1)
  · exact hg.frame j (by rintro rfl; exact h1 hi) h2
  · rw [hc] at hch ⊢
    obtain ⟨r, hr1, hr2⟩ := seg_append.mp hch
    rw [List.append_assoc, List.singleton_append]
    refine seg_append.mpr ⟨r, (seg_congr fun j hj => ?_).mpr hr1, ?_⟩
    · have hji : j ≠ i := by rintro rfl; exact hipre hj
      have hjn : j ∉ new := fun hn => hg.fresh j hn (hl.alloc h hf.1 j (by rw [hc]; simp [hj]))
      rw [Disk.next, Disk.next, hg.frame j hji hjn]
    · rw [(seg_cons.mp hr2).1]; exact hg.chain

end grown

/-! ### The new size -/

/-- The number of full blocks of a size, as `aofs_truncate_file` computes it. -/
def blockCount (size : ℤ) : ℤ := toInt (toULong size / BLOCK_DATA)

lemma blockCount_eq {size : ℕ} (h : size / BLOCK_DATA ≤ INT_MAX) :
    blockCount size = (size / BLOCK_DATA : ℕ) := by
  simp only [INT_MAX, BLOCK_DATA] at h
  rw [blockCount, toULong_of_range (by omega) (by omega), ← Int.natCast_ediv]
  simp only [BLOCK_DATA]
  rw [toInt_of_range (by omega) (by omega)]

lemma blockCount_of_le {size : ℕ} (h : size ≤ BLOCK_NUM * BLOCK_DATA) :
    blockCount size = (size / BLOCK_DATA : ℕ) :=
  blockCount_eq ((Nat.div_le_div_right h).trans (by decide))

/-- The disk after the new size was stored over `d`. -/
def sizeStored (d : Disk) (h : Fin BLOCK_NUM) (size : ℤ) : Disk :=
  d.put h { d.blocks h with dbm.st_size := size }

lemma safe_storeSize {size : ℤ} {cur : Block} {Q : ℤ → Disk → Prop}
    (hQ : Q 0 (sizeStored d h size)) : Safe (storeSize (addr h) size cur) d Q :=
  safe_bind (safe_readBlock (safe_bind (safe_writeBlock
    (safe_bind (safe_printAofs (safe_ret hQ))))))

section stored

variable {size : ℤ}

lemma stored_rewrites (hl : d.Linked) (hf : d.IsFile p h) (hp : p.length ≤ MAX_FILENAME)
    (h0 : 0 ≤ size) : Rewrites d (sizeStored d h size) p h (d.chain h) (d.chain h) := by
  refine rewrites_head hl hf.1 hf.2 ?_ rfl hf.1.2 h0
  exact Block.name_eq hp hf.2 rfl

lemma Disk.Rewrites.stored {c c' : List (Fin BLOCK_NUM)} (hr : Rewrites d d' p h c c')
    (hl : d.Linked) (hp : p.length ≤ MAX_FILENAME) (hne : c' ≠ []) (h0 : 0 ≤ size) :
    Rewrites d (sizeStored d' h size) p h c c' := by
  have hh := hr.isHead hl hne
  have hst := stored_rewrites (hr.linked hl) ⟨hh, hr.after hh⟩ hp h0
  rw [hr.chain_eq hl hh] at hst
  exact hr.trans hst (List.Subset.refl _)

@[simp] lemma stored_size : ((sizeStored d h size).blocks h).dbm.st_size = size := by
  rw [sizeStored, put_blocks_self]

@[simp] lemma stored_bytes (c : List (Fin BLOCK_NUM)) (x : ℕ) :
    (sizeStored d h size).byteAt c x = d.byteAt c x := by
  refine byteAt_congr (fun j _ => ?_) x
  by_cases hj : j = h
  · rw [hj, sizeStored, put_blocks_self]
  · rw [sizeStored, put_blocks_of_ne _ _ hj]

end stored

/-- The number of blocks that `aofs_truncate_file` links in to grow a file. -/
def missingBlocks (oldSize size : ℤ) : ℕ := (toInt (blockCount size - blockCount oldSize)).toNat

/-- What `aofs_truncate_file` does to the file with head `h`: its result and the disk. -/
inductive Truncated (d : Disk) (p : CStr) (h : Fin BLOCK_NUM) (size : ℕ) : ℤ → Disk → Prop
  /-- The chain stays. -/
  | kept {e : Disk} (rewrites : Rewrites d e p h (d.chain h) (d.chain h))
      (newSize : (e.blocks h).dbm.st_size = size)
      (less : (size : ℤ) ≤ (d.blocks h).dbm.st_size)
      (bytes : ∀ x, e.byteAt (d.chain h) x = d.byteAt (d.chain h) x) : Truncated d p h size 0 e
  /-- The chain is cut behind its block number `blockCount size`. -/
  | cut {e : Disk} (c : List (Fin BLOCK_NUM)) (rewrites : Rewrites d e p h (d.chain h) c)
      (newSize : (e.blocks h).dbm.st_size = size)
      (less : (size : ℤ) < (d.blocks h).dbm.st_size)
      (length : c.length = (blockCount size).toNat + 1)
      (bytes : ∀ x, e.byteAt c x =
        if x < (blockCount size).toNat * BLOCK_DATA + size % BLOCK_DATA
          then d.byteAt (d.chain h) x else 0) : Truncated d p h size 0 e
  /-- The blocks `new` are linked in. -/
  | grown {e : Disk} (new : List (Fin BLOCK_NUM))
      (rewrites : Rewrites d e p h (d.chain h) (d.chain h ++ new))
      (newSize : (e.blocks h).dbm.st_size = size)
      (more : (d.blocks h).dbm.st_size < size)
      (free : missingBlocks (d.blocks h).dbm.st_size size ≤ d.freeCount)
      (length : new.length = missingBlocks (d.blocks h).dbm.st_size size)
      (bytes : ∀ x, e.byteAt (d.chain h ++ new) x = d.byteAt (d.chain h) x) :
      Truncated d p h size 0 e
  /-- Only the blocks `new` were free. The size is the old one. -/
  | full {e : Disk} (new : List (Fin BLOCK_NUM))
      (rewrites : Rewrites d e p h (d.chain h) (d.chain h ++ new))
      (oldSize : (e.blocks h).dbm.st_size = (d.blocks h).dbm.st_size)
      (more : (d.blocks h).dbm.st_size < size)
      (missing : d.freeCount < missingBlocks (d.blocks h).dbm.st_size size)
      (bytes : ∀ x, e.byteAt (d.chain h ++ new) x = d.byteAt (d.chain h) x) :
      Truncated d p h size (-1) e

section truncate

variable {size : ℕ} (hl : d.Linked) (hf : d.IsFile p h) (hp : p.length ≤ MAX_FILENAME)
include hl hf hp

lemma Grown.truncated (hc : d.chain h = pre ++ [i]) (hg : Grown d d' p i new)
    (hmore : (d.blocks h).dbm.st_size < size)
    (hfree : missingBlocks (d.blocks h).dbm.st_size size ≤ d.freeCount)
    (hlen : new.length = missingBlocks (d.blocks h).dbm.st_size size) :
    Truncated d p h size 0 (sizeStored d' h size) := by
  refine .grown new ?_ stored_size hmore hfree hlen fun x => ?_
  · exact (hg.rewrites hl hf hc hp).stored hl hp (by simp [hc]) (Int.natCast_nonneg _)
  · rw [stored_bytes, hg.bytes hl hf]

lemma Wiped.truncated (hc : d.chain h = pre ++ i :: post) (hw : Wiped d d' post)
    (hless : (size : ℤ) < (d.blocks h).dbm.st_size)
    (hlen : pre.length = (blockCount size).toNat) :
    Truncated d p h size 0
      (sizeStored (d'.put i (lastKept (d.blocks i) (size % BLOCK_DATA))) h size) := by
  have hmod : size % BLOCK_DATA ≤ BLOCK_DATA := (Nat.mod_lt _ (by decide)).le
  refine .cut (pre ++ [i]) ?_ stored_size hless ?_ fun x => ?_
  · exact (hw.cut hl hf hc hp).stored hl hp (by simp) (Int.natCast_nonneg _)
  · rw [List.length_append, hlen, List.length_singleton]
  · rw [stored_bytes, hw.cut_bytes hl hf hc hmod, hlen]

end truncate

section spec

variable {fuel size : ℕ} {Q : ℤ → Disk → Prop} (hl : d.Linked) (hfuel : BLOCK_NUM ≤ fuel)

include hl hfuel in
/-- The branch that drops blocks: those behind block number `blockCount size` are freed. -/
lemma safe_shrink (hh : d.IsHead h) (hwalk : (blockCount size).toNat < (d.chain h).length)
    (hQ : ∀ pre i post d', d.chain h = pre ++ i :: post → pre.length = (blockCount size).toNat →
      Freed d d' (· ∈ post) →
        Q 0 (sizeStored (d'.put i (lastKept (d.blocks i) (size % BLOCK_DATA))) h size)) :
    Safe (do
      let (prev, cur) ← seekKept (blockCount size).toNat (addr h) (d.blocks h)
      deleteChain fuel cur.dbm.next
      let cur := { cur with dbm.next := -1 }
      let cur := cur.zeroFrom (size % BLOCK_DATA : ℕ)
      writeBlock prev cur
      storeSize (addr h) size cur) d Q := by
  obtain ⟨pre, i, post, hc, hlen⟩ := exists_split hwalk
  have hch := hl.ends h hh
  rw [hc] at hch
  obtain ⟨r, -, hr⟩ := seg_append.mp hch
  have hpost : d.Chain (d.blocks i).dbm.next post := (seg_cons.mp hr).2
  rw [← hlen]
  refine safe_bind (safe_seekKept hch ?_)
  refine safe_bind (safe_deleteChain_freed hpost (hpost.length_le.trans hfuel) fun d' hd => ?_)
  exact safe_bind (safe_writeBlock (safe_storeSize (hQ pre i post d' hc hlen hd)))

include hl hfuel in
lemma safe_grow {n : ℕ} (hh : d.IsHead h) (hp : p.length ≤ MAX_FILENAME)
    (hQ : ∀ pre i new d', d.chain h = pre ++ [i] → Grown d d' p i new →
      new.length = min n d.freeCount → (new = [] → d' = d) →
        (n ≤ d.freeCount → Q 0 (sizeStored d' h size)) ∧ (d.freeCount < n → Q (-1) d')) :
    Safe (do
      let (prev, cur) ← seekLast fuel (addr h) (d.blocks h)
      if ← appendBlocks p n prev cur then
        storeSize (addr h) size cur
      else
        return -1) d Q := by
  obtain ⟨pre, i, hc⟩ : ∃ pre i, d.chain h = pre ++ [i] := by
    have hne : d.chain h ≠ [] := List.ne_nil_of_mem (hl.mem_chain hh)
    exact ⟨_, _, (List.dropLast_append_getLast hne).symm⟩
  have hch := hl.ends h hh
  have hlen := hch.length_le
  rw [hc, List.length_append, List.length_singleton] at hlen
  rw [hc] at hch
  obtain ⟨r, -, hr⟩ := seg_append.mp hch
  have hend : (d.blocks i).dbm.next = -1 := seg_nil.mp (seg_cons.mp hr).2
  have hi : d.Allocated i := hl.alloc h hh i (by rw [hc]; simp)
  refine safe_bind (safe_seekLast hch (by omega) ?_)
  refine safe_bind (safe_appendBlocks hp hl.total_le hi rfl hend fun d' new hg hnew hsame => ?_)
  obtain ⟨h0, h1⟩ := hQ pre i new d' hc hg hnew hsame
  by_cases hfree : n ≤ d.freeCount
  · rw [if_pos (decide_eq_true hfree)]
    exact safe_storeSize (h0 hfree)
  · rw [if_neg (by simpa using hfree)]
    exact safe_ret (h1 (not_le.mp hfree))

lemma safe_aofsTruncateFile_found (hf : d.lookup p = some h) (hs : size ≤ OFF_MAX)
    (hcut : (size : ℤ) < (d.blocks h).dbm.st_size →
      toInt (blockCount (d.blocks h).dbm.st_size - blockCount size) ≠ 0 → Safe (do
        let (prev, cur) ← seekKept (blockCount size).toNat (addr h) (d.blocks h)
        deleteChain fuel cur.dbm.next
        let cur := { cur with dbm.next := -1 }
        let cur := cur.zeroFrom (size % BLOCK_DATA : ℕ)
        writeBlock prev cur
        storeSize (addr h) size cur) d Q)
    (hgrow : (d.blocks h).dbm.st_size < size →
      toInt (blockCount size - blockCount (d.blocks h).dbm.st_size) ≠ 0 → Safe (do
        let (prev, cur) ← seekLast fuel (addr h) (d.blocks h)
        if ← appendBlocks p (missingBlocks (d.blocks h).dbm.st_size size) prev cur then
          storeSize (addr h) size cur
        else
          return -1) d Q)
    (hkept : ((size : ℤ) < (d.blocks h).dbm.st_size →
      toInt (blockCount (d.blocks h).dbm.st_size - blockCount size) = 0) →
        ((d.blocks h).dbm.st_size < size →
          toInt (blockCount size - blockCount (d.blocks h).dbm.st_size) = 0) →
            Q 0 (sizeStored d h size)) : Safe (aofsTruncateFile fuel p size) d Q := by
  have hoff : toInt (toULong (size : ℤ) % (BLOCK_DATA : ℕ)) = (size % BLOCK_DATA : ℕ) := by
    simp only [OFF_MAX, BLOCK_DATA] at hs ⊢
    rw [toULong_of_range (by omega) (by omega), toInt_of_range (by omega) (by omega)]
    rfl
  refine safe_bind (safe_newBlock fun b => safe_bind (safe_find_found hf ?_))
  dsimp only
  rw [if_neg (addr_ne h), hoff]
  split
  · -- the size goes down: blocks are dropped if their number does
    rename_i hlt
    split
    · rename_i hdiff
      exact hcut hlt hdiff
    · rename_i hdiff
      exact safe_storeSize (hkept (fun _ => not_not.mp hdiff) fun hmore => absurd hmore (by omega))
  · rename_i hnot
    split
    · -- it goes up: blocks are linked in if their number does
      rename_i hmore
      split
      · rename_i hdiff
        exact hgrow hmore hdiff
      · rename_i hdiff
        exact safe_storeSize (hkept (fun hlt => absurd hlt hnot) fun _ => not_not.mp hdiff)
    · rename_i hno
      exact safe_storeSize (hkept (fun hlt => absurd hlt hnot) fun hmore => absurd hmore hno)

end spec

/-- **`aofs_truncate_file`**, where the walk to the last block to keep stays on the chain. -/
theorem safe_aofsTruncateFile {fuel size : ℕ} {Q : ℤ → Disk → Prop} (hl : d.Linked)
    (hf : d.lookup p = some h) (hp : p.length ≤ MAX_FILENAME) (hfuel : BLOCK_NUM ≤ fuel)
    (hs : size ≤ OFF_MAX)
    (hwalk : (size : ℤ) < (d.blocks h).dbm.st_size →
      toInt (blockCount (d.blocks h).dbm.st_size - blockCount size) ≠ 0 →
        (blockCount size).toNat < (d.chain h).length)
    (hQ : ∀ r d', Truncated d p h size r d' → Q r d') :
    Safe (aofsTruncateFile fuel p size) d Q := by
  have hfile := (lookup_eq_some.mp hf).1
  have hkept := stored_rewrites hl hfile hp (Int.natCast_nonneg size)
  refine safe_aofsTruncateFile_found hf hs (fun hlt hdiff => ?_) (fun hmore _ => ?_) fun _ h0 => ?_
  · -- blocks are dropped
    refine safe_shrink hl hfuel hfile.1 (hwalk hlt hdiff) fun pre i post d' hc hlen hd => ?_
    exact hQ 0 _ (hd.toWiped.truncated hl hfile hp hc hlt hlen)
  · -- blocks are linked in
    refine safe_grow hl hfuel hfile.1 hp fun pre i new d' hc hg hnew _ =>
      ⟨fun hfree => ?_, fun hlt => ?_⟩
    · rw [min_eq_left hfree] at hnew
      exact hQ 0 _ (hg.truncated hl hfile hp hc hmore hfree hnew)
    · -- the disk is full, and the size stays
      obtain ⟨n, hn⟩ := hg.blocks hl hfile (hl.mem_chain hfile.1)
      refine hQ (-1) d' (.full new (hg.rewrites hl hfile hc hp) ?_ hmore hlt (hg.bytes hl hfile))
      rw [hn]
  · -- the number of blocks stays
    rcases le_or_gt (size : ℤ) (d.blocks h).dbm.st_size with hle | hmore
    · exact hQ 0 _ (.kept hkept stored_size hle (stored_bytes _))
    · have hnone : missingBlocks (d.blocks h).dbm.st_size size = 0 := by
        rw [missingBlocks, h0 hmore]
        rfl
      have hkept' : Rewrites d (sizeStored d h size) p h (d.chain h) (d.chain h ++ []) := by
        rw [List.append_nil]; exact hkept
      refine hQ 0 _ (.grown [] hkept' stored_size hmore (by omega) (by rw [hnone]; rfl) fun x => ?_)
      rw [List.append_nil, stored_bytes]

lemma safe_aofsTruncateFile_missing {fuel : ℕ} {size : ℤ} {Q : ℤ → Disk → Prop}
    (hf : d.lookup p = none) (hQ : Q (-ENOENT) d) : Safe (aofsTruncateFile fuel p size) d Q := by
  refine safe_bind (safe_newBlock fun b => safe_bind (safe_find_missing hf ?_))
  dsimp only
  rw [if_pos rfl]
  exact safe_ret hQ

/-! ### Budgets -/

lemma deleteChain_le {fuel fuel' : ℕ} (hf : fuel ≤ fuel') (n : ℤ) :
    (deleteChain fuel n).Le (deleteChain fuel' n) := by
  induction fuel generalizing n fuel' with
  | zero =>
    unfold deleteChain
    split
    · exact .refl _
    · exact .stuck _
  | succ fuel ih =>
    obtain ⟨fuel', rfl⟩ : ∃ k, fuel' = k + 1 := ⟨fuel' - 1, by omega⟩
    unfold deleteChain
    split
    · exact .refl _
    · exact Prog.le_bind (.refl _) fun n => ih (by omega) n

lemma seekLast_le {fuel fuel' : ℕ} (hf : fuel ≤ fuel') (prev : ℤ) (cur : Block) :
    (seekLast fuel prev cur).Le (seekLast fuel' prev cur) := by
  induction fuel generalizing prev cur fuel' with
  | zero =>
    unfold seekLast
    split
    · exact .refl _
    · exact .stuck _
  | succ fuel ih =>
    obtain ⟨fuel', rfl⟩ : ∃ k, fuel' = k + 1 := ⟨fuel' - 1, by omega⟩
    unfold seekLast
    split
    · exact .refl _
    · exact Prog.le_bind (.refl _) fun cur' => ih (by omega) _ cur'

lemma aofsDeleteFile_le {fuel fuel' : ℕ} (hf : fuel ≤ fuel') (p : CStr) :
    (aofsDeleteFile fuel p).Le (aofsDeleteFile fuel' p) := by
  refine Prog.le_bind (.refl _) fun b => Prog.le_bind (.refl _) fun r => ?_
  dsimp only
  split
  · exact .refl _
  · exact Prog.le_bind (deleteChain_le hf _) fun _ => .refl _

lemma aofsTruncateFile_le {fuel fuel' : ℕ} (hf : fuel ≤ fuel') (p : CStr) (size : ℤ) :
    (aofsTruncateFile fuel p size).Le (aofsTruncateFile fuel' p size) := by
  refine Prog.le_bind (.refl _) fun b => Prog.le_bind (.refl _) fun r => ?_
  dsimp only
  split
  · exact .refl _
  · split
    · split
      · refine Prog.le_bind (.refl _) fun x => ?_
        exact Prog.le_bind (deleteChain_le hf _) fun _ => .refl _
      · exact .refl _
    · split
      · split
        · exact Prog.le_bind (seekLast_le hf _ _) fun _ => .refl _
        · exact .refl _
      · exact .refl _

end Messaround.Aofs
