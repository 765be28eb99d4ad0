import Messaround.Aofs.Laws

/-!
The blocks and bits of a truncate: what shrinking frees, and what is left of a growth that
finds too few free blocks.

Growing links in one block after the other and undoes nothing, so a failure leaves all the
blocks that were free in the chain of the file.
-/

namespace Messaround.Aofs

open Messaround.CInt Messaround.Segment Disk

variable {d d' : Disk} {p : CStr} {h i : Fin BLOCK_NUM} {pre post : List (Fin BLOCK_NUM)}
  {size fuel : ℕ}

/-! ### Shrinking -/

/-- The accounts of a truncate that drops blocks: with `n = size / BLOCK_DATA`, the first
`n + 1` blocks stay in the chain, the others are wiped and free, no other bit changes, and
the data of the kept blocks is cut at `size`. -/
structure Shrunk (d d' : Disk) (p : CStr) (h : Fin BLOCK_NUM) (size : ℕ) (r : ℤ) : Prop where
  result : r = 0
  file : d'.lookup p = some h
  chain : d'.Chain (addr h) ((d.chain h).take (size / BLOCK_DATA + 1))
  freed : ∀ i ∈ (d.chain h).drop (size / BLOCK_DATA + 1),
    Cleared (d'.blocks i) ∧ ¬ d'.Allocated i
  bits : ∀ k : ℕ, (∀ i ∈ (d.chain h).drop (size / BLOCK_DATA + 1), (i : ℕ) ≠ k) →
    isSet d'.sb.bitmap k = isSet d.sb.bitmap k
  front : ∀ i ∈ (d.chain h).take (size / BLOCK_DATA), (d'.blocks i).data = (d.blocks i).data
  last : ∃ i, (d.chain h)[size / BLOCK_DATA]? = some i ∧
    ∀ x, (d'.blocks i).byte x = if x < size % BLOCK_DATA then (d.blocks i).byte x else 0

lemma stored_data (d : Disk) (h i : Fin BLOCK_NUM) (size : ℤ) :
    ((sizeStored d h size).blocks i).data = (d.blocks i).data := by
  by_cases hi : i = h
  · rw [hi, sizeStored, put_blocks_self]
  · rw [sizeStored, put_blocks_of_ne _ _ hi]

lemma Freed.shrunk (hw : d.WellFormed) (hf : d.lookup p = some h)
    (hc : d.chain h = pre ++ i :: post) (hlen : pre.length = size / BLOCK_DATA)
    (hd : Freed d d' (· ∈ post)) :
    Shrunk d (sizeStored (d'.put i (lastKept (d.blocks i) (size % BLOCK_DATA))) h size) p h size
      0 := by
  have hl := hw.toLinked
  have hfile := (lookup_eq_some.mp hf).1
  have hp := hw.short_path hf
  have hr : Rewrites d (sizeStored (d'.put i (lastKept (d.blocks i) (size % BLOCK_DATA))) h size)
      p h (d.chain h) (pre ++ [i]) :=
    (hd.toWiped.cut hl hfile hc hp).stored hl hp (by simp) (Int.natCast_nonneg _)
  have hhead := hr.isHead hl (by simp)
  have hchain := (hr.linked hl).ends h hhead
  rw [hr.chain_eq hl hhead] at hchain
  -- the kept blocks and the freed ones
  have htake : (d.chain h).take (size / BLOCK_DATA + 1) = pre ++ [i] := by
    rw [hc, ← hlen, List.append_cons, List.take_left' (by simp)]
  have hdrop : (d.chain h).drop (size / BLOCK_DATA + 1) = post := by
    rw [hc, ← hlen, List.append_cons, List.drop_left' (by simp)]
  have hnd := (hl.ends h hfile.1).nodup
  rw [hc] at hnd
  obtain ⟨hipre, hipost, hdisj⟩ := nodup_split hnd
  have hhpost : h ∉ post := fun hmem => by
    rcases List.mem_append.mp hchain.mem_start with hh | hh
    · exact hdisj h hh hmem
    · exact hipost (List.mem_singleton.mp hh ▸ hmem)
  refine ⟨rfl, hr.lookup hl hf (by simp), by rw [htake]; exact hchain, ?_, ?_, ?_, ?_⟩
  · intro j hj
    rw [hdrop] at hj
    have hji : j ≠ i := by rintro rfl; exact hipost hj
    have hjh : j ≠ h := by rintro rfl; exact hhpost hj
    rw [sizeStored, allocated_put, allocated_put, put_blocks_of_ne _ _ hjh,
      put_blocks_of_ne _ _ hji]
    exact hd.wiped j hj
  · intro k hk
    rw [hdrop] at hk
    exact hd.bits k hk
  · intro j hj
    rw [hc, List.take_left' hlen] at hj
    have hji : j ≠ i := by rintro rfl; exact hipre hj
    rw [stored_data, put_blocks_of_ne _ _ hji, hd.kept j (hdisj j hj)]
  · refine ⟨i, by rw [hc, ← hlen]; simp, fun x => ?_⟩
    rw [Block.byte, stored_data, put_blocks_self, ← Block.byte, lastKept_byte]

/-- **The accounts of shrinking.** -/
theorem shrink_accounts (hw : d.WellFormed) (hf : d.lookup p = some h)
    (hn : size / BLOCK_DATA < d.fileSize h / BLOCK_DATA) (hfuel : BLOCK_NUM ≤ fuel) :
    Ends (aofsTruncateFile fuel p size) d (fun r d' => Shrunk d d' p h size r) := by
  have hl := hw.toLinked
  have hhead := (lookup_eq_some.mp hf).1.1
  have hless : size < d.fileSize h := lt_of_not_ge fun hge =>
    absurd (Nat.div_le_div_right hge) (not_le.mpr hn)
  have hst := hw.st_size hf
  have hless' : (size : ℤ) < (d.blocks h).dbm.st_size := by rw [hst]; exact_mod_cast hless
  have himage : d.fileSize h ≤ BLOCK_NUM * BLOCK_DATA :=
    Op.size_le_image hl hhead (hw.sized h hhead) (by rw [hst])
  -- the numbers of blocks do not wrap
  have hold : blockCount (d.blocks h).dbm.st_size = (d.fileSize h / BLOCK_DATA : ℕ) := by
    rw [hst]; exact blockCount_of_le himage
  have hnew : blockCount size = (size / BLOCK_DATA : ℕ) :=
    blockCount_of_le (hless.le.trans himage)
  have hmany : d.fileSize h / BLOCK_DATA ≤ BLOCK_NUM :=
    Nat.div_le_of_le_mul (by rw [mul_comm]; exact himage)
  have hdiff : toInt (blockCount (d.blocks h).dbm.st_size - blockCount size) ≠ 0 := by
    rw [hold, hnew]
    generalize d.fileSize h / BLOCK_DATA = a at *
    generalize size / BLOCK_DATA = b at *
    simp only [BLOCK_NUM] at hmany
    rw [toInt_of_range (by omega) (by omega)]
    omega
  have hwalk := Op.onChain_of_sized hl hw.sized (.truncate p size) h hf hless' hdiff
  refine (safe_aofsTruncateFile_found hf (hless.le.trans (himage.trans (by decide)))
    (fun _ _ => ?_) (fun hmore _ => absurd hmore (by omega))
    fun hzero _ => absurd (hzero hless') hdiff).ends
  refine safe_shrink hl hfuel hhead hwalk fun pre i post d' hc hlen hd => ?_
  rw [hnew, Int.toNat_natCast] at hlen
  exact hd.shrunk hw hf hc hlen

/-- A file of two blocks that is cut inside the first one. -/
theorem shrink_accounts_twoBlocks : Ends (aofsTruncateFile BLOCK_NUM slashA (1 : ℕ)) twoBlocks
    fun r d' => Shrunk twoBlocks d' slashA 0 1 r := by
  refine shrink_accounts twoBlocks_wellFormed twoBlocks_onlyFile.1.lookup ?_ le_rfl
  rw [Disk.fileSize, twoBlocks_size]
  decide

/-! ### Growing -/

/-- The bitmap, the file `p` and every other file are as before. -/
structure LeftAlone (d d' : Disk) (p : CStr) (h : Fin BLOCK_NUM) : Prop where
  bitmap : d'.sb.bitmap = d.sb.bitmap
  file : d'.lookup p = some h
  chain : d'.chain h = d.chain h
  size : (d'.blocks h).dbm.st_size = (d.blocks h).dbm.st_size
  content : d'.content h = d.content h
  others : ∀ q, q ≠ p → d'.lookup q = d.lookup q ∧ ∀ g, d.lookup q = some g →
    d'.chain g = d.chain g ∧ ∀ i ∈ d.chain g, d'.blocks i = d.blocks i

lemma LeftAlone.refl (hf : d.lookup p = some h) : LeftAlone d d p h :=
  ⟨rfl, hf, rfl, rfl, rfl, fun _ _ => ⟨rfl, fun _ _ => ⟨rfl, fun _ _ => rfl⟩⟩⟩

section growth

variable (hw : d.WellFormed) (hf : d.lookup p = some h) (hs : size ≤ OFF_MAX)
  (hmore : d.fileSize h < size)
  (hfull : d.freeCount < missingBlocks (d.blocks h).dbm.st_size size) (hfuel : BLOCK_NUM ≤ fuel)
include hw hf hs hmore hfull hfuel

lemma safe_failedGrowth : Safe (aofsTruncateFile fuel p size) d fun r d' => r = -1 ∧
    (d'.chain h).length = (d.chain h).length + d.freeCount ∧ (d.freeCount = 0 → d' = d) := by
  have hl := hw.toLinked
  have hfile := (lookup_eq_some.mp hf).1
  have hp := hw.short_path hf
  have hst := hw.st_size hf
  refine safe_aofsTruncateFile_found hf hs (fun hlt _ => absurd hlt (by omega)) (fun _ _ => ?_)
    fun _ hzero => ?_
  · refine safe_grow hl hfuel hfile.1 hp fun pre i new d' hc hg hnew hsame =>
      ⟨fun hle => absurd hle (not_le.mpr hfull), fun _ => ?_⟩
    rw [min_eq_right hfull.le] at hnew
    have hr := hg.rewrites hl hfile hc hp
    refine ⟨rfl, ?_, fun h0 => hsame (List.length_eq_zero_iff.mp (hnew.trans h0))⟩
    rw [hr.chain_eq hl (hr.isHead hl (by simp [hc])), List.length_append, hnew]
  · rw [missingBlocks, hzero (by omega)] at hfull
    exact absurd hfull (Nat.not_lt_zero _)

lemma noneFree_of_leftAlone (h' : Ends (aofsTruncateFile fuel p size) d fun r d' =>
    r ≠ 0 ∧ LeftAlone d d' p h) : d.freeCount = 0 := by
  obtain ⟨r, d', ⟨-, hsame⟩, -, hlen, -⟩ :=
    Prog.Ends.meet h' (safe_failedGrowth hw hf hs hmore hfull hfuel).ends
  rw [hsame.chain] at hlen
  omega

/-- **When a failed growth leaves everything as it was**: if no block was free, and only
then. -/
theorem failedGrowth_iff : Ends (aofsTruncateFile fuel p size) d (fun r d' =>
    r ≠ 0 ∧ LeftAlone d d' p h) ↔ d.freeCount = 0 := by
  refine ⟨noneFree_of_leftAlone hw hf hs hmore hfull hfuel, fun h0 => ?_⟩
  refine (safe_failedGrowth hw hf hs hmore hfull hfuel).ends.mono fun r d' ⟨hr, _, hsame⟩ => ?_
  rw [hsame h0, hr]
  exact ⟨by omega, .refl hf⟩

end growth

lemma twoBytes_missing : twoBytes.freeCount <
    missingBlocks (twoBytes.blocks 0).dbm.st_size (BLOCK_NUM * BLOCK_DATA : ℕ) := by
  have hst : (twoBytes.blocks 0).dbm.st_size = (2 : ℕ) := diskA_size 2 _
  rw [hst, twoBytes_freeCount]
  decide

theorem failedGrowth_iff_twoBytes :
    Ends (aofsTruncateFile BLOCK_NUM slashA (BLOCK_NUM * BLOCK_DATA : ℕ)) twoBytes (fun r d' =>
      r ≠ 0 ∧ LeftAlone twoBytes d' slashA 0) ↔ twoBytes.freeCount = 0 :=
  failedGrowth_iff twoBytes_wellFormed twoBytes_onlyFile.1.lookup (by decide)
    (by rw [twoBytes_fileSize]; decide) twoBytes_missing le_rfl

/-- The growth that fails takes the 4095 free blocks. -/
theorem not_failedGrowth_twoBytes : twoBytes.WellFormed ∧ twoBytes.lookup slashA = some 0 ∧
    twoBytes.fileSize 0 < BLOCK_NUM * BLOCK_DATA ∧
    twoBytes.freeCount < missingBlocks (twoBytes.blocks 0).dbm.st_size
      (BLOCK_NUM * BLOCK_DATA : ℕ) ∧
    ¬ Ends (aofsTruncateFile BLOCK_NUM slashA (BLOCK_NUM * BLOCK_DATA : ℕ)) twoBytes fun r d' =>
      r ≠ 0 ∧ LeftAlone twoBytes d' slashA 0 := by
  have hsize : twoBytes.fileSize 0 < BLOCK_NUM * BLOCK_DATA := by rw [twoBytes_fileSize]; decide
  refine ⟨twoBytes_wellFormed, twoBytes_onlyFile.1.lookup, hsize, twoBytes_missing, fun h => ?_⟩
  have h0 := noneFree_of_leftAlone twoBytes_wellFormed twoBytes_onlyFile.1.lookup (by decide)
    hsize twoBytes_missing le_rfl h
  rw [twoBytes_freeCount] at h0
  cases h0

end Messaround.Aofs
