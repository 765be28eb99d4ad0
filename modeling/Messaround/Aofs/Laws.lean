import Messaround.Aofs.Runs

/-!
What writing and truncating do to the content of a file, and exactly when it is what the
content should be.

`aofs_write_file` stores the end of the write as the size, so a write inside a file cuts
it off. `aofs_truncate_file` neither clears the bytes behind the old end nor counts the
block that a partly filled last block needs.
-/

namespace Messaround.Aofs

open Messaround.CInt Messaround.Segment Disk

/-- The size of the file with head `h`. -/
def Disk.fileSize (d : Disk) (h : Fin BLOCK_NUM) : ℕ := (d.blocks h).dbm.st_size.toNat

variable {d d' : Disk} {p : CStr} {h : Fin BLOCK_NUM} {buf : ℕ → UInt8} {size offset fuel : ℕ}

namespace Disk.WellFormed

variable (hw : d.WellFormed) (hf : d.lookup p = some h)
include hw hf

lemma short_path : p.length ≤ MAX_FILENAME := by
  have hfile := (lookup_eq_some.mp hf).1
  rw [← hfile.2]; exact hw.short h hfile.1

lemma st_size : (d.blocks h).dbm.st_size = d.fileSize h :=
  (Int.toNat_of_nonneg (hw.size_nonneg h (lookup_eq_some.mp hf).1.1)).symm

lemma size_le : d.fileSize h ≤ (d.chain h).length * BLOCK_DATA := by
  have := hw.sized h (lookup_eq_some.mp hf).1.1
  rw [hw.st_size hf] at this
  exact_mod_cast this

lemma content_eq : d.content h = (List.range (d.fileSize h)).map (d.byteAt (d.chain h)) :=
  Disk.content_eq (hw.st_size hf) (hw.size_le hf)

end Disk.WellFormed

lemma chain_ne_nil (hl : d.Linked) (hf : d.lookup p = some h) : d.chain h ≠ [] :=
  List.ne_nil_of_mem (hl.mem_chain (lookup_eq_some.mp hf).1.1)

/-! ### Writing -/

/-- The bytes from `o` on replaced by `n` bytes of `buf`. -/
def overwrite (old : List UInt8) (buf : ℕ → UInt8) (o n : ℕ) : List UInt8 :=
  old.take o ++ (List.range n).map buf ++ old.drop (o + n)

/-- The write law: the bytes from the offset on, or from the end of the file, are replaced,
and the other ones stay. -/
structure WriteLaw (d d' : Disk) (p : CStr) (h : Fin BLOCK_NUM) (buf : ℕ → UInt8)
    (size offset : ℕ) : Prop where
  file : d'.lookup p = some h
  content : d'.content h = overwrite (d.content h) buf (min offset (d.fileSize h)) size
  size : (d'.blocks h).dbm.st_size = max (d.fileSize h) (min offset (d.fileSize h) + size)

lemma overwrite_to_end {f : ℕ → UInt8} {s o n : ℕ} (ho : o ≤ s) (hn : s ≤ o + n) :
    overwrite ((List.range s).map f) buf o n =
      (List.range (o + n)).map fun x => if o ≤ x ∧ x < o + n then buf (x - o) else f x := by
  have hdrop : ((List.range s).map f).drop (o + n) = [] := by
    rw [List.drop_eq_nil_iff]; simpa using hn
  rw [overwrite, hdrop, List.append_nil, ← List.map_take, List.take_range, min_eq_left ho,
    List.range_add, List.map_append, List.map_map]
  congr 1
  · refine List.map_congr_left fun x hx => ?_
    rw [List.mem_range] at hx
    rw [if_neg (by omega)]
  · refine List.map_congr_left fun x hx => ?_
    rw [List.mem_range] at hx
    rw [Function.comp_apply, if_pos (by omega), Nat.add_sub_cancel_left]

lemma Wrote.law {new : List (Fin BLOCK_NUM)} (hw : d.WellFormed) (hf : d.lookup p = some h)
    (h' : Wrote d d' p h new buf (min offset (d.fileSize h)) size)
    (hend : d.fileSize h ≤ min offset (d.fileSize h) + size) : WriteLaw d d' p h buf size offset := by
  have hne : d.chain h ++ new ≠ [] := by simp [chain_ne_nil hw.toLinked hf]
  have hfit := hw.size_le hf
  have hc := h'.rewrites.chain_eq hw.toLinked (h'.rewrites.isHead hw.toLinked hne)
  refine ⟨h'.rewrites.lookup hw.toLinked hf hne, ?_, ?_⟩
  · rw [hw.content_eq hf, overwrite_to_end (Nat.min_le_right _ _) hend,
      Disk.content_eq h'.size, hc]
    · exact List.map_congr_left fun x _ => h'.bytes x
    · rw [hc, List.length_append]
      rcases Nat.eq_zero_or_pos size with rfl | hpos
      · exact le_trans (by omega) (Nat.mul_le_mul_right _ (Nat.le_add_right _ _))
      · exact h'.room hpos
  · rw [h'.size]
    omega

lemma safe_write_existing (hw : d.WellFormed) (hf : d.lookup p = some h) (hs : size ≤ INT_MAX)
    (ho : offset ≤ OFF_MAX) (hroom : (Op.write p buf size offset).Room d) :
    Safe (aofsWriteFile p buf size offset) d fun r d' => r = size ∧
      ∃ new, Wrote d d' p h new buf (min offset (d.fileSize h)) size ∧ Taken d d' p new := by
  have hon := Op.onChain_of_sized hw.toLinked hw.sized (.write p buf size offset)
  exact safe_aofsWriteFile_found hw.toLinked hf (hw.short_path hf) hs ho rfl
    (fun hpos => ⟨hon h hf hpos, hroom.1 h hf hpos⟩) fun d' new h' ht => ⟨rfl, new, h', ht⟩

lemma end_of_writeLaw (hw : d.WellFormed) (hf : d.lookup p = some h) (hs : size ≤ INT_MAX)
    (ho : offset ≤ OFF_MAX) (hroom : (Op.write p buf size offset).Room d)
    (hlaw : Ends (aofsWriteFile p buf size offset) d fun _ d' =>
      WriteLaw d d' p h buf size offset) : d.fileSize h ≤ offset + size := by
  obtain ⟨_, d', hl, -, new, h', -⟩ := Prog.Ends.meet hlaw (safe_write_existing hw hf hs ho hroom).ends
  have := hl.size
  rw [h'.size] at this
  omega

/-- **When the write law holds**: for a write that reaches the end of the file, and for no
other one. -/
theorem writeLaw_iff (hw : d.WellFormed) (hf : d.lookup p = some h) (hs : size ≤ INT_MAX)
    (ho : offset ≤ OFF_MAX) (hroom : (Op.write p buf size offset).Room d) :
    Ends (aofsWriteFile p buf size offset) d (fun _ d' => WriteLaw d d' p h buf size offset) ↔
      d.fileSize h ≤ offset + size := by
  refine ⟨end_of_writeLaw hw hf hs ho hroom, fun hle => ?_⟩
  exact (safe_write_existing hw hf hs ho hroom).ends.mono fun _ d' ⟨_, new, h', _⟩ =>
    h'.law hw hf (by omega)

/-! ### Truncating -/

/-- The truncate law: the content is cut, or padded with zeros, to the new size, and the
chain has the blocks for it. -/
structure TruncateLaw (d d' : Disk) (p : CStr) (h : Fin BLOCK_NUM) (size : ℕ) (r : ℤ) : Prop where
  result : r = 0
  file : d'.lookup p = some h
  cut : size ≤ d.fileSize h → d'.content h = (d.content h).take size
  padded : d.fileSize h < size →
    d'.content h = d.content h ++ List.replicate (size - d.fileSize h) 0
  room : size ≤ (d'.chain h).length * BLOCK_DATA

/-- The new size does not exceed the old one; or the difference of the full blocks is free,
makes the chain long enough, and the bytes behind the old end are zero. -/
def TruncateFits (d : Disk) (h : Fin BLOCK_NUM) (size : ℕ) : Prop :=
  size ≤ d.fileSize h ∨
    (size / BLOCK_DATA - d.fileSize h / BLOCK_DATA ≤ d.freeCount ∧
      size ≤ ((d.chain h).length + (size / BLOCK_DATA - d.fileSize h / BLOCK_DATA)) * BLOCK_DATA ∧
      ∀ x, d.fileSize h ≤ x → x < size → d.byteAt (d.chain h) x = 0)

lemma freeCount_le (d : Disk) : d.freeCount ≤ BLOCK_NUM := by
  have h := Finset.card_filter_le Finset.univ d.IsFree
  rwa [Finset.card_univ, Fintype.card_fin] at h

lemma missingBlocks_eq {s n L : ℕ} (hs : s ≤ BLOCK_NUM * BLOCK_DATA) (hL : L ≤ BLOCK_NUM)
    (hn : n ≤ (L + BLOCK_NUM) * BLOCK_DATA) (hsn : s < n) :
    missingBlocks s n = n / BLOCK_DATA - s / BLOCK_DATA := by
  have hn' : n / BLOCK_DATA ≤ 2 * BLOCK_NUM := by
    refine Nat.div_le_of_le_mul (hn.trans ?_)
    rw [mul_comm, two_mul]
    exact Nat.mul_le_mul_left _ (Nat.add_le_add_right hL _)
  have hle : s / BLOCK_DATA ≤ n / BLOCK_DATA := Nat.div_le_div_right hsn.le
  rw [missingBlocks, blockCount_of_le hs, blockCount_eq (hn'.trans (by decide))]
  generalize n / BLOCK_DATA = a at *
  generalize s / BLOCK_DATA = b at *
  simp only [BLOCK_NUM] at hn'
  rw [toInt_of_range (by omega) (by omega)]
  omega

lemma content_of_bytes {c : List (Fin BLOCK_NUM)} {n : ℕ}
    (hs : (d'.blocks h).dbm.st_size = n) (hc : d'.chain h = c) (hfit : n ≤ c.length * BLOCK_DATA)
    (hb : ∀ x < n, d'.byteAt c x = d.byteAt (d.chain h) x) :
    d'.content h = (List.range n).map (d.byteAt (d.chain h)) := by
  subst hc
  rw [Disk.content_eq hs hfit]
  exact List.map_congr_left fun x hx => hb x (List.mem_range.mp hx)

lemma range_pad_iff {f : ℕ → UInt8} {s n : ℕ} (hsn : s ≤ n) :
    (List.range n).map f = (List.range s).map f ++ List.replicate (n - s) 0 ↔
      ∀ x, s ≤ x → x < n → f x = 0 := by
  obtain ⟨k, rfl⟩ := Nat.exists_eq_add_of_le hsn
  rw [List.range_add, List.map_append, List.map_map, Nat.add_sub_cancel_left,
    List.append_cancel_left_eq, List.eq_replicate_iff]
  constructor
  · rintro ⟨-, hz⟩ x hx hxk
    refine hz (f x) (List.mem_map.mpr ⟨x - s, List.mem_range.mpr (by omega), ?_⟩)
    rw [Function.comp_apply, Nat.add_sub_cancel' hx]
  · intro hz
    refine ⟨by simp, fun y hy => ?_⟩
    obtain ⟨x, hx, rfl⟩ := List.mem_map.mp hy
    rw [List.mem_range] at hx
    exact hz (s + x) (by omega) (by omega)

section law

variable {c : List (Fin BLOCK_NUM)} (hw : d.WellFormed) (hf : d.lookup p = some h)
  (hr : Rewrites d d' p h (d.chain h) c) (hs : (d'.blocks h).dbm.st_size = size)
include hw hf hr hs

lemma truncateLaw_cut (hne : c ≠ []) (hle : size ≤ d.fileSize h)
    (hfit : size ≤ c.length * BLOCK_DATA)
    (hb : ∀ x < size, d'.byteAt c x = d.byteAt (d.chain h) x) : TruncateLaw d d' p h size 0 := by
  have hc := hr.chain_eq hw.toLinked (hr.isHead hw.toLinked hne)
  refine ⟨rfl, hr.lookup hw.toLinked hf hne, fun _ => ?_, fun h => by omega, by rw [hc]; exact hfit⟩
  rw [content_of_bytes hs hc hfit hb, hw.content_eq hf, ← List.map_take, List.take_range,
    min_eq_left hle]

/-- The law for a larger size, where the blocks suffice: zeros behind the old end are all
that it asks for. -/
lemma truncateLaw_padded_iff (hne : c ≠ []) (hlt : d.fileSize h < size)
    (hfit : size ≤ c.length * BLOCK_DATA)
    (hb : ∀ x, d'.byteAt c x = d.byteAt (d.chain h) x) :
    TruncateLaw d d' p h size 0 ↔
      ∀ x, d.fileSize h ≤ x → x < size → d.byteAt (d.chain h) x = 0 := by
  have hc := hr.chain_eq hw.toLinked (hr.isHead hw.toLinked hne)
  have hcont := content_of_bytes hs hc hfit fun x _ => hb x
  have hpad := range_pad_iff (f := d.byteAt (d.chain h)) hlt.le
  rw [← hcont, ← hw.content_eq hf] at hpad
  rw [← hpad]
  refine ⟨fun hlaw => hlaw.padded hlt, fun he => ?_⟩
  exact ⟨rfl, hr.lookup hw.toLinked hf hne, fun h => by omega, fun _ => he,
    by rw [hc]; exact hfit⟩

end law

/-- What `aofs_truncate_file` leaves obeys the law where the size fits, and nowhere else. -/
lemma Truncated.law_iff {r : ℤ} (hw : d.WellFormed) (hf : d.lookup p = some h)
    (ht : Truncated d p h size r d') : TruncateLaw d d' p h size r ↔ TruncateFits d h size := by
  have hne := chain_ne_nil hw.toLinked hf
  have hst := hw.st_size hf
  have hfit := hw.size_le hf
  have hL := (hw.ends h (lookup_eq_some.mp hf).1.1).length_le
  have hs0 := hfit.trans (Nat.mul_le_mul_right BLOCK_DATA hL)
  cases ht with
  | kept hr hs hless hb =>
    -- no block comes or goes, and the file does not grow
    have hle : size ≤ d.fileSize h := by omega
    exact iff_of_true (truncateLaw_cut hw hf hr hs hne hle (hle.trans hfit) fun x _ => hb x)
      (Or.inl hle)
  | cut c hr hs hless hlen hb =>
    have hle : size ≤ d.fileSize h := by omega
    have himage := Op.size_le_image hw.toLinked (lookup_eq_some.mp hf).1.1
      (hw.sized h (lookup_eq_some.mp hf).1.1) hless.le
    rw [blockCount_of_le himage, Int.toNat_natCast] at hlen hb
    have hsize : size / BLOCK_DATA * BLOCK_DATA + size % BLOCK_DATA = size := by
      rw [mul_comm]; exact Nat.div_add_mod _ _
    rw [hsize] at hb
    have hroom : size ≤ c.length * BLOCK_DATA := by
      rw [hlen, mul_comm]; exact (Nat.lt_mul_div_succ size (by decide)).le
    have hc : c ≠ [] := by
      rintro rfl
      simp at hlen
    exact iff_of_true (truncateLaw_cut hw hf hr hs hc hle hroom fun x hx => by
      rw [hb, if_pos hx]) (Or.inl hle)
  | grown new hr hs hmore hfree hlen hb =>
    -- stale bytes behind the old end show, unless they are zeros
    have hlt : d.fileSize h < size := by omega
    have hc : d.chain h ++ new ≠ [] := by simp [hne]
    have hchain := hr.chain_eq hw.toLinked (hr.isHead hw.toLinked hc)
    rw [hst] at hfree hlen
    have hnum : ∀ k, k ≤ d.freeCount → size ≤ ((d.chain h).length + k) * BLOCK_DATA →
        missingBlocks (d.fileSize h) size = size / BLOCK_DATA - d.fileSize h / BLOCK_DATA :=
      fun k hk hroom => missingBlocks_eq hs0 hL (hroom.trans (Nat.mul_le_mul_right _
        (Nat.add_le_add_left (hk.trans (freeCount_le d)) _))) hlt
    by_cases hroom : size ≤ ((d.chain h).length + new.length) * BLOCK_DATA
    · rw [truncateLaw_padded_iff hw hf hr hs hc hlt (by rw [List.length_append]; exact hroom) hb]
      have heq := hnum _ (hlen ▸ hfree) hroom
      rw [heq] at hfree hlen
      rw [hlen] at hroom
      exact ⟨fun hz => Or.inr ⟨hfree, hroom, hz⟩,
        fun hfits => (hfits.resolve_left (by omega)).2.2⟩
    · -- the block that the rounding of the sizes misses
      refine iff_of_false (fun hlaw => hroom ?_) ?_
      · rw [← List.length_append, ← hchain]; exact hlaw.room
      · rintro (hle | ⟨hfree', hroom', -⟩)
        · omega
        · rw [hlen, hnum _ hfree' hroom'] at hroom
          exact hroom hroom'
  | full new hr hs hmore hmiss hb =>
    -- the call fails
    have hlt : d.fileSize h < size := by omega
    rw [hst] at hmiss
    refine iff_of_false (fun hlaw => absurd hlaw.result (by decide)) ?_
    rintro (hle | ⟨hfree, hroom, -⟩)
    · omega
    · rw [missingBlocks_eq hs0 hL (hroom.trans (Nat.mul_le_mul_right _
        (Nat.add_le_add_left (hfree.trans (freeCount_le d)) _))) hlt] at hmiss
      omega

lemma safe_truncate_existing (hw : d.WellFormed) (hf : d.lookup p = some h)
    (hs : size ≤ OFF_MAX) (hfuel : BLOCK_NUM ≤ fuel) :
    Safe (aofsTruncateFile fuel p size) d fun r d' => Truncated d p h size r d' :=
  safe_aofsTruncateFile hw.toLinked hf (hw.short_path hf) hfuel hs
    (Op.onChain_of_sized hw.toLinked hw.sized (.truncate p size) h hf) fun _ _ ht => ht

lemma fits_of_truncateLaw (hw : d.WellFormed) (hf : d.lookup p = some h) (hs : size ≤ OFF_MAX)
    (hfuel : BLOCK_NUM ≤ fuel) (hlaw : Ends (aofsTruncateFile fuel p size) d fun r d' =>
      TruncateLaw d d' p h size r) : TruncateFits d h size := by
  obtain ⟨r, d', hl, ht⟩ := Prog.Ends.meet hlaw (safe_truncate_existing hw hf hs hfuel).ends
  exact (ht.law_iff hw hf).mp hl

/-- **When the truncate law holds**: whenever the size fits, and for no other size. -/
theorem truncateLaw_iff (hw : d.WellFormed) (hf : d.lookup p = some h) (hs : size ≤ OFF_MAX)
    (hfuel : BLOCK_NUM ≤ fuel) :
    Ends (aofsTruncateFile fuel p size) d (fun r d' => TruncateLaw d d' p h size r) ↔
      TruncateFits d h size := by
  refine ⟨fits_of_truncateLaw hw hf hs hfuel, fun hfits => ?_⟩
  exact (safe_truncate_existing hw hf hs hfuel).ends.mono fun r d' ht =>
    (ht.law_iff hw hf).mpr hfits

/-! ### A file of two bytes -/

lemma diskA_fileSize (n : ℕ) (data : Vector UInt8 BLOCK_DATA) : (diskA n data).fileSize 0 = n := by
  rw [Disk.fileSize, diskA_size, Int.toNat_natCast]

/-- A block's worth of bytes fits on the disk with one file of one block. -/
lemma diskA_room {n : ℕ} (hn : n ≤ BLOCK_DATA) (hs : size ≤ BLOCK_DATA)
    (data : Vector UInt8 BLOCK_DATA) : (Op.write slashA buf size offset).Room (diskA n data) := by
  obtain ⟨ho, hc⟩ := diskA_onlyFile (Int.natCast_nonneg n) data
  refine ⟨fun g hg _ => ?_, fun hno => ?_⟩
  · obtain rfl : 0 = g := Option.some.inj (ho.lookup.symm.trans hg)
    have hmin : min offset ((diskA n data).fileSize 0) ≤ n := by
      rw [diskA_fileSize]; exact Nat.min_le_right _ _
    rw [hc, diskA_freeCount (Int.natCast_nonneg n), List.length_singleton]
    calc min offset ((diskA n data).fileSize 0) + size ≤ n + BLOCK_DATA := Nat.add_le_add hmin hs
      _ ≤ BLOCK_DATA + BLOCK_DATA := Nat.add_le_add_right hn _
      _ ≤ (1 + 4095) * BLOCK_DATA := by decide
  · rw [ho.lookup] at hno; cases hno

/-- The disk with a file `/a` of two zeros. -/
def twoBytes : Disk := diskA 2 (.replicate BLOCK_DATA 0)

lemma twoBytes_onlyFile : OnlyFile twoBytes slashA 0 ∧ twoBytes.chain 0 = [0] :=
  diskA_onlyFile (by decide) _

lemma twoBytes_wellFormed : twoBytes.WellFormed := diskA_wellFormed (by decide) (by decide) _

lemma twoBytes_fileSize : twoBytes.fileSize 0 = 2 := diskA_fileSize 2 _

lemma twoBytes_freeCount : twoBytes.freeCount = 4095 := diskA_freeCount (by decide) _

lemma twoBytes_room (hs : size ≤ BLOCK_DATA) :
    (Op.write slashA buf size offset).Room twoBytes := diskA_room (n := 2) (by decide) hs _

/-- Three bytes from the second one on. -/
theorem writeLaw_twoBytes : Ends (aofsWriteFile slashA (fun _ => 7) (3 : ℕ) (1 : ℕ)) twoBytes
    fun _ d' => WriteLaw twoBytes d' slashA 0 (fun _ => 7) 3 1 :=
  (writeLaw_iff twoBytes_wellFormed twoBytes_onlyFile.1.lookup (by decide) (by decide)
    (twoBytes_room (by decide))).mpr (by rw [twoBytes_fileSize]; decide)

/-- The first byte alone: the second one is lost. -/
theorem not_writeLaw_twoBytes : twoBytes.WellFormed ∧ twoBytes.lookup slashA = some 0 ∧
    (Op.write slashA (fun _ => 7) 1 0).Room twoBytes ∧
    ¬ Ends (aofsWriteFile slashA (fun _ => 7) (1 : ℕ) (0 : ℕ)) twoBytes
      fun _ d' => WriteLaw twoBytes d' slashA 0 (fun _ => 7) 1 0 := by
  have hroom : (Op.write slashA (fun _ => 7) 1 0).Room twoBytes := twoBytes_room (by decide)
  refine ⟨twoBytes_wellFormed, twoBytes_onlyFile.1.lookup, hroom, fun hlaw => ?_⟩
  have := end_of_writeLaw twoBytes_wellFormed twoBytes_onlyFile.1.lookup (by decide) (by decide)
    hroom hlaw
  rw [twoBytes_fileSize] at this
  omega

/-- The disk with a file `/a` of two bytes, and more of them behind its end. -/
def staleBytes : Disk := diskA 2 (.replicate BLOCK_DATA 7)

lemma diskA_byteAt {n : ℤ} {y : UInt8} {x : ℕ} (hx : x < BLOCK_DATA) :
    (diskA n (.replicate BLOCK_DATA y)).byteAt [0] x = y := by
  rw [byteAt_cons, if_pos hx, diskA_block, Block.byte, headA]
  simp [hx]

/-- Three zeros more, in the block that is there. -/
theorem truncateLaw_twoBytes : Ends (aofsTruncateFile BLOCK_NUM slashA (5 : ℕ)) twoBytes
    fun r d' => TruncateLaw twoBytes d' slashA 0 5 r := by
  refine (truncateLaw_iff twoBytes_wellFormed twoBytes_onlyFile.1.lookup (by decide) le_rfl).mpr
    (Or.inr ⟨?_, ?_, fun x _ hx => ?_⟩)
  · rw [twoBytes_fileSize]; exact Nat.zero_le _
  · rw [twoBytes_fileSize, twoBytes_onlyFile.2, List.length_singleton]; decide
  · rw [twoBytes_onlyFile.2]
    exact diskA_byteAt (hx.trans (by decide))

/-- One byte more brings back what was behind the end. -/
theorem not_truncateLaw_staleBytes : staleBytes.WellFormed ∧
    staleBytes.lookup slashA = some 0 ∧
    ¬ Ends (aofsTruncateFile BLOCK_NUM slashA (3 : ℕ)) staleBytes
      fun r d' => TruncateLaw staleBytes d' slashA 0 3 r := by
  obtain ⟨ho, hc⟩ := diskA_onlyFile (show (0 : ℤ) ≤ 2 by decide) (.replicate BLOCK_DATA 7)
  have hw : staleBytes.WellFormed := diskA_wellFormed (by decide) (by decide) _
  have hsize : staleBytes.fileSize 0 = 2 := diskA_fileSize 2 _
  refine ⟨hw, ho.lookup, fun hlaw => ?_⟩
  rcases fits_of_truncateLaw hw ho.lookup (by decide) le_rfl hlaw with hle | ⟨-, -, hz⟩
  · rw [hsize] at hle
    exact absurd hle (by decide)
  · have h7 := hz 2 hsize.le (by decide)
    rw [show staleBytes.chain 0 = [0] from hc, staleBytes, diskA_byteAt (by decide)] at h7
    exact absurd h7 (by decide)

end Messaround.Aofs
