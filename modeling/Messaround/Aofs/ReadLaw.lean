import Mathlib.Tactic.MkIffOfInductiveProp
import Messaround.Aofs.ReadCopies

/-!
When a read gives what the file holds.

The copies of the blocks behind the first one leave a gap in the buffer or overlap, unless
the read starts at a block boundary and ends in the next block, or starts in the middle of a
block and runs to the end of the chain.
-/

namespace Messaround.Aofs

open Messaround.CInt Messaround.Segment Disk

variable {d : Disk} {p : CStr} {h i j : Fin BLOCK_NUM} {pre post a b c : List (Fin BLOCK_NUM)}
  {size offset o n : ℕ}

/-- The read law: from the offset on, as many bytes as the file has there, but no more than
`size`, are in the buffer, whatever it held. -/
@[mk_iff readLaw_def]
structure ReadLaw (d : Disk) (h : Fin BLOCK_NUM) (size offset : ℕ) (r : ℤ × List Copy) : Prop where
  count : r.1 = (min size (d.fileSize h - offset) : ℕ)
  bytes : ∀ buf, ∀ j < min size (d.fileSize h - offset),
    copyAll buf r.2 j = (d.content h).getD (offset + j) 0

/-- The reads that obey the law. -/
@[mk_iff readFits_def]
inductive ReadFits (d : Disk) (h : Fin BLOCK_NUM) (size offset : ℕ) : Prop
  /-- The range starts behind the chain. -/
  | behind (hk : (d.chain h).length ≤ (toInt ((offset / BLOCK_DATA : ℕ) : ℤ)).toNat)
  /-- The range is empty, and not at the start of a block. -/
  | empty (hs : size = 0) (ho : offset % BLOCK_DATA ≠ 0)
  /-- The range lies in the file and in one block, or starts with a block and ends in the next. -/
  | inside (hpos : 0 < size) (hend : offset + size ≤ d.fileSize h)
      (hblocks : offset % BLOCK_DATA + size ≤ BLOCK_DATA ∨
        offset % BLOCK_DATA = 0 ∧ size ≤ 2 * BLOCK_DATA)
  /-- The range runs out of a chain that the file fills, from the last block or from the middle
  of a block on. -/
  | toEnd (hpos : 0 < size) (hlt : offset / BLOCK_DATA < (d.chain h).length)
      (hmore : ((d.chain h).length : ℤ) ≤
        (offset / BLOCK_DATA : ℕ) + moreBlocks (offset % BLOCK_DATA) size)
      (hfull : d.fileSize h = (d.chain h).length * BLOCK_DATA)
      (hstart : offset / BLOCK_DATA + 1 = (d.chain h).length ∨
        2 * (offset % BLOCK_DATA) = BLOCK_DATA)
  /-- The number of blocks is negative as an `int`, and the file ends with the first one. -/
  | wrapped (hpos : 0 < size) (hneg : moreBlocks (offset % BLOCK_DATA) size < 0)
      (hlast : d.fileSize h = (offset / BLOCK_DATA + 1) * BLOCK_DATA)

/-! ### The buffer -/

lemma copyAll_one (buf : ℤ → UInt8) (ho : o + n ≤ BLOCK_DATA) (x : ℕ) :
    copyAll buf [partCopy (d.blocks i) 0 o n] x =
      if x < n then (d.blocks i).byte (o + x) else buf x := by
  refine (partCopy_apply buf (d.blocks i) ho x).trans ?_
  simp only [Nat.zero_le, true_and, zero_add, Nat.sub_zero]

lemma copyAll_blockCopies (buf : ℤ → UInt8) (ho : o < BLOCK_DATA) (x : ℕ) :
    copyAll buf (blockCopies d o i c) x =
      if o ≤ x ∧ x < o + BLOCK_DATA * c.length then d.byteAt c (x - o)
      else if x < BLOCK_DATA - o then (d.blocks i).byte (o + x) else buf x := by
  rw [blockCopies, copyAll_cons, copyAll_fullCopies, Nat.mul_zero, add_zero, zero_add,
    partCopy_apply _ _ (by omega)]
  simp only [Nat.zero_le, true_and, zero_add, Nat.sub_zero]

/-- A place that no copy reaches keeps what it held, which can be the wrong byte. -/
lemma not_forall_buf {f : (ℤ → UInt8) → UInt8} {x : ℕ} (hf : ∀ buf, f buf = buf x) (v : UInt8) :
    ¬ ∀ buf, f buf = v := by
  intro h
  have h0 := (hf fun _ => 0).symm.trans (h _)
  have h1 := (hf fun _ => 1).symm.trans (h _)
  exact absurd (h0.trans h1.symm) (by decide)

lemma bytes_toEnd_iff (ho : o < BLOCK_DATA) :
    (∀ buf, ∀ x < BLOCK_DATA - o + post.length * BLOCK_DATA,
      copyAll buf (blockCopies d o i post) x = d.byteAt (i :: post) (o + x)) ↔
      post = [] ∨ 2 * o = BLOCK_DATA := by
  simp only [copyAll_blockCopies _ ho, byteAt_cons, mul_comm BLOCK_DATA post.length]
  constructor
  · intro hb
    by_contra! hne
    have hlen := Nat.le_mul_of_pos_left BLOCK_DATA (List.length_pos_iff.mpr hne.1)
    rcases lt_or_gt_of_ne hne.2 with hlt | hgt
    · refine not_forall_buf (x := o + post.length * BLOCK_DATA) (fun buf => ?_) _
        fun buf => hb buf (o + post.length * BLOCK_DATA) (by omega)
      rw [if_neg (by omega), if_neg (by omega)]
    · refine not_forall_buf (x := BLOCK_DATA - o) (fun buf => ?_) _
        fun buf => hb buf (BLOCK_DATA - o) (by omega)
      rw [if_neg (by omega), if_neg (by omega)]
  · rintro (rfl | hmid) buf x hx
    · rw [List.length_nil, Nat.zero_mul, add_zero] at hx ⊢
      rw [if_neg (by omega), if_pos hx, if_pos (by omega)]
    · by_cases hxo : o ≤ x
      · have hsub : o + x - BLOCK_DATA = x - o := by omega
        rw [if_pos (by omega), if_neg (by omega), hsub]
      · rw [if_neg (by omega), if_pos (by omega), if_pos (by omega)]

lemma copyAll_last (buf : ℤ → UInt8) (hfit : n ≤ BLOCK_DATA) (x : ℕ) :
    copyAll buf (blockCopies d o i a ++
      [partCopy (d.blocks j) (o + BLOCK_DATA * (a.length + 1)) 0 n]) x =
      if o + BLOCK_DATA * (a.length + 1) ≤ x ∧ x < o + BLOCK_DATA * (a.length + 1) + n then
        (d.blocks j).byte (x - (o + BLOCK_DATA * (a.length + 1)))
      else copyAll buf (blockCopies d o i a) x := by
  rw [copyAll_append]
  refine (partCopy_apply _ (d.blocks j) (by omega) x).trans ?_
  rw [zero_add]

lemma bytes_last_iff (ho : o < BLOCK_DATA) (hn : 0 < n) (hfit : n ≤ BLOCK_DATA) :
    (∀ buf, ∀ x < BLOCK_DATA - o + a.length * BLOCK_DATA + n,
      copyAll buf (blockCopies d o i a ++
        [partCopy (d.blocks j) (o + BLOCK_DATA * (a.length + 1)) 0 n]) x =
        d.byteAt (i :: (a ++ j :: b)) (o + x)) ↔ o = 0 ∧ a = [] := by
  simp only [copyAll_last _ hfit, copyAll_blockCopies _ ho]
  simp only [Nat.mul_add, Nat.mul_one, mul_comm BLOCK_DATA a.length]
  constructor
  · intro hb
    by_contra hne
    -- behind the full blocks there is a gap, unless the read ends before it
    by_cases hgap : o + a.length * BLOCK_DATA < BLOCK_DATA - o + a.length * BLOCK_DATA + n ∧
        BLOCK_DATA - o ≤ o + a.length * BLOCK_DATA
    · refine not_forall_buf (x := o + a.length * BLOCK_DATA) (fun buf => ?_) _
        fun buf => hb buf (o + a.length * BLOCK_DATA) hgap.1
      rw [if_neg (by omega), if_neg (by omega), if_neg (by omega)]
    · have hx : ¬ (o ≤ BLOCK_DATA - o ∧ BLOCK_DATA - o < o + a.length * BLOCK_DATA) ∧
          BLOCK_DATA - o < o + (a.length * BLOCK_DATA + BLOCK_DATA) := by
        rcases Nat.eq_zero_or_pos a.length with h0 | hpos
        · have : o ≠ 0 := fun h => hne ⟨h, List.length_eq_zero_iff.mp h0⟩
          rw [h0]
          omega
        · have := Nat.le_mul_of_pos_left BLOCK_DATA hpos
          omega
      refine not_forall_buf (x := BLOCK_DATA - o) (fun buf => ?_) _
        fun buf => hb buf (BLOCK_DATA - o) (by omega)
      rw [if_neg (by omega), if_neg hx.1, if_neg (by omega)]
  · rintro ⟨rfl, rfl⟩ buf x hx
    simp only [List.length_nil, Nat.zero_mul, List.nil_append, byteAt_cons, zero_add, Nat.sub_zero,
      add_zero] at hx ⊢
    by_cases hxB : x < BLOCK_DATA
    · rw [if_neg (by omega), if_neg (by omega), if_pos hxB, if_pos hxB]
    · rw [if_pos (by omega), if_neg hxB, if_pos (by omega)]

/-! ### The law -/

lemma two_blocks_lt (h0 : moreBlocks o size ≠ 0) (h1 : moreBlocks o size ≠ 1)
    (hmax : moreBlocks o size ≤ BLOCK_NUM) : 2 * BLOCK_DATA < o + size := by
  by_contra hle
  rcases Nat.eq_zero_or_pos (o + size) with hz | hpos
  · obtain ⟨rfl, rfl⟩ : o = 0 ∧ size = 0 := by omega
    exact absurd hmax (not_le.mpr lt_moreBlocks_zero)
  · by_cases hfit : o + size ≤ BLOCK_DATA
    · exact h0 (moreBlocks_zero hpos hfit)
    · exact h1 (moreBlocks_eq (n := 1) (by omega) (by omega) (by decide))

lemma two_blocks_lt_of {m : ℕ} (hm : moreBlocks o size = m) (hlt : (m + 1) * BLOCK_DATA < o + size) :
    2 * BLOCK_DATA < o + size := by
  rcases Nat.eq_zero_or_pos m with rfl | hpos
  · by_contra hle
    have : moreBlocks o size = (1 : ℕ) := moreBlocks_eq (by omega) (by omega) (by decide)
    omega
  · exact (Nat.mul_le_mul_right _ (Nat.succ_le_succ hpos)).trans_lt hlt

section near

/-! The block with the first byte is `i`, behind `pre`. -/

variable (hchain : d.chain h = pre ++ i :: post) (hst : (d.blocks h).dbm.st_size = d.fileSize h)
  (hfit : d.fileSize h ≤ (d.chain h).length * BLOCK_DATA)
  (hdiv : offset / BLOCK_DATA = pre.length) (hmod : offset % BLOCK_DATA = o)
  (hk : (toInt ((offset / BLOCK_DATA : ℕ) : ℤ)).toNat = pre.length)

include hchain in
lemma length_chain : (d.chain h).length = pre.length + (post.length + 1) := by
  rw [hchain, List.length_append, List.length_cons]

include hdiv hmod in
lemma offset_eq : offset = pre.length * BLOCK_DATA + o := by
  rw [← hdiv, ← hmod, mul_comm]
  exact (Nat.div_add_mod _ _).symm

include hmod in
lemma start_lt : o < BLOCK_DATA := hmod ▸ Nat.mod_lt _ (by decide)

include hchain hfit hdiv hmod in
lemma fileSize_sub_le : d.fileSize h - offset ≤ BLOCK_DATA - o + post.length * BLOCK_DATA := by
  have hs := hfit
  have ho := start_lt hmod
  rw [length_chain hchain, Nat.add_mul, Nat.succ_mul] at hs
  rw [offset_eq hdiv hmod]
  omega

include hchain hst hfit hdiv hmod in
lemma readLaw_iff_bytes {cs : List Copy} : ReadLaw d h size offset (n, cs) ↔
    n = min size (d.fileSize h - offset) ∧
      ∀ buf, ∀ x < n, copyAll buf cs x = d.byteAt (i :: post) (o + x) := by
  have hbyte : ∀ x < min size (d.fileSize h - offset),
      (d.content h).getD (offset + x) 0 = d.byteAt (i :: post) (o + x) := by
    intro x hx
    have hoff := offset_eq hdiv hmod
    have hsub : offset + x - pre.length * BLOCK_DATA = o + x := by omega
    rw [Disk.content_eq hst hfit, List.getD_eq_getElem?_getD, List.getElem?_map,
      List.getElem?_range (by omega), Option.map_some, Option.getD_some, hchain, byteAt_append,
      if_neg (by omega), hsub]
  constructor
  · rintro ⟨hn, hb⟩
    have hn' : n = min size (d.fileSize h - offset) := Int.ofNat_inj.mp hn
    exact ⟨hn', fun buf x hx => (hb buf x (hn' ▸ hx)).trans (hbyte x (hn' ▸ hx))⟩
  · rintro ⟨rfl, hb⟩
    exact ⟨rfl, fun buf x hx => (hb buf x hx).trans (hbyte x hx).symm⟩

include hchain hst hfit hdiv hmod hk in
lemma law_one (hpos : 0 < o + size) (hle : o + size ≤ BLOCK_DATA) :
    ReadLaw d h size offset (size, [partCopy (d.blocks i) 0 o size]) ↔
      ReadFits d h size offset := by
  have hzero := moreBlocks_zero hpos hle
  have hlen := length_chain hchain
  rw [readLaw_iff_bytes hchain hst hfit hdiv hmod]
  constructor
  · rintro ⟨hn, -⟩
    rcases Nat.eq_zero_or_pos size with rfl | hs
    · exact .empty rfl (by omega)
    · exact .inside hs (by omega) (Or.inl (by omega))
  · intro hf
    have hn : size = min size (d.fileSize h - offset) := by
      cases hf with
      | behind hb => omega
      | empty hs => omega
      | inside _ he => omega
      | toEnd _ _ hm => rw [hdiv, hmod, hzero] at hm; omega
      | wrapped _ hneg => rw [hmod, hzero] at hneg; omega
    refine ⟨hn, fun buf x hx => ?_⟩
    rw [copyAll_one buf hle, if_pos hx, byteAt_cons, if_pos (by omega)]

include hchain hst hfit hdiv hmod hk in
lemma law_first (hneg : moreBlocks o size < 0) :
    ReadLaw d h size offset ((BLOCK_DATA - o : ℕ), blockCopies d o i []) ↔
      ReadFits d h size offset := by
  have ho := start_lt hmod
  have hlen := length_chain hchain
  have hoff := offset_eq hdiv hmod
  have hbig : 2 * BLOCK_DATA < o + size := two_blocks_lt (by omega) (by omega) (by omega)
  rw [readLaw_iff_bytes hchain hst hfit hdiv hmod]
  constructor
  · rintro ⟨hn, -⟩
    refine .wrapped (by omega) (by rwa [hmod]) ?_
    rw [hdiv, Nat.succ_mul]
    omega
  · intro hf
    have hn : BLOCK_DATA - o = min size (d.fileSize h - offset) := by
      cases hf with
      | behind hb => omega
      | empty hs => omega
      | inside _ _ hb => omega
      | toEnd _ _ hm => rw [hdiv, hmod] at hm; omega
      | wrapped _ _ hl => rw [hdiv, Nat.succ_mul] at hl; omega
    refine ⟨hn, fun buf x hx => ?_⟩
    rw [copyAll_blockCopies buf ho, List.length_nil, if_neg (by omega), if_pos hx, byteAt_cons,
      if_pos (by omega)]

include hchain hst hfit hdiv hmod hk in
lemma law_toEnd (hmore : (post.length : ℤ) < moreBlocks o size) :
    ReadLaw d h size offset
      ((BLOCK_DATA - o + post.length * BLOCK_DATA : ℕ), blockCopies d o i post) ↔
      ReadFits d h size offset := by
  have ho := start_lt hmod
  have hlen := length_chain hchain
  have hoff := offset_eq hdiv hmod
  have hle := fileSize_sub_le hchain hfit hdiv hmod
  have hsize : 0 < size → (post.length + 1) * BLOCK_DATA < o + size := fun hpos =>
    lt_of_moreBlocks (by omega) (by omega)
  rw [Nat.succ_mul] at hsize
  have hfull : d.fileSize h - offset = BLOCK_DATA - o + post.length * BLOCK_DATA ↔
      d.fileSize h = (d.chain h).length * BLOCK_DATA := by
    rw [hlen, Nat.add_mul, Nat.succ_mul]
    omega
  rw [readLaw_iff_bytes hchain hst hfit hdiv hmod, bytes_toEnd_iff ho]
  constructor
  · rintro ⟨hn, hb⟩
    refine .toEnd (by omega) (by omega) (by rw [hdiv, hmod]; omega) (hfull.mp (by omega)) ?_
    rw [hdiv, hmod]
    refine hb.imp_left ?_
    rintro rfl
    exact hlen.symm
  · intro hf
    cases hf with
    | behind hb => omega
    | empty hs he =>
      have : moreBlocks o size = 0 := moreBlocks_zero (by omega) (by omega)
      omega
    | inside hpos he =>
      have := hsize hpos
      omega
    | toEnd hpos _ _ hf hs =>
      have hs' := hsize hpos
      have hf' := hfull.mpr hf
      rw [hdiv, hmod] at hs
      refine ⟨by omega, hs.imp_left fun h => ?_⟩
      exact List.length_eq_zero_iff.mp (by omega)
    | wrapped _ hneg => rw [hmod] at hneg; omega

include hchain hst hfit hdiv hmod hk in
lemma law_last (hpost : post = a ++ j :: b) (hlen' : a.length + 1 ≤ BLOCK_NUM) (hn : 0 < n)
    (hnB : n ≤ BLOCK_DATA) (hsize : o + size = (a.length + 1) * BLOCK_DATA + n) :
    ReadLaw d h size offset (size, blockCopies d o i a ++
      [partCopy (d.blocks j) (o + BLOCK_DATA * (a.length + 1)) 0 n]) ↔
      ReadFits d h size offset := by
  subst hpost
  have ho := start_lt hmod
  have hlen := length_chain hchain
  rw [List.length_append, List.length_cons] at hlen
  have hnum : moreBlocks o size = (a.length + 1 : ℕ) :=
    moreBlocks_eq (by rw [hsize]; exact Nat.lt_add_of_pos_right hn)
      (by rw [hsize, Nat.succ_mul (a.length + 1)]; exact Nat.add_le_add_left hnB _)
      (hlen'.trans (by decide))
  have hsum : size = BLOCK_DATA - o + a.length * BLOCK_DATA + n := by
    rw [Nat.succ_mul] at hsize
    omega
  rw [readLaw_iff_bytes hchain hst hfit hdiv hmod]
  have hbytes := bytes_last_iff (d := d) (i := i) (j := j) (a := a) (b := b) ho hn hnB
  rw [← hsum] at hbytes
  rw [hbytes]
  constructor
  · rintro ⟨hmin, rfl, rfl⟩
    rw [List.length_nil, Nat.zero_mul] at hsum
    exact .inside (by omega) (by omega) (Or.inr ⟨hmod, by omega⟩)
  · intro hf
    cases hf with
    | behind hb => omega
    | empty hs => omega
    | inside hpos he hb =>
      refine ⟨by omega, ?_⟩
      rcases hb with hb | ⟨h0, hb⟩
      · omega
      · rw [hmod] at h0
        refine ⟨h0, List.length_eq_zero_iff.mp ?_⟩
        by_contra hne
        have := Nat.le_mul_of_pos_left BLOCK_DATA (Nat.pos_of_ne_zero hne)
        omega
    | toEnd _ _ hm => rw [hdiv, hmod, hnum] at hm; omega
    | wrapped _ hneg => rw [hmod, hnum] at hneg; omega

include hchain hdiv hmod hk in
lemma not_readFits {m : ℕ} (hm : moreBlocks o size = m) (hle : m ≤ post.length)
    (hlt : (m + 1) * BLOCK_DATA < o + size) : ¬ ReadFits d h size offset := by
  have ho := start_lt hmod
  have hlen := length_chain hchain
  have hbig := two_blocks_lt_of hm hlt
  intro hf
  cases hf with
  | behind hb => omega
  | empty hs => omega
  | inside _ _ hb => omega
  | toEnd _ _ hm => rw [hdiv, hmod] at hm; omega
  | wrapped _ hneg => rw [hmod] at hneg; omega

end near

section far

/-! The block with the first byte is not on the chain, though its number as an `int` is. -/

variable (hfit : d.fileSize h ≤ (d.chain h).length * BLOCK_DATA)
  (hfar : (d.chain h).length ≤ offset / BLOCK_DATA)

include hfit hfar in
lemma fileSize_le_offset : d.fileSize h ≤ offset :=
  hfit.trans ((Nat.mul_le_mul_right _ hfar).trans (Nat.div_mul_le_self _ _))

include hfit hfar in
lemma readLaw_far {r : ℤ × List Copy} : ReadLaw d h size offset r ↔ r.1 = 0 := by
  have hzero : min size (d.fileSize h - offset) = 0 := by
    rw [Nat.sub_eq_zero_of_le (fileSize_le_offset hfit hfar), Nat.min_zero]
  constructor
  · rintro ⟨hn, -⟩
    rw [hn, hzero]
    rfl
  · intro hr
    refine ⟨by rw [hr, hzero]; rfl, fun buf x hx => ?_⟩
    rw [hzero] at hx
    omega

include hfit hfar in
lemma readFits_far (hk : (toInt ((offset / BLOCK_DATA : ℕ) : ℤ)).toNat < (d.chain h).length) :
    ReadFits d h size offset ↔ size = 0 ∧ offset % BLOCK_DATA ≠ 0 := by
  have hle := fileSize_le_offset hfit hfar
  constructor
  · intro hf
    cases hf with
    | behind hb => omega
    | empty hs ho => exact ⟨hs, ho⟩
    | inside => omega
    | toEnd _ hlt => omega
    | wrapped _ _ hl =>
      have := Nat.lt_mul_div_succ offset (show 0 < BLOCK_DATA by decide)
      rw [mul_comm] at this
      omega
  · rintro ⟨hs, ho⟩
    exact .empty hs ho

end far

lemma endsIff_readFound (hc : d.Chain (addr h) (d.chain h))
    (hst : (d.blocks h).dbm.st_size = d.fileSize h)
    (hfit : d.fileSize h ≤ (d.chain h).length * BLOCK_DATA) (hs : size < 18446744073709551616)
    (ho : offset ≤ OFF_MAX) : (readFound size offset (d.blocks h)).EndsIff exec d
      (fun r _ => ReadLaw d h size offset r) (ReadFits d h size offset) := by
  have hmod : offset % BLOCK_DATA < BLOCK_DATA := Nat.mod_lt _ (by decide)
  rw [readFound_eq ho]
  rcases le_or_gt (d.chain h).length (toInt ((offset / BLOCK_DATA : ℕ) : ℤ)).toNat with hle | hlt
  · refine Prog.Holds.endsIff_bind (safe_seekStart_none hc hle (Prog.Holds.endsIff (safe_pure ?_)))
    exact iff_of_true ((readLaw_far hfit (hle.trans (toNat_toInt_le _))).mpr rfl) (.behind hle)
  obtain ⟨pre, i, post, hchain, hk⟩ := exists_split hlt
  have hpost : d.Chain (d.next i) post := by
    rw [hchain] at hc
    obtain ⟨r, -, hr⟩ := seg_append.mp hc
    exact (seg_cons.mp hr).2
  have hlen : (d.chain h).length ≤ BLOCK_NUM := hc.length_le
  rw [hchain] at hc
  rw [← hk]
  refine Prog.Holds.endsIff_bind (safe_seekStart hc ?_)
  dsimp only [Option.elim_some]
  rcases lt_or_ge (offset / BLOCK_DATA) (d.chain h).length with hnear | hfar
  · have hdiv : offset / BLOCK_DATA = pre.length := by
      rw [hk, toInt_of_le ((hnear.le.trans hlen).trans (by decide)), Int.toNat_natCast]
    refine endsIff_readFrom hmod hs hpost (law_one hchain hst hfit hdiv rfl hk.symm)
      (law_first hchain hst hfit hdiv rfl hk.symm) (law_toEnd hchain hst hfit hdiv rfl hk.symm)
      (fun a j b n hp => law_last hchain hst hfit hdiv rfl hk.symm hp ?_)
      fun m => not_readFits hchain hdiv rfl hk.symm
    have := length_chain hchain
    rw [hp, List.length_append, List.length_cons] at this
    omega
  · have hiff : ∀ {m : ℕ} {cs : List Copy}, (m = 0 ↔ size = 0 ∧ offset % BLOCK_DATA ≠ 0) →
        (ReadLaw d h size offset (m, cs) ↔ ReadFits d h size offset) := fun hm => by
      rw [readLaw_far hfit hfar, readFits_far hfit hfar hlt, ← hm]
      exact Int.natCast_eq_zero
    refine endsIff_readFrom hmod hs hpost (fun hpos _ => hiff (by omega)) (fun hneg => hiff ?_)
      (fun hmore => hiff ?_) (fun a j b n _ hn _ hsz => hiff ?_) fun m hm _ hbig => ?_
    · have : 2 * BLOCK_DATA < offset % BLOCK_DATA + size :=
        two_blocks_lt (by omega) (by omega) (by omega)
      omega
    · have hz : 0 < offset % BLOCK_DATA + size → offset % BLOCK_DATA + size ≤ BLOCK_DATA →
          moreBlocks (offset % BLOCK_DATA) size = 0 := moreBlocks_zero
      omega
    · rw [Nat.succ_mul] at hsz
      omega
    · have := two_blocks_lt_of hm hbig
      rw [readFits_far hfit hfar hlt]
      omega

/-! ### The call -/

section accessed

variable (hw : d.WellFormed) (hf : d.lookup p = some h) (t : UInt64)
include hw hf

lemma accessed_chain : (accessed d h t).chain h = d.chain h := by
  have hr := accessed_rewrites hw.toLinked (lookup_eq_some.mp hf).1 (hw.short_path hf) t
  exact hr.chain_eq hw.toLinked (hr.isHead hw.toLinked (chain_ne_nil hw.toLinked hf))

omit hw hf in
lemma accessed_fileSize : (accessed d h t).fileSize h = d.fileSize h := by
  rw [Disk.fileSize, accessed, put_blocks_self, Disk.fileSize]

lemma accessed_content : (accessed d h t).content h = d.content h := by
  have hdata : ∀ i ∈ d.chain h, ((accessed d h t).blocks i).data = (d.blocks i).data := by
    intro i _
    by_cases hi : i = h
    · rw [hi, accessed, put_blocks_self]
    · rw [accessed, put_blocks_of_ne _ _ hi]
  have hraw : (accessed d h t).raw (d.chain h) = d.raw (d.chain h) :=
    List.flatMap_congr fun i hi => by rw [hdata i hi]
  rw [content, accessed_chain hw hf, hraw, accessed, put_blocks_self, content]

end accessed

lemma endsIff_aofsReadFile (hw : d.WellFormed) (hf : d.lookup p = some h)
    (hs : size < 18446744073709551616) (ho : offset ≤ OFF_MAX) :
    (aofsReadFile p size offset).EndsIff exec d (fun r _ => ReadLaw d h size offset r)
      (ReadFits d h size offset) := by
  unfold aofsReadFile
  refine Prog.Holds.endsIff_bind (safe_newBlock fun b => Prog.Holds.endsIff_bind
    (safe_find_found hf ?_))
  dsimp only
  rw [if_neg (addr_ne h)]
  refine Prog.Holds.endsIff_bind (safe_time fun t => Prog.Holds.endsIff_bind (safe_writeBlock ?_))
  have hfile := (lookup_eq_some.mp hf).1
  have hr := accessed_rewrites hw.toLinked hfile (hw.short_path hf) t
  have hh := hr.isHead hw.toLinked (chain_ne_nil hw.toLinked hf)
  have hsize := accessed_fileSize (d := d) (h := h) t
  have hchain := accessed_chain hw hf t
  have hst : ((accessed d h t).blocks h).dbm.st_size = (accessed d h t).fileSize h := by
    rw [hsize, accessed, put_blocks_self]
    exact hw.st_size hf
  have hlaw := endsIff_readFound ((hr.linked hw.toLinked).ends h hh) hst
    (by rw [hsize, hchain]; exact hw.size_le hf) hs ho
  simp only [readLaw_def, readFits_def, hsize, hchain, accessed_content hw hf t] at hlaw ⊢
  rw [accessed, put_blocks_self] at hlaw
  exact hlaw

end Messaround.Aofs
