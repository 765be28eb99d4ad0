import Mathlib.Algebra.Order.Floor.Div
import Mathlib.Data.List.GetD
import Messaround.Aofs.ReadLaw

/-!
What a write does to the blocks of a file, and the bytes read back.

The writer finds a byte by going down the chain, the reader by division. Both agree with the
bytes of the chain in one row, which is where they meet.
-/

namespace Messaround.Aofs

open Messaround.CInt Messaround.Segment Disk

variable {d d' : Disk} {p : CStr} {h : Fin BLOCK_NUM} {c new : List (Fin BLOCK_NUM)}
  {buf : ℕ → UInt8} {size offset o n : ℕ}

/-! ### Rows of bytes -/

lemma length_overwrite {old : List UInt8} (hfit : o + n ≤ old.length) :
    (overwrite old buf o n).length = old.length := by
  rw [overwrite, List.length_append, List.length_append, List.length_take, List.length_map,
    List.length_range, List.length_drop]
  omega

lemma getD_overwrite {old : List UInt8} (hfit : o + n ≤ old.length) (x : ℕ) :
    (overwrite old buf o n).getD x 0 =
      if o ≤ x ∧ x < o + n then buf (x - o) else old.getD x 0 := by
  have htake : (old.take o).length = o := by rw [List.length_take]; omega
  have hmid : (old.take o ++ (List.range n).map buf).length = o + n := by
    rw [List.length_append, htake, List.length_map, List.length_range]
  rw [overwrite]
  rcases lt_or_ge x (o + n) with hx | hx
  · rw [List.getD_append _ _ _ _ (by omega)]
    rcases lt_or_ge x o with hxo | hxo
    · rw [List.getD_append _ _ _ _ (by omega), if_neg (by omega), List.getD_eq_getElem?_getD,
        List.getElem?_take_of_lt hxo, List.getD_eq_getElem?_getD]
    · rw [List.getD_append_right _ _ _ _ (by omega), htake, if_pos ⟨hxo, hx⟩,
        List.getD_eq_getElem?_getD, List.getElem?_map, List.getElem?_range (by omega)]
      rfl
  · rw [List.getD_append_right _ _ _ _ (by omega), hmid, if_neg (by omega),
      List.getD_eq_getElem?_getD, List.getElem?_drop, Nat.add_sub_cancel' hx,
      List.getD_eq_getElem?_getD]

lemma ext_getD {l l' : List UInt8} (hlen : l.length = l'.length)
    (hget : ∀ x, l.getD x 0 = l'.getD x 0) : l = l' := by
  refine List.ext_getElem hlen fun x h1 h2 => ?_
  rw [List.getElem_eq_getD 0, List.getElem_eq_getD 0]
  exact hget x

lemma getD_raw_zeros (d : Disk) (c : List (Fin BLOCK_NUM)) (k x : ℕ) :
    (d.raw c ++ List.replicate k 0).getD x 0 = d.byteAt c x := by
  rw [byteAt]
  rcases lt_or_ge x (d.raw c).length with hx | hx
  · rw [List.getD_append _ _ _ _ hx]
  · rw [List.getD_append_right _ _ _ _ hx, List.getD_eq_default _ _ hx, List.getD_eq_getElem?_getD,
      List.getElem?_getD_replicate_default_eq]

/-! ### The chain after a write -/

/-- The effect of a write of `n` bytes of `buf` from the offset `o` on: the blocks `new` are
linked in behind the last block of the file, as many as the bytes need, and in the row of the
bytes of all blocks, zero for the new ones, exactly the range written is replaced. -/
structure RawWrite (d d' : Disk) (p : CStr) (h : Fin BLOCK_NUM) (new : List (Fin BLOCK_NUM))
    (buf : ℕ → UInt8) (o n : ℕ) : Prop where
  file : d'.lookup p = some h
  chain : d'.Chain (addr h) (d.chain h ++ new)
  length : (d.chain h ++ new).length = max (d.chain h).length ((o + n) ⌈/⌉ BLOCK_DATA)
  allocated : ∀ i ∈ d.chain h ++ new, d'.Allocated i
  taken : Taken d d' p new
  raw : d'.raw (d.chain h ++ new) =
    overwrite (d.raw (d.chain h) ++ List.replicate (new.length * BLOCK_DATA) 0) buf o n

lemma ceilDiv_le {m k : ℕ} : m ⌈/⌉ BLOCK_DATA ≤ k ↔ m ≤ k * BLOCK_DATA := by
  rw [ceilDiv_le_iff_le_mul (by decide), mul_comm]

/-- A chain that is no longer than the bytes need, and long enough for them. -/
lemma Wrote.length_eq (hw : Wrote d d' p h new buf o n) (ho : o ≤ (d.chain h).length * BLOCK_DATA) :
    (d.chain h ++ new).length = max (d.chain h).length ((o + n) ⌈/⌉ BLOCK_DATA) := by
  have hroom : o + n ≤ ((d.chain h).length + new.length) * BLOCK_DATA := by
    rcases Nat.eq_zero_or_pos n with rfl | hpos
    · exact ho.trans (Nat.mul_le_mul_right _ (Nat.le_add_right _ _))
    · exact hw.room hpos
  have hle : (o + n) ⌈/⌉ BLOCK_DATA ≤ (d.chain h).length + new.length :=
    ceilDiv_le.mpr hroom
  rw [List.length_append]
  rcases hw.tight with rfl | htight
  · rw [List.length_nil, add_zero] at hle ⊢
    exact (max_eq_left hle).symm
  · have hlt : (d.chain h).length + new.length - 1 < (o + n) ⌈/⌉ BLOCK_DATA := by
      rw [← not_le, ceilDiv_le, not_le]
      exact htight
    rcases Nat.eq_zero_or_pos new.length with hnil | hpos
    · rw [hnil, add_zero] at hle ⊢
      exact (max_eq_left hle).symm
    · rw [max_eq_right (by omega)]
      omega

lemma Wrote.raw_eq (ho : o ≤ (d.chain h).length * BLOCK_DATA)
    (hw : Wrote d d' p h new buf o n) : d'.raw (d.chain h ++ new) =
      overwrite (d.raw (d.chain h) ++ List.replicate (new.length * BLOCK_DATA) 0) buf o n := by
  have hraw : (d.raw (d.chain h) ++ List.replicate (new.length * BLOCK_DATA) 0).length =
      (d.chain h ++ new).length * BLOCK_DATA := by
    rw [List.length_append, raw_length, List.length_replicate, List.length_append, Nat.add_mul]
  have hfit : o + n ≤ (d.chain h ++ new).length * BLOCK_DATA := by
    rw [hw.length_eq ho]
    exact ceilDiv_le.mp (le_max_right _ _)
  rw [← hraw] at hfit
  refine ext_getD (by rw [length_overwrite hfit, hraw, raw_length]) fun x => ?_
  rw [getD_overwrite hfit, getD_raw_zeros]
  exact hw.bytes x

lemma Wrote.rawWrite (hd : d.WellFormed) (hf : d.lookup p = some h)
    (ho : o ≤ (d.chain h).length * BLOCK_DATA) (hw : Wrote d d' p h new buf o n)
    (ht : Taken d d' p new) : RawWrite d d' p h new buf o n := by
  have hne : d.chain h ++ new ≠ [] := by simp [chain_ne_nil hd.toLinked hf]
  have hh := hw.rewrites.isHead hd.toLinked hne
  have hl' := hw.rewrites.linked hd.toLinked
  have hc := hw.rewrites.chain_eq hd.toLinked hh
  refine ⟨hw.rewrites.lookup hd.toLinked hf hne, ?_, hw.length_eq ho, ?_, ht, hw.raw_eq ho⟩
  · have hchain := hl'.ends h hh
    rwa [hc] at hchain
  · intro i hi
    exact hl'.alloc h hh i (by rwa [hc])

/-- **What a write does to the blocks of the file**, also where it starts right behind the
last one. -/
theorem rawWrite_of_write (hw : d.WellFormed) (hf : d.lookup p = some h) (hs : size ≤ INT_MAX)
    (ho : offset ≤ OFF_MAX) (hroom : (Op.write p buf size offset).Room d) :
    Ends (aofsWriteFile p buf size offset) d fun r d' => r = size ∧
      ∃ new, RawWrite d d' p h new buf (min offset (d.fileSize h)) size := by
  refine (safe_write_existing hw hf hs ho hroom).ends.mono fun r d' ⟨hr, new, h', ht⟩ => ?_
  have hle := (Nat.min_le_right offset _).trans (hw.size_le hf)
  exact ⟨hr, new, h'.rawWrite hw hf hle ht⟩

/-- The disk with a file `/a` that fills its one block. -/
def fullBlock : Disk := diskA (BLOCK_DATA : ℕ) (.replicate BLOCK_DATA 0)

lemma fullBlock_lookup : fullBlock.lookup slashA = some 0 :=
  (diskA_onlyFile (Int.natCast_nonneg _) _).1.lookup

lemma fullBlock_wellFormed : fullBlock.WellFormed :=
  diskA_wellFormed (Int.natCast_nonneg _) le_rfl _

lemma fullBlock_room (buf : ℕ → UInt8) : (Op.write slashA buf 1 BLOCK_DATA).Room fullBlock :=
  diskA_room le_rfl (by decide) _

lemma fullBlock_start : min BLOCK_DATA (fullBlock.fileSize 0) = BLOCK_DATA := by
  rw [fullBlock, diskA_fileSize, min_self]

/-- One byte right behind the only block. -/
theorem rawWrite_fullBlock :
    Ends (aofsWriteFile slashA (fun _ => 7) (1 : ℕ) (BLOCK_DATA : ℕ)) fullBlock fun r d' =>
      r = (1 : ℕ) ∧ ∃ new, RawWrite fullBlock d' slashA 0 new (fun _ => 7) BLOCK_DATA 1 := by
  have hraw := rawWrite_of_write fullBlock_wellFormed fullBlock_lookup (by decide) (by decide)
    (fullBlock_room fun _ => 7)
  rwa [fullBlock_start] at hraw

/-! ### The bytes read back -/

/-- A file that is rewritten, and still fits its blocks, leaves the disk well formed. -/
lemma Disk.Rewrites.wellFormed (hd : d.WellFormed) (hf : d.lookup p = some h) (hne : c ≠ [])
    (hr : Rewrites d d' p h (d.chain h) c)
    (hfit : (d'.blocks h).dbm.st_size ≤ c.length * BLOCK_DATA) : d'.WellFormed := by
  have hfile := (lookup_eq_some.mp hf).1
  have hname := hr.after (hr.isHead hd.toLinked hne)
  have hother : ∀ g, d'.IsHead g → g ≠ h →
      d.IsHead g ∧ (d'.blocks g).name = (d.blocks g).name := by
    intro g hg hgh
    have hg' := (hr.edit.isHead_iff hd.toLinked hr.owns hgh).mp hg
    have hb := (hr.edit.other hd.toLinked hr.owns hg' hgh).2.2 g (hd.mem_chain hg')
    exact ⟨hg', by rw [hb.1]⟩
  -- no other file has the name of the rewritten one
  have hnew : ∀ g, d'.IsHead g → g ≠ h → (d'.blocks g).name ≠ (d'.blocks h).name := by
    intro g hg hgh he
    obtain ⟨hg', hn⟩ := hother g hg hgh
    rw [hn, hname] at he
    exact hgh (hd.names g h hg' hfile.1 (he.trans hfile.2.symm))
  refine ⟨hr.linked hd.toLinked, hr.sized hd.toLinked hd.sized fun _ => hfit, ?_, ?_⟩
  · intro g k hg hk he
    by_cases hgh : g = h
    · by_contra hne
      exact hnew k hk (fun hkh => hne (hgh.trans hkh.symm)) (he.symm.trans (by rw [hgh]))
    · by_cases hkh : k = h
      · exact absurd (he.trans (by rw [hkh])) (hnew g hg hgh)
      · obtain ⟨hg', hgn⟩ := hother g hg hgh
        obtain ⟨hk', hkn⟩ := hother k hk hkh
        exact hd.names g k hg' hk' (hgn.symm.trans (he.trans hkn))
  · intro g hg
    by_cases hgh : g = h
    · rw [hgh, hname]
      exact hd.short_path hf
    · obtain ⟨hg', hn⟩ := hother g hg hgh
      rw [hn]
      exact hd.short g hg'

lemma Wrote.fileSize (hw : Wrote d d' p h new buf o n) : d'.fileSize h = o + n := by
  rw [Disk.fileSize, hw.size, Int.toNat_natCast]

section wrote

variable (hd : d.WellFormed) (hf : d.lookup p = some h)
  (hw : Wrote d d' p h new buf o n) (ho : o ≤ d.fileSize h)
include hd hf hw

lemma Wrote.lookup : d'.lookup p = some h :=
  hw.rewrites.lookup hd.toLinked hf (by simp [chain_ne_nil hd.toLinked hf])

include ho in
lemma Wrote.wellFormed : d'.WellFormed := by
  have hne : d.chain h ++ new ≠ [] := by simp [chain_ne_nil hd.toLinked hf]
  refine hw.rewrites.wellFormed hd hf hne ?_
  rw [hw.size, List.length_append]
  rcases Nat.eq_zero_or_pos n with rfl | hpos
  · have hle := ho.trans (hd.size_le hf)
    exact_mod_cast hle.trans (Nat.mul_le_mul_right _ (Nat.le_add_right _ _))
  · exact_mod_cast hw.room hpos

include ho in
lemma Wrote.content_getD {j : ℕ} (hj : j < n) : (d'.content h).getD (o + j) 0 = buf j := by
  have hd' := hw.wellFormed hd hf ho
  have hf' := hw.lookup hd hf
  have hc := hw.rewrites.chain_eq hd.toLinked (lookup_eq_some.mp hf').1.1
  rw [hd'.content_eq hf', hw.fileSize, hc, List.getD_eq_getElem?_getD, List.getElem?_map,
    List.getElem?_range (by omega), Option.map_some, Option.getD_some, hw.bytes,
    if_pos (by omega), Nat.add_sub_cancel_left]

include ho in
lemma Wrote.read_byte {j : ℕ} (hj : j < n) (hmax : o + j ≤ OFF_MAX) :
    Ends (aofsReadFile p (1 : ℕ) (o + j : ℕ)) d' fun r _ =>
      r.1 = 1 ∧ ∀ b, copyAll b r.2 0 = buf j := by
  have hsize := hw.fileSize
  have hfits : ReadFits d' h 1 (o + j) := by
    refine .inside Nat.one_pos (by omega) (Or.inl ?_)
    exact Nat.mod_lt _ (by decide)
  have hcount : min 1 (d'.fileSize h - (o + j)) = 1 := by omega
  refine ((endsIff_aofsReadFile (hw.wellFormed hd hf ho) (hw.lookup hd hf) (by decide)
    hmax).1 hfits).mono fun r _ hlaw => ⟨?_, fun b => ?_⟩
  · rw [hlaw.count, hcount, Nat.cast_one]
  · have hbyte := hlaw.bytes b 0 (by omega)
    rwa [add_zero, hw.content_getD hd hf ho hj] at hbyte

end wrote

/-- **Writer and reader agree on the place of every byte.** -/
theorem read_of_write (hw : d.WellFormed) (hf : d.lookup p = some h) (hn : n ≤ INT_MAX)
    (ho : offset ≤ OFF_MAX) (hroom : (Op.write p buf n offset).Room d) :
    Ends (aofsWriteFile p buf n offset) d fun _ d' => ∀ j < n,
      Ends (aofsReadFile p (1 : ℕ) (min offset (d.fileSize h) + j : ℕ)) d' fun r _ =>
        r.1 = 1 ∧ ∀ b, copyAll b r.2 0 = buf j := by
  refine (safe_write_existing hw hf hn ho hroom).ends.mono fun _ d' ⟨_, new, h', _⟩ j hj => ?_
  refine h'.read_byte hw hf (Nat.min_le_right _ _) hj ?_
  have hsize : d.fileSize h ≤ BLOCK_NUM * BLOCK_DATA := (hw.size_le hf).trans
    (Nat.mul_le_mul_right _ (hw.ends h (lookup_eq_some.mp hf).1.1).length_le)
  simp only [INT_MAX, OFF_MAX, BLOCK_NUM, BLOCK_DATA] at hn ho hsize ⊢
  omega

/-- One byte right behind the only block, read back. -/
theorem read_fullBlock :
    Ends (aofsWriteFile slashA (fun _ => 7) (1 : ℕ) (BLOCK_DATA : ℕ)) fullBlock fun _ d' =>
      ∀ j < 1, Ends (aofsReadFile slashA (1 : ℕ) (BLOCK_DATA + j : ℕ)) d' fun r _ =>
        r.1 = 1 ∧ ∀ b, copyAll b r.2 0 = 7 := by
  have hread := read_of_write fullBlock_wellFormed fullBlock_lookup (by decide) (by decide)
    (fullBlock_room fun _ => 7)
  rwa [fullBlock_start] at hread

end Messaround.Aofs
