import Mathlib.Data.Finset.Card
import Mathlib.Data.Fintype.Card
import Mathlib.Tactic.Ring
import Messaround.Aofs.Code
import Messaround.Lib.Segment

/-!
What a disk means: which blocks are allocated, the chains of blocks behind the heads, the
files and their contents, and when a disk is well formed.

A function of the file system rewrites one chain. `Edit` says so, and `Linked.edit` is the
one place where the invariant of the chains is carried over such a change.
-/

namespace Messaround.Aofs

open Messaround.Segment

namespace Disk

variable (d : Disk)

/-- The bit of the block is set in the bitmap. -/
def Allocated (i : Fin BLOCK_NUM) : Prop := bitAt d.sb.bitmap i = 1

instance (i : Fin BLOCK_NUM) : Decidable (d.Allocated i) := inferInstanceAs (Decidable (_ = _))

/-- An allocated block whose `head` is true. -/
def IsHead (i : Fin BLOCK_NUM) : Prop := d.Allocated i ∧ (d.blocks i).dbm.head ≠ 0

instance (i : Fin BLOCK_NUM) : Decidable (d.IsHead i) := inferInstanceAs (Decidable (_ ∧ _))

/-- A block that `allocate_block` may take. -/
def IsFree (i : Fin BLOCK_NUM) : Prop :=
  ¬ d.Allocated i ∧ (i : ℕ) < d.sb.totalblocks.toNat

instance (i : Fin BLOCK_NUM) : Decidable (d.IsFree i) := inferInstanceAs (Decidable (_ ∧ _))

/-- The number of free blocks. -/
def freeCount : ℕ := (Finset.univ.filter d.IsFree).card

/-! ### Chains -/

/-- The block number as a pointer. -/
def addr (i : Fin BLOCK_NUM) : ℤ := (i : ℕ)

def next (i : Fin BLOCK_NUM) : ℤ := (d.blocks i).dbm.next

/-- The block a pointer leads to. -/
def blockOf (p : ℤ) : Option (Fin BLOCK_NUM) :=
  if h : 0 ≤ p ∧ p < BLOCK_NUM then some ⟨p.toNat, toNat_lt h⟩ else none

/-- From the block number `p`, `dbm.next` visits the blocks `c` and ends at `-1`. -/
def Chain (p : ℤ) (c : List (Fin BLOCK_NUM)) : Prop := Seg addr d.next p c (-1)

/-- The blocks visited from the block `h`. -/
def chain (h : Fin BLOCK_NUM) : List (Fin BLOCK_NUM) := follow d.next blockOf BLOCK_NUM (addr h)

lemma addr_injective : Function.Injective addr := fun i j h => by
  simp only [addr] at h
  exact Fin.ext (by omega)

lemma addr_ne (i : Fin BLOCK_NUM) : addr i ≠ -1 := by simp only [addr]; omega

lemma addr_nonneg (i : Fin BLOCK_NUM) : ¬ addr i < 0 := by simp only [addr]; omega

lemma blockOf_addr (i : Fin BLOCK_NUM) : blockOf (addr i) = some i := by
  have hi : 0 ≤ addr i ∧ addr i < BLOCK_NUM := by simp only [addr]; omega
  rw [blockOf, dif_pos hi]
  rfl

variable {d} {p : ℤ} {c : List (Fin BLOCK_NUM)} {h i : Fin BLOCK_NUM}

lemma Chain.nodup (hc : d.Chain p c) : c.Nodup := seg_nodup addr_injective addr_ne hc

lemma Chain.length_le (hc : d.Chain p c) : c.length ≤ BLOCK_NUM := by
  simpa using hc.nodup.length_le_card

lemma Chain.chain_eq (hc : d.Chain (addr h) c) : d.chain h = c :=
  follow_eq blockOf_addr (by decide) hc hc.length_le

lemma Chain.mem_start (hc : d.Chain (addr h) c) : h ∈ c := by
  cases c with
  | nil => exact absurd (seg_nil.mp hc) (addr_ne h)
  | cons i c => rw [addr_injective (seg_cons.mp hc).1]; simp

lemma chain_congr {d' : Disk} (hb : ∀ i ∈ c, d'.next i = d.next i) :
    d'.Chain p c ↔ d.Chain p c := seg_congr hb

/-! ### Contents -/

/-- The data of the blocks `c`, one block after the other. -/
def raw (d : Disk) (c : List (Fin BLOCK_NUM)) : List UInt8 :=
  c.flatMap fun i => (d.blocks i).data.toList

/-- Byte `x` of the data of the blocks `c`, and zero behind it. -/
def byteAt (d : Disk) (c : List (Fin BLOCK_NUM)) (x : ℕ) : UInt8 := (d.raw c).getD x 0

/-- The content of the file with head `h`. -/
def content (d : Disk) (h : Fin BLOCK_NUM) : List UInt8 :=
  (d.raw (d.chain h)).take (d.blocks h).dbm.st_size.toNat

/-- `h` is a head block with the name `p`. -/
def IsFile (d : Disk) (p : CStr) (h : Fin BLOCK_NUM) : Prop :=
  d.IsHead h ∧ (d.blocks h).name = p

instance (d : Disk) (p : CStr) (h : Fin BLOCK_NUM) : Decidable (d.IsFile p h) :=
  inferInstanceAs (Decidable (_ ∧ _))

/-- The file that `p` leads to: the first of its name. -/
def lookup (d : Disk) (p : CStr) : Option (Fin BLOCK_NUM) :=
  (List.finRange BLOCK_NUM).find? fun h => d.IsFile p h

lemma lookup_eq_some {d : Disk} {p : CStr} {h : Fin BLOCK_NUM} :
    d.lookup p = some h ↔ d.IsFile p h ∧ ∀ g < h, ¬ d.IsFile p g := by
  rw [lookup, List.find?_eq_some_iff_getElem]
  simp only [decide_eq_true_eq, List.getElem_finRange, List.length_finRange]
  constructor
  · rintro ⟨hf, i, hi, he, hlt⟩
    refine ⟨hf, fun g hg hfg => ?_⟩
    have hgi : (g : ℕ) < i := by
      have := Fin.lt_def.mp hg
      rw [← he] at this
      simpa using this
    simpa [hfg] using hlt g hgi
  · rintro ⟨hf, hlt⟩
    refine ⟨hf, h, h.isLt, by simp, fun j hj => ?_⟩
    simpa using hlt ⟨j, by omega⟩ (Fin.lt_def.mpr hj)

lemma lookup_eq_none {d : Disk} {p : CStr} : d.lookup p = none ↔ ∀ h, ¬ d.IsFile p h := by
  rw [lookup, List.find?_eq_none]
  simp

lemma lookup_of_new {d d' : Disk} {p : CStr} {h : Fin BLOCK_NUM} (hno : d.lookup p = none)
    (hf : d'.IsFile p h) (hother : ∀ g ≠ h, d'.IsFile p g → d.IsFile p g) :
    d'.lookup p = some h :=
  lookup_eq_some.mpr ⟨hf, fun g hg hg' => lookup_eq_none.mp hno g (hother g hg.ne hg')⟩

lemma lookup_of_unique {d : Disk} {p : CStr} {h : Fin BLOCK_NUM} (hf : d.IsFile p h)
    (honly : ∀ g, d.IsFile p g → g = h) : d.lookup p = some h :=
  lookup_eq_some.mpr ⟨hf, fun g hg hg' => hg.ne (honly g hg')⟩

lemma exists_lookup {d : Disk} {p : CStr} {h : Fin BLOCK_NUM} (hf : d.IsFile p h) :
    ∃ k, d.lookup p = some k := by
  cases hk : d.lookup p with
  | some k => exact ⟨k, rfl⟩
  | none => exact absurd hf (lookup_eq_none.mp hk h)

lemma exists_lookup_iff {d : Disk} {p : CStr} :
    (∃ h, d.lookup p = some h) ↔ ∃ h, d.IsFile p h :=
  ⟨fun ⟨h, hh⟩ => ⟨h, (lookup_eq_some.mp hh).1⟩, fun ⟨_, hf⟩ => exists_lookup hf⟩

lemma raw_cons (d : Disk) (i : Fin BLOCK_NUM) (c : List (Fin BLOCK_NUM)) :
    d.raw (i :: c) = (d.blocks i).data.toList ++ d.raw c := rfl

@[simp] lemma raw_length (d : Disk) (c : List (Fin BLOCK_NUM)) :
    (d.raw c).length = c.length * BLOCK_DATA := by
  induction c with
  | nil => simp [raw]
  | cons i c ih => rw [raw_cons, List.length_append, ih]; simp; ring

@[simp] lemma byteAt_nil (d : Disk) (x : ℕ) : d.byteAt [] x = 0 := by simp [byteAt, raw]

lemma byteAt_cons (d : Disk) (i : Fin BLOCK_NUM) (c : List (Fin BLOCK_NUM)) (x : ℕ) :
    d.byteAt (i :: c) x =
      if x < BLOCK_DATA then (d.blocks i).byte x else d.byteAt c (x - BLOCK_DATA) := by
  rw [byteAt, raw_cons, List.getD_eq_getElem?_getD]
  split
  · rename_i h
    rw [List.getElem?_append_left (by simpa using h)]
    simp [Block.byte]
  · rename_i h
    rw [List.getElem?_append_right (by simpa using h)]
    simp [byteAt]

lemma byteAt_append (d : Disk) (c c' : List (Fin BLOCK_NUM)) (x : ℕ) :
    d.byteAt (c ++ c') x = if x < c.length * BLOCK_DATA then d.byteAt c x
      else d.byteAt c' (x - c.length * BLOCK_DATA) := by
  have hraw : d.raw (c ++ c') = d.raw c ++ d.raw c' := List.flatMap_append
  rw [byteAt, hraw, List.getD_eq_getElem?_getD]
  split
  · rename_i h
    rw [List.getElem?_append_left (by rwa [raw_length])]
    simp [byteAt]
  · rename_i h
    rw [List.getElem?_append_right (by rw [raw_length]; omega), raw_length]
    simp [byteAt]

lemma byteAt_of_le {d : Disk} {c : List (Fin BLOCK_NUM)} {x : ℕ} (h : c.length * BLOCK_DATA ≤ x) :
    d.byteAt c x = 0 := by
  rw [byteAt, List.getD_eq_getElem?_getD, List.getElem?_eq_none (by rwa [raw_length])]
  rfl

lemma byteAt_congr {d d' : Disk} {c : List (Fin BLOCK_NUM)}
    (h : ∀ i ∈ c, (d'.blocks i).data = (d.blocks i).data) (x : ℕ) :
    d'.byteAt c x = d.byteAt c x := by
  have : d'.raw c = d.raw c := List.flatMap_congr fun i hi => by rw [h i hi]
  rw [byteAt, byteAt, this]

lemma take_raw {d : Disk} {c : List (Fin BLOCK_NUM)} {n : ℕ} (h : n ≤ c.length * BLOCK_DATA) :
    (d.raw c).take n = (List.range n).map (d.byteAt c) := by
  refine List.ext_getElem (by simp [h]) fun i h1 h2 => ?_
  have hi : i < (d.raw c).length := by
    rw [List.length_take] at h1; omega
  rw [List.getElem_take, List.getElem_map, List.getElem_range, byteAt,
    List.getD_eq_getElem?_getD, List.getElem?_eq_getElem hi, Option.getD_some]

lemma content_eq {d : Disk} {h : Fin BLOCK_NUM} {s : ℕ} (hs : (d.blocks h).dbm.st_size = s)
    (hfit : s ≤ (d.chain h).length * BLOCK_DATA) :
    d.content h = (List.range s).map (d.byteAt (d.chain h)) := by
  rw [content, hs, Int.toNat_natCast, take_raw hfit]

/-! ### Well-formed disks -/

/-- The chains of a disk. From every head, `next` ends at `-1` after allocated blocks;
chains of different heads share no block, and every allocated block is on one; only the
first block of a chain is a head; sizes are not negative. -/
structure Linked (d : Disk) : Prop where
  total_le : d.sb.totalblocks.toNat ≤ BLOCK_NUM
  ends : ∀ h, d.IsHead h → d.Chain (addr h) (d.chain h)
  alloc : ∀ h, d.IsHead h → ∀ i ∈ d.chain h, d.Allocated i
  disjoint : ∀ h g, d.IsHead h → d.IsHead g → h ≠ g → (d.chain h).Disjoint (d.chain g)
  cover : ∀ i, d.Allocated i → ∃ h, d.IsHead h ∧ i ∈ d.chain h
  heads : ∀ h, d.IsHead h → ∀ i ∈ d.chain h, (d.blocks i).dbm.head ≠ 0 → i = h
  size_nonneg : ∀ h, d.IsHead h → 0 ≤ (d.blocks h).dbm.st_size

/-- No file is larger than the blocks of its chain. -/
def Sized (d : Disk) : Prop :=
  ∀ h, d.IsHead h → (d.blocks h).dbm.st_size ≤ (d.chain h).length * BLOCK_DATA

structure WellFormed (d : Disk) : Prop extends d.Linked where
  sized : d.Sized
  names : ∀ h g, d.IsHead h → d.IsHead g → (d.blocks h).name = (d.blocks g).name → h = g
  short : ∀ h, d.IsHead h → (d.blocks h).name.length ≤ MAX_FILENAME

/-! ### Edits -/

/-- The blocks `c` are the file with head `h`, or `h` is not allocated and `c` is empty. -/
def Owns (d : Disk) (h : Fin BLOCK_NUM) (c : List (Fin BLOCK_NUM)) : Prop :=
  (d.IsHead h ∧ d.chain h = c) ∨ (¬ d.Allocated h ∧ c = [])

/-- The disk `d'` is `d` with the blocks `c` of `h` replaced by `c'`, which is empty or a
chain from the head `h`. New blocks were not allocated before, and blocks of `c` that are
not in `c'` are no longer. -/
structure Edit (d d' : Disk) (h : Fin BLOCK_NUM) (c c' : List (Fin BLOCK_NUM)) : Prop where
  total : d'.sb.totalblocks = d.sb.totalblocks
  frame : ∀ i, i ∉ c → i ∉ c' → d'.blocks i = d.blocks i
  alloc : ∀ i, d'.Allocated i ↔ i ∈ c' ∨ (i ∉ c ∧ d.Allocated i)
  fresh : ∀ i ∈ c', i ∉ c → ¬ d.Allocated i
  chain : c' = [] ∨ (d'.Chain (addr h) c' ∧ (∀ i ∈ c', (d'.blocks i).dbm.head ≠ 0 ↔ i = h) ∧
    0 ≤ (d'.blocks h).dbm.st_size)

section edit

variable {d d' : Disk} {h g : Fin BLOCK_NUM} {c c' : List (Fin BLOCK_NUM)}

lemma Linked.mem_chain (hl : d.Linked) (hh : d.IsHead h) : h ∈ d.chain h :=
  (hl.ends h hh).mem_start

lemma Linked.chain_cons (hl : d.Linked) (hh : d.IsHead h) :
    ∃ c, d.chain h = h :: c ∧ d.Chain (d.next h) c ∧ h ∉ c := by
  have hc := hl.ends h hh
  cases hcc : d.chain h with
  | nil => rw [hcc] at hc; exact absurd (seg_nil.mp hc) (addr_ne h)
  | cons i c =>
    rw [hcc] at hc
    have hnd := hc.nodup
    obtain ⟨h1, h2⟩ := seg_cons.mp hc
    rw [← addr_injective h1] at h2 hnd ⊢
    exact ⟨c, rfl, h2, (List.nodup_cons.mp hnd).1⟩

lemma Linked.notMem (hl : d.Linked) (ho : d.Owns h c) (hg : d.IsHead g) (hne : g ≠ h)
    {i : Fin BLOCK_NUM} (hi : i ∈ d.chain g) : i ∉ c := by
  rcases ho with ⟨hh, rfl⟩ | ⟨-, rfl⟩
  · exact hl.disjoint g h hg hh hne hi
  · simp

/-- Blocks of another file are neither old nor new blocks of the edited one. -/
lemma Edit.notMem (he : Edit d d' h c c') (hl : d.Linked) (ho : d.Owns h c) (hg : d.IsHead g)
    (hne : g ≠ h) {i : Fin BLOCK_NUM} (hi : i ∈ d.chain g) : i ∉ c ∧ i ∉ c' := by
  have hc := hl.notMem ho hg hne hi
  exact ⟨hc, fun hc' => he.fresh i hc' hc (hl.alloc g hg i hi)⟩

lemma Edit.isHead_iff (he : Edit d d' h c c') (hl : d.Linked) (ho : d.Owns h c) (hne : g ≠ h) :
    d'.IsHead g ↔ d.IsHead g := by
  constructor
  · rintro ⟨ha, hb⟩
    have hc' : g ∉ c' := fun hmem => by
      rcases he.chain with rfl | ⟨-, hheads, -⟩
      · simp at hmem
      · exact hne ((hheads g hmem).mp hb)
    rcases (he.alloc g).mp ha with hmem | ⟨hc, ha'⟩
    · exact absurd hmem hc'
    · exact ⟨ha', by rwa [he.frame g hc hc'] at hb⟩
  · intro hg
    obtain ⟨hc, hc'⟩ := he.notMem hl ho hg hne (hl.mem_chain hg)
    exact ⟨(he.alloc g).mpr (Or.inr ⟨hc, hg.1⟩), by rw [he.frame g hc hc']; exact hg.2⟩

/-- **Other files are left alone**: chain, blocks and bits. -/
theorem Edit.other (he : Edit d d' h c c') (hl : d.Linked) (ho : d.Owns h c) (hg : d.IsHead g)
    (hne : g ≠ h) : d'.Chain (addr g) (d.chain g) ∧ d'.chain g = d.chain g ∧
      ∀ i ∈ d.chain g, d'.blocks i = d.blocks i ∧ d'.Allocated i := by
  have hb : ∀ i ∈ d.chain g, d'.blocks i = d.blocks i ∧ d'.Allocated i := by
    intro i hi
    obtain ⟨hc, hc'⟩ := he.notMem hl ho hg hne hi
    exact ⟨he.frame i hc hc', (he.alloc i).mpr (Or.inr ⟨hc, hl.alloc g hg i hi⟩)⟩
  have hchain : d'.Chain (addr g) (d.chain g) :=
    (chain_congr fun i hi => by rw [next, next, (hb i hi).1]).mpr (hl.ends g hg)
  exact ⟨hchain, hchain.chain_eq, hb⟩

lemma Edit.self (he : Edit d d' h c c') (ho : d.Owns h c) (hl : d.Linked) :
    (c' = [] ∧ ¬ d'.Allocated h) ∨ (d'.IsHead h ∧ d'.Chain (addr h) c' ∧ d'.chain h = c' ∧
      ∀ i ∈ c', (d'.blocks i).dbm.head ≠ 0 ↔ i = h) := by
  rcases he.chain with rfl | ⟨hc, hheads, -⟩
  · refine Or.inl ⟨rfl, fun ha => ?_⟩
    rcases (he.alloc h).mp ha with hmem | ⟨hnot, ha'⟩
    · simp at hmem
    · rcases ho with ⟨hh, rfl⟩ | ⟨hna, -⟩
      · exact hnot (hl.mem_chain hh)
      · exact hna ha'
  · have hmem : h ∈ c' := hc.mem_start
    exact Or.inr ⟨⟨(he.alloc h).mpr (Or.inl hmem), (hheads h hmem).mpr rfl⟩, hc, hc.chain_eq,
      hheads⟩

/-- **An edit keeps the invariant of the chains.** -/
theorem Linked.edit (hl : d.Linked) (ho : d.Owns h c) (he : Edit d d' h c c') : d'.Linked := by
  have hother := fun g (hg : d'.IsHead g) (hne : g ≠ h) =>
    he.other hl ho ((he.isHead_iff hl ho hne).mp hg) hne
  have hself := he.self ho hl
  have hsound : ∀ g, d'.IsHead g → g = h → d'.Chain (addr h) c' ∧ d'.chain h = c' ∧
      ∀ i ∈ c', (d'.blocks i).dbm.head ≠ 0 ↔ i = h := by
    rintro g hg rfl
    rcases hself with ⟨-, hna⟩ | ⟨-, hs⟩
    · exact absurd hg.1 hna
    · exact hs
  refine ⟨by rw [he.total]; exact hl.total_le, ?_, ?_, ?_, ?_, ?_, ?_⟩
  · intro g hg
    by_cases hne : g = h
    · obtain ⟨h1, h2, -⟩ := hsound g hg hne
      rw [hne, h2]; exact h1
    · obtain ⟨h1, h2, -⟩ := hother g hg hne
      rw [h2]; exact h1
  · intro g hg i hi
    by_cases hne : g = h
    · rw [hne, (hsound g hg hne).2.1] at hi
      exact (he.alloc i).mpr (Or.inl hi)
    · obtain ⟨-, h2, h3⟩ := hother g hg hne
      rw [h2] at hi
      exact (h3 i hi).2
  · -- a block of another file is not a block of the edited one
    have hcross : ∀ g, d'.IsHead g → g ≠ h → (d'.chain g).Disjoint c' := by
      intro g hg hne i hi
      rw [(hother g hg hne).2.1] at hi
      exact (he.notMem hl ho ((he.isHead_iff hl ho hne).mp hg) hne hi).2
    intro g k hg hk hgk
    by_cases hgh : g = h
    · have hkh : k ≠ h := fun hkh => hgk (hgh.trans hkh.symm)
      rw [hgh, (hsound g hg hgh).2.1]
      exact (hcross k hk hkh).symm
    · by_cases hkh : k = h
      · rw [hkh, (hsound k hk hkh).2.1]
        exact hcross g hg hgh
      · rw [(hother g hg hgh).2.1, (hother k hk hkh).2.1]
        exact hl.disjoint g k ((he.isHead_iff hl ho hgh).mp hg) ((he.isHead_iff hl ho hkh).mp hk) hgk
  · -- an allocated block is one of the edited file, or of the file that it was one of
    intro i hi
    rcases (he.alloc i).mp hi with hmem | ⟨hnot, ha⟩
    · rcases hself with ⟨rfl, -⟩ | ⟨hh, -, h2, -⟩
      · simp at hmem
      · exact ⟨h, hh, by rw [h2]; exact hmem⟩
    · obtain ⟨g, hg, hig⟩ := hl.cover i ha
      have hne : g ≠ h := by
        rintro rfl
        rcases ho with ⟨-, rfl⟩ | ⟨hna, -⟩
        · exact hnot hig
        · exact hna hg.1
      have hg' := (he.isHead_iff hl ho hne).mpr hg
      exact ⟨g, hg', by rw [(hother g hg' hne).2.1]; exact hig⟩
  · intro g hg i hi hb
    by_cases hne : g = h
    · obtain ⟨-, h2, h3⟩ := hsound g hg hne
      rw [hne, h2] at hi
      rw [hne]; exact (h3 i hi).mp hb
    · obtain ⟨-, h2, h3⟩ := hother g hg hne
      rw [h2] at hi
      rw [(h3 i hi).1] at hb
      exact hl.heads g ((he.isHead_iff hl ho hne).mp hg) i hi hb
  · intro g hg
    by_cases hne : g = h
    · -- an edited file that is still there has blocks
      rcases he.chain with rfl | ⟨-, -, hs⟩
      · rcases hself with ⟨-, hna⟩ | ⟨-, h1, -⟩
        · exact absurd (hne ▸ hg.1) hna
        · exact absurd (seg_nil.mp h1) (addr_ne h)
      · rw [hne]; exact hs
    · have hg' := (he.isHead_iff hl ho hne).mp hg
      rw [((hother g hg hne).2.2 g (hl.mem_chain hg')).1]
      exact hl.size_nonneg g hg'

end edit

end Disk

end Messaround.Aofs
