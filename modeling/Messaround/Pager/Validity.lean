import Mathlib.Data.Nat.Bitwise
import Mathlib.Tactic.Common
import Messaround.Lib.Gaps

/-!
The parts of a page that are valid and dirty: the routines of vm/vm_page.c on the two maps of
blocks, with the bytes of the page that they zero.

A page has `w` blocks of `DEV_BSIZE` bytes, and `w` is the width of `vm_page_bits_t`. A byte is
`none` while the frame still holds there what its last owner left.
-/

namespace Messaround.Pager

abbrev DEV_BSIZE : ℕ := 512

/-- `PAGE_SIZE`. -/
def pageSize (w : ℕ) : ℕ := w * DEV_BSIZE

/-- `mapped` and `modified` are what the physical map knows of the page. -/
structure PageFrame (w : ℕ) where
  valid : BitVec w
  dirty : BitVec w
  vpo_nosync : Bool
  mapped : Bool
  modified : Bool
  bytes : ℕ → Option UInt8

inductive FrameFault
  /-- A `KASSERT` that fails. -/
  | assertion

/-- What `vm_page_set_invalid` reads of the object. -/
structure FrameObject where
  vnode : Bool
  ref_count : ℕ
  pindex : ℕ
  vnp_size : ℕ

variable {w : ℕ}

/-- `(vm_page_bits_t)1 << k`. -/
def blockBit (w k : ℕ) : BitVec w := 1#w <<< k

/-- `1 << k`, which is an `int`. -/
def intBit (w k : ℕ) : BitVec w := (1#32 <<< k).signExtend w

def vm_page_bits (w base size : ℕ) : Except FrameFault (BitVec w) :=
  if base + size ≤ pageSize w then
    if size = 0 then .ok 0
    else
      let first_bit := base / DEV_BSIZE
      let last_bit := (base + size - 1) / DEV_BSIZE
      .ok (2#w <<< last_bit - blockBit w first_bit)
  else .error .assertion

namespace PageFrame

variable (m : PageFrame w)

def pmap_zero_page_area (off size : ℕ) : PageFrame w :=
  { m with bytes := fun i => if off ≤ i ∧ i < off + size then some 0 else m.bytes i }

/-- The zeroing of the parts of the first and of the last block that a range leaves out; `bit` is
the mask by which a block is looked up. -/
def zeroFragments (bit : ℕ → BitVec w) (base size : ℕ) : PageFrame w :=
  let frag := base / DEV_BSIZE * DEV_BSIZE
  let m := if frag ≠ base ∧ m.valid &&& bit (base / DEV_BSIZE) = 0 then
      m.pmap_zero_page_area frag (base - frag)
    else m
  let endoff := base + size
  if endoff / DEV_BSIZE * DEV_BSIZE ≠ endoff ∧ m.valid &&& bit (endoff / DEV_BSIZE) = 0 then
    m.pmap_zero_page_area endoff (DEV_BSIZE - endoff % DEV_BSIZE)
  else m

def vm_page_set_valid_range (base size : ℕ) : Except FrameFault (PageFrame w) :=
  if size = 0 then .ok m
  else do
    let m := m.zeroFragments (intBit w) base size
    let bits ← vm_page_bits w base size
    if ~~~m.valid &&& bits &&& m.dirty ≠ 0 then throw .assertion
    else return { m with valid := m.valid ||| bits }

/-- Either way of clearing the bits. -/
def vm_page_clear_dirty_mask (pagebits : BitVec w) : PageFrame w :=
  { m with dirty := m.dirty &&& ~~~pagebits }

def pmap_clear_modify : PageFrame w := { m with modified := false }

def vm_page_set_validclean (base size : ℕ) : Except FrameFault (PageFrame w) :=
  if size = 0 then .ok m
  else do
    let m := m.zeroFragments (blockBit w) base size
    let oldvalid := m.valid
    let pagebits ← vm_page_bits w base size
    let m := { m with valid := m.valid ||| pagebits }
    if base = 0 ∧ size = pageSize w then
      let m := if oldvalid = BitVec.allOnes w then m.pmap_clear_modify else m
      return { m with dirty := 0, vpo_nosync := false }
    else if oldvalid ≠ BitVec.allOnes w then return { m with dirty := m.dirty &&& ~~~pagebits }
    else return m.vm_page_clear_dirty_mask pagebits

def vm_page_clear_dirty (base size : ℕ) : Except FrameFault (PageFrame w) := do
  let bits ← vm_page_bits w base size
  return m.vm_page_clear_dirty_mask bits

def vm_page_dirty : Except FrameFault (PageFrame w) :=
  if m.valid = BitVec.allOnes w then .ok { m with dirty := BitVec.allOnes w }
  else .error .assertion

def vm_page_test_dirty : Except FrameFault (PageFrame w) :=
  if m.dirty ≠ BitVec.allOnes w ∧ m.modified then m.vm_page_dirty else .ok m

def vm_page_undirty : PageFrame w := { m with dirty := 0 }

/-- A mapping through which the page was written tells so as it goes. -/
def pmap_remove_all : Except FrameFault (PageFrame w) := do
  let m ← if m.modified then m.vm_page_dirty else .ok m
  return { m with mapped := false, modified := false }

/-- The blocks to invalidate: those of a range that reaches the end of the file are all. -/
def invalidBits (object : FrameObject) (w base size : ℕ) : Except FrameFault (BitVec w) :=
  if object.vnode ∧ base = 0 ∧ object.pindex * pageSize w + size ≥ object.vnp_size then
    .ok (BitVec.allOnes w)
  else vm_page_bits w base size

def vm_page_set_invalid (object : FrameObject) (base size : ℕ) :
    Except FrameFault (PageFrame w) := do
  let bits ← invalidBits object w base size
  let m ← if object.ref_count ≠ 0 ∧ m.valid = BitVec.allOnes w ∧ bits ≠ 0 then m.pmap_remove_all
    else .ok m
  if (bits = 0 ∧ m.valid = BitVec.allOnes w) ∨ m.mapped = false then
    return { m with valid := m.valid &&& ~~~bits, dirty := m.dirty &&& ~~~bits }
  else throw .assertion

def vm_page_is_valid (base size : ℕ) : Except FrameFault Bool := do
  let bits ← vm_page_bits w base size
  return m.valid ≠ 0 ∧ m.valid &&& bits = bits

end PageFrame

/-- A page with the calls of `pmap_zero_page_area` made for it, each an offset and a size. -/
structure Zeroing (w : ℕ) where
  page : PageFrame w
  calls : List (ℕ × ℕ)

def Zeroing.pmap_zero_page_area (z : Zeroing w) (off size : ℕ) : Zeroing w :=
  ⟨z.page.pmap_zero_page_area off size, z.calls ++ [(off, size)]⟩

/-- The loop of `vm_page_zero_invalid` with `k` blocks from `i` on to look at. -/
def zeroLoop (z : Zeroing w) : (k i b : ℕ) → Zeroing w
  | 0, i, b =>
    if i > b then z.pmap_zero_page_area (b * DEV_BSIZE) ((i - b) * DEV_BSIZE) else z
  | k + 1, i, b =>
    if z.page.valid &&& blockBit w i ≠ 0 then
      if i > b then
        zeroLoop (z.pmap_zero_page_area (b * DEV_BSIZE) ((i - b) * DEV_BSIZE)) k (i + 1) (i + 1)
      else zeroLoop z k (i + 1) (i + 1)
    else zeroLoop z k (i + 1) b

def PageFrame.vm_page_zero_invalid (m : PageFrame w) (setvalid : Bool) : Zeroing w :=
  let z := zeroLoop ⟨m, []⟩ w 0 0
  if setvalid then { z with page := { z.page with valid := BitVec.allOnes w } } else z

/-! ### The masks -/

/-- The block has a byte of the range. -/
def Touches (base size i : ℕ) : Prop :=
  0 < size ∧ i * DEV_BSIZE < base + size ∧ base < (i + 1) * DEV_BSIZE

lemma getLsbD_blockBit (k i : ℕ) :
    (blockBit w k).getLsbD i = (decide (i < w) && decide (i = k)) := by
  unfold blockBit
  rw [BitVec.getLsbD_shiftLeft, BitVec.getLsbD_one]
  grind

lemma and_blockBit_eq_zero (x : BitVec w) {k : ℕ} (hk : k < w) :
    x &&& blockBit w k = 0 ↔ x.getLsbD k = false := by
  constructor
  · intro h
    have hbit := congrArg (fun y => BitVec.getLsbD y k) h
    simp only [BitVec.getLsbD_and, getLsbD_blockBit, hk, decide_true, Bool.and_true,
      BitVec.ofNat_eq_ofNat, BitVec.getLsbD_zero] at hbit
    exact hbit
  · intro h
    apply BitVec.eq_of_getLsbD_eq
    intro i hi
    rw [BitVec.getLsbD_and, getLsbD_blockBit]
    rcases eq_or_ne i k with rfl | hne
    · simp [h]
    · simp [hne]

/-- The `int` does as well for pages of at most 32 blocks. -/
lemma intBit_eq (hw : w ≤ 32) (k : ℕ) : intBit w k = blockBit w k := by
  unfold intBit blockBit
  rw [BitVec.signExtend_eq_setWidth_of_le _ hw]
  apply BitVec.eq_of_getLsbD_eq
  intro i hi
  rw [BitVec.getLsbD_setWidth, BitVec.getLsbD_shiftLeft, BitVec.getLsbD_shiftLeft,
    BitVec.getLsbD_one, BitVec.getLsbD_one]
  grind

/-- A one for each block from `first` to `last`, although `2 << last` may leave the type. -/
lemma getLsbD_range {first last : ℕ} (hle : first ≤ last) (hlast : last < w) (i : ℕ) :
    (2#w <<< last - blockBit w first).getLsbD i = (decide (first ≤ i) && decide (i ≤ last)) := by
  have hpow : 2 ^ first < 2 ^ (last + 1) := Nat.pow_lt_pow_right (by decide) (by omega)
  have hpos := Nat.two_pow_pos first
  have hfirst : (blockBit w first).toNat = 2 ^ first := by
    have hlt : 2 ^ first < 2 ^ w := Nat.pow_lt_pow_right (by decide) (by omega)
    have h1 : 1 % 2 ^ w = 1 := Nat.mod_eq_of_lt (Nat.one_lt_two_pow (by omega))
    rw [blockBit, BitVec.toNat_shiftLeft, BitVec.toNat_ofNat, h1, Nat.shiftLeft_eq, Nat.one_mul,
      Nat.mod_eq_of_lt hlt]
  have hdiff : (2#w <<< last - blockBit w first).toNat = 2 ^ (last + 1) - (2 ^ first - 1 + 1) := by
    have h2 : (2#w <<< last).toNat = 2 ^ (last + 1) % 2 ^ w := by
      rw [BitVec.toNat_shiftLeft, BitVec.toNat_ofNat, Nat.shiftLeft_eq, Nat.mod_mul_mod,
        Nat.pow_succ, Nat.mul_comm 2]
    rw [BitVec.toNat_sub, hfirst, h2]
    rcases Nat.lt_or_ge (last + 1) w with hlt | hge
    · have hw : 2 ^ (last + 1) < 2 ^ w := Nat.pow_lt_pow_right (by decide) hlt
      rw [Nat.mod_eq_of_lt hw, show 2 ^ w - 2 ^ first + 2 ^ (last + 1) =
        2 ^ (last + 1) - 2 ^ first + 2 ^ w by omega, Nat.add_mod_right,
        Nat.mod_eq_of_lt (by omega)]
      omega
    · obtain rfl : w = last + 1 := by omega
      rw [Nat.mod_self, Nat.add_zero, Nat.mod_eq_of_lt (by omega)]
      omega
  rw [← BitVec.testBit_toNat, hdiff, Nat.testBit_two_pow_sub_succ (by omega),
    Nat.testBit_two_pow_sub_one]
  grind

/-- **The mask of a range** has the bits of the blocks that the range touches. -/
lemma vm_page_bits_ok {base size : ℕ} (h : base + size ≤ pageSize w) :
    ∃ bits, vm_page_bits w base size = .ok bits ∧
      ∀ i, bits.getLsbD i = true ↔ Touches base size i := by
  unfold vm_page_bits Touches
  rw [if_pos h]
  split
  next h0 => exact ⟨0, rfl, fun i => by simp [h0]⟩
  next h0 =>
    refine ⟨_, rfl, fun i => ?_⟩
    unfold pageSize DEV_BSIZE at *
    rw [getLsbD_range (Nat.div_le_div_right (by omega)) (by omega), Bool.and_eq_true,
      decide_eq_true_iff, decide_eq_true_iff]
    omega

/-! ### What a range does to the maps and to the bytes -/

variable {m m' : PageFrame w} {base size : ℕ} {bit : ℕ → BitVec w}

/-- What of the blocks that a range touches is zeroed for it: the bytes outside of the range in a
block that was not valid. -/
def Fragment (m : PageFrame w) (base size off : ℕ) : Prop :=
  Touches base size (off / DEV_BSIZE) ∧ ¬(base ≤ off ∧ off < base + size) ∧
    m.valid.getLsbD (off / DEV_BSIZE) = false

lemma zero_if (P : Prop) [Decidable P] (off size : ℕ) :
    (if P then m.pmap_zero_page_area off size else m) = { m with
      bytes := fun i => if P ∧ off ≤ i ∧ i < off + size then some 0 else m.bytes i } := by
  split
  next hP => simp [PageFrame.pmap_zero_page_area, hP]
  next hP => simp [hP]

open Classical in
lemma zeroFragments_eq (hbit : ∀ k < w, m.valid &&& bit k = 0 ↔ m.valid.getLsbD k = false)
    (hsize : 0 < size) (h : base + size ≤ pageSize w) :
    m.zeroFragments bit base size = { m with
      bytes := fun off => if Fragment m base size off then some 0 else m.bytes off } := by
  unfold pageSize DEV_BSIZE at h
  have hfirst := hbit (base / DEV_BSIZE) (by unfold DEV_BSIZE; omega)
  unfold PageFrame.zeroFragments
  dsimp only
  rw [zero_if, zero_if]
  congr 1
  funext off
  dsimp only
  -- the two calls zero what is left of the last and of the first block
  have hiff : (((base + size) / DEV_BSIZE * DEV_BSIZE ≠ base + size ∧
        m.valid &&& bit ((base + size) / DEV_BSIZE) = 0) ∧
      base + size ≤ off ∧ off < base + size + (DEV_BSIZE - (base + size) % DEV_BSIZE)) ∨
      ((base / DEV_BSIZE * DEV_BSIZE ≠ base ∧ m.valid &&& bit (base / DEV_BSIZE) = 0) ∧
      base / DEV_BSIZE * DEV_BSIZE ≤ off ∧
        off < base / DEV_BSIZE * DEV_BSIZE + (base - base / DEV_BSIZE * DEV_BSIZE)) ↔
      Fragment m base size off := by
    unfold Fragment Touches DEV_BSIZE at *
    constructor
    · rintro (⟨⟨hne, hv⟩, h1, h2⟩ | ⟨⟨hne, hv⟩, h1, h2⟩)
      · have he : off / 512 = (base + size) / 512 := by omega
        rw [hbit _ (by omega)] at hv
        exact ⟨⟨hsize, by omega, by omega⟩, by omega, he ▸ hv⟩
      · have he : off / 512 = base / 512 := by omega
        exact ⟨⟨hsize, by omega, by omega⟩, by omega, he ▸ hfirst.mp hv⟩
    · rintro ⟨⟨-, h1, h2⟩, hout, hv⟩
      -- in front of the range, or behind it
      rcases Nat.lt_or_ge off base with hlt | hge
      · have he : off / 512 = base / 512 := by omega
        exact .inr ⟨⟨by omega, hfirst.mpr (he ▸ hv)⟩, by omega, by omega⟩
      · have he : off / 512 = (base + size) / 512 := by omega
        refine .inl ⟨⟨by omega, ?_⟩, by omega, by omega⟩
        rw [hbit _ (by omega), ← he]
        exact hv
  split
  next hend => rw [if_pos (hiff.mp (.inl hend))]
  next hend =>
    split
    next hstart => rw [if_pos (hiff.mp (.inr hstart))]
    next hstart => rw [if_neg fun hf => (hiff.mpr hf).elim hend hstart]

/-- What the map of valid blocks and the bytes promise, and what the physical map may know. -/
structure PageFrame.Sound (m : PageFrame w) : Prop where
  initialized : ∀ off < pageSize w, m.valid.getLsbD (off / DEV_BSIZE) = true → m.bytes off ≠ none
  dirty : ∀ i, m.dirty.getLsbD i = true → m.valid.getLsbD i = true
  mapped : m.mapped = true → m.valid = BitVec.allOnes w
  modified : m.modified = true → m.mapped = true

/-- The caller has stored the bytes of the range. -/
def Stored (m : PageFrame w) (base size : ℕ) : Prop :=
  base + size ≤ pageSize w ∧ ∀ off, base ≤ off → off < base + size → m.bytes off ≠ none

lemma initialized_or {bits : BitVec w} (hm : m.Sound) (hst : Stored m base size)
    (hbits : ∀ i, bits.getLsbD i = true ↔ Touches base size i) {bytes : ℕ → Option UInt8}
    (hfrag : ∀ off, Fragment m base size off → bytes off = some 0)
    (hsame : ∀ off, ¬Fragment m base size off → bytes off = m.bytes off) :
    ∀ off < pageSize w, (m.valid ||| bits).getLsbD (off / DEV_BSIZE) = true →
      bytes off ≠ none := by
  intro off hoff hv
  by_cases hf : Fragment m base size off
  · rw [hfrag off hf]
    exact Option.some_ne_none 0
  · rw [hsame off hf]
    rw [BitVec.getLsbD_or, Bool.or_eq_true, hbits] at hv
    rcases hv with hv | hv
    · exact hm.initialized off hoff hv
    · by_cases hin : base ≤ off ∧ off < base + size
      · exact hst.2 off hin.1 hin.2
      · refine hm.initialized off hoff ?_
        by_contra hinv
        exact hf ⟨hv, hin, by simpa using hinv⟩

/-- What a range makes of a page: the blocks that it touches are valid, and what of them was not
stored is zero. -/
structure Marked (m : PageFrame w) (base size : ℕ) (m' : PageFrame w) : Prop where
  valid : ∀ i, m'.valid.getLsbD i = true ↔ m.valid.getLsbD i = true ∨ Touches base size i
  zeroed : ∀ off, Fragment m base size off → m'.bytes off = some 0
  same : ∀ off, ¬Fragment m base size off → m'.bytes off = m.bytes off
  mapped : m'.mapped = m.mapped

lemma not_touches_zero (base i : ℕ) : ¬Touches base 0 i := fun h => absurd h.1 (by decide)

lemma marked_zero (m : PageFrame w) (base : ℕ) : Marked m base 0 m :=
  ⟨fun i => (or_iff_left (not_touches_zero base i)).symm,
    fun _ hf => absurd hf.1 (not_touches_zero base _), fun _ _ => rfl, rfl⟩

lemma getLsbD_and_not {x bits : BitVec w} {P : ℕ → Prop}
    (hbits : ∀ i, bits.getLsbD i = true ↔ P i) (i : ℕ) :
    (x &&& ~~~bits).getLsbD i = true ↔ x.getLsbD i = true ∧ ¬P i := by
  rw [BitVec.getLsbD_and, BitVec.getLsbD_not, ← hbits]
  by_cases hi : i < w
  · simp [hi]
  · simp [hi, BitVec.getLsbD_of_ge x i (Nat.le_of_not_lt hi)]

/-- **A range made valid**: the assertion holds, and the dirty blocks stay the same. -/
lemma set_valid_range_ok (hw : w ≤ 32) (hm : m.Sound) (hst : Stored m base size) :
    ∃ m', m.vm_page_set_valid_range base size = .ok m' ∧ m'.Sound ∧ Marked m base size m' ∧
      m'.dirty = m.dirty := by
  classical
  unfold PageFrame.vm_page_set_valid_range
  split
  next h0 => exact ⟨m, rfl, hm, h0 ▸ marked_zero m base, rfl⟩
  next h0 =>
    have hbit : ∀ k < w, m.valid &&& intBit w k = 0 ↔ m.valid.getLsbD k = false := fun k hk => by
      rw [intBit_eq hw, and_blockBit_eq_zero _ hk]
    obtain ⟨bits, hbits, htouch⟩ := vm_page_bits_ok hst.1
    rw [zeroFragments_eq hbit (by omega) hst.1, hbits]
    simp only [bind, Except.bind, pure, Except.pure]
    -- the assertion: no block that becomes valid is dirty
    have hclean : ~~~m.valid &&& bits &&& m.dirty = 0 := by
      apply BitVec.eq_of_getLsbD_eq
      intro i hi
      cases hd : m.dirty.getLsbD i with
      | false => simp [hd]
      | true => simp [hm.dirty i hd]
    rw [if_neg (not_not.mpr hclean)]
    refine ⟨_, rfl, ⟨?_, fun i hd => ?_, fun hmap => ?_, hm.modified⟩,
      ⟨fun i => ?_, ?_, ?_, rfl⟩, rfl⟩
    · exact initialized_or hm hst htouch (fun off hf => if_pos hf) fun off hf => if_neg hf
    · simp [hm.dirty i hd]
    · dsimp only
      rw [hm.mapped hmap, BitVec.allOnes_or]
    · rw [BitVec.getLsbD_or, Bool.or_eq_true, htouch]
    · exact fun off hf => if_pos hf
    · exact fun off hf => if_neg hf

/-- **A range made valid and clean**: every block that it touches loses its dirty bit, a block
that it covers in part included. -/
lemma set_validclean_ok (hm : m.Sound) (hst : Stored m base size) :
    ∃ m', m.vm_page_set_validclean base size = .ok m' ∧ m'.Sound ∧ Marked m base size m' ∧
      (∀ i, m'.dirty.getLsbD i = true ↔ m.dirty.getLsbD i = true ∧ ¬Touches base size i) ∧
      m'.modified = (m.modified && decide (¬(base = 0 ∧ size = pageSize w ∧ 0 < size))) := by
  classical
  unfold PageFrame.vm_page_set_validclean
  split
  next h0 =>
    exact ⟨m, rfl, hm, h0 ▸ marked_zero m base,
      fun i => (and_iff_left (h0 ▸ not_touches_zero base i)).symm, by simp [h0]⟩
  next h0 =>
    have hpos : 0 < size := by omega
    obtain ⟨bits, hbits, htouch⟩ := vm_page_bits_ok hst.1
    rw [zeroFragments_eq (fun k hk => and_blockBit_eq_zero _ hk) hpos hst.1, hbits]
    simp only [bind, Except.bind, pure, Except.pure]
    have hinit : ∀ off < pageSize w, (m.valid ||| bits).getLsbD (off / DEV_BSIZE) = true →
        (if Fragment m base size off then some 0 else m.bytes off) ≠ none :=
      initialized_or hm hst htouch (fun _ hf => if_pos hf) fun _ hf => if_neg hf
    have hvalid : ∀ i, (m.valid ||| bits).getLsbD i = true ↔
        m.valid.getLsbD i = true ∨ Touches base size i := fun i => by
      rw [BitVec.getLsbD_or, Bool.or_eq_true, htouch]
    have hmapped : m.mapped = true → m.valid ||| bits = BitVec.allOnes w := fun hmap => by
      rw [hm.mapped hmap, BitVec.allOnes_or]
    have hclear := getLsbD_and_not (x := m.dirty) htouch
    have hdirty : ∀ i, (m.dirty &&& ~~~bits).getLsbD i = true →
        (m.valid ||| bits).getLsbD i = true := fun i hd =>
      (hvalid i).mpr (.inl (hm.dirty i ((hclear i).mp hd).1))
    split
    next hfull =>
      -- the whole page: the map may be told to forget its changes
      obtain ⟨rfl, rfl⟩ := hfull
      have hall : ∀ i < w, Touches 0 (pageSize w) i := fun i hi => by
        unfold Touches pageSize DEV_BSIZE at *
        omega
      have hnone : ∀ i, (0 : BitVec w).getLsbD i = true ↔
          m.dirty.getLsbD i = true ∧ ¬Touches 0 (pageSize w) i := fun i => by
        rw [BitVec.ofNat_eq_ofNat, BitVec.getLsbD_zero]
        refine iff_of_false Bool.false_ne_true fun h => h.2 (hall i ?_)
        by_contra hge
        rw [BitVec.getLsbD_of_ge _ _ (Nat.le_of_not_lt hge)] at h
        exact Bool.false_ne_true h.1
      split
      next hold =>
        refine ⟨_, rfl, ⟨hinit, fun i hd => ?_, hmapped, nofun⟩,
          ⟨hvalid, fun _ hf => if_pos hf, fun _ hf => if_neg hf, rfl⟩, hnone, ?_⟩
        · exact absurd hd (by simp)
        · simp [PageFrame.pmap_clear_modify, hpos]
      next hold =>
        -- the page is not mapped, so that nothing has been modified
        have hclean : m.modified = false := by
          by_contra hmod
          exact hold (hm.mapped (hm.modified (by simpa using hmod)))
        refine ⟨_, rfl, ⟨hinit, fun i hd => ?_, hmapped, hm.modified⟩,
          ⟨hvalid, fun _ hf => if_pos hf, fun _ hf => if_neg hf, rfl⟩, hnone, ?_⟩
        · exact absurd hd (by simp)
        · simp [hclean]
    next hpart =>
      -- a part of it: only the dirty bits of the range are cleared
      have hmod : (m.modified && decide ¬(base = 0 ∧ size = pageSize w ∧ 0 < size)) =
          m.modified := by
        have : ¬(base = 0 ∧ size = pageSize w ∧ 0 < size) := fun h => hpart ⟨h.1, h.2.1⟩
        simp [this]
      rw [hmod]
      split
      next => exact ⟨_, rfl, ⟨hinit, hdirty, hmapped, hm.modified⟩,
        ⟨hvalid, fun _ hf => if_pos hf, fun _ hf => if_neg hf, rfl⟩, hclear, rfl⟩
      next => exact ⟨_, rfl, ⟨hinit, hdirty, hmapped, hm.modified⟩,
        ⟨hvalid, fun _ hf => if_pos hf, fun _ hf => if_neg hf, rfl⟩, hclear, rfl⟩

/-! ### The other routines -/

lemma vm_page_dirty_ok (hm : m.Sound) (hv : m.valid = BitVec.allOnes w) :
    m.vm_page_dirty = .ok { m with dirty := BitVec.allOnes w } ∧
      PageFrame.Sound { m with dirty := BitVec.allOnes w } := by
  refine ⟨if_pos hv, hm.initialized, fun i hd => ?_, hm.mapped, hm.modified⟩
  rw [hv]
  exact hd

lemma vm_page_test_dirty_ok (hm : m.Sound) :
    ∃ m', m.vm_page_test_dirty = .ok m' ∧ m'.Sound := by
  unfold PageFrame.vm_page_test_dirty
  split
  next h =>
    obtain ⟨heq, hs⟩ := vm_page_dirty_ok hm (hm.mapped (hm.modified h.2))
    exact ⟨_, heq, hs⟩
  next => exact ⟨m, rfl, hm⟩

lemma PageFrame.Sound.clear (hm : m.Sound) (bits : BitVec w) :
    (m.vm_page_clear_dirty_mask bits).Sound :=
  ⟨hm.initialized, fun i hd => hm.dirty i (by
    simp only [PageFrame.vm_page_clear_dirty_mask, BitVec.getLsbD_and, Bool.and_eq_true] at hd
    exact hd.1), hm.mapped, hm.modified⟩

lemma pmap_remove_all_ok (hm : m.Sound) :
    ∃ m', m.pmap_remove_all = .ok m' ∧ m'.Sound ∧ m'.mapped = false ∧ m'.bytes = m.bytes ∧
      m'.valid = m.valid := by
  unfold PageFrame.pmap_remove_all
  split
  next h =>
    obtain ⟨heq, hs⟩ := vm_page_dirty_ok hm (hm.mapped (hm.modified h))
    rw [heq]
    exact ⟨_, rfl, ⟨hs.initialized, hs.dirty, nofun, nofun⟩, rfl, rfl, rfl⟩
  next => exact ⟨_, rfl, ⟨hm.initialized, hm.dirty, nofun, nofun⟩, rfl, rfl, rfl⟩

lemma PageFrame.Sound.invalidate (hm : m.Sound) (bits : BitVec w)
    (hmap : m.mapped = true → bits = 0) :
    PageFrame.Sound { m with valid := m.valid &&& ~~~bits, dirty := m.dirty &&& ~~~bits } := by
  have hsub : ∀ (x : BitVec w) i, (x &&& ~~~bits).getLsbD i = true →
      x.getLsbD i = true ∧ (~~~bits).getLsbD i = true := fun x i h => by
    rwa [BitVec.getLsbD_and, Bool.and_eq_true] at h
  refine ⟨fun off hoff hv => hm.initialized off hoff (hsub _ _ hv).1, fun i hd => ?_, fun h => ?_,
    hm.modified⟩
  · obtain ⟨h1, h2⟩ := hsub _ _ hd
    rw [BitVec.getLsbD_and, hm.dirty i h1, h2]
    rfl
  · dsimp only
    rw [hmap h, hm.mapped h]
    simp

/-- **Blocks made invalid**: the page is unmapped before, so the assertion holds. -/
lemma set_invalid_ok (hm : m.Sound) {object : FrameObject}
    (hrange : base + size ≤ pageSize w) (href : m.mapped = true → object.ref_count ≠ 0) :
    ∃ m', m.vm_page_set_invalid object base size = .ok m' ∧ m'.Sound := by
  obtain ⟨bits, hbits⟩ : ∃ bits, PageFrame.invalidBits object w base size = .ok bits := by
    unfold PageFrame.invalidBits
    split
    · exact ⟨_, rfl⟩
    · obtain ⟨bits, heq, -⟩ := vm_page_bits_ok hrange
      exact ⟨bits, heq⟩
  unfold PageFrame.vm_page_set_invalid
  rw [hbits]
  simp only [bind, Except.bind, pure, Except.pure]
  split
  next =>
    obtain ⟨m₁, heq, hs, hun, -⟩ := pmap_remove_all_ok hm
    rw [heq]
    dsimp only
    rw [if_pos (.inr hun)]
    exact ⟨_, rfl, hs.invalidate bits fun h => absurd (hun.symm.trans h) Bool.false_ne_true⟩
  next hno =>
    have hzero : m.mapped = true → bits = 0 := fun h => by
      by_contra hne
      exact hno ⟨href h, hm.mapped h, hne⟩
    rw [if_pos]
    · exact ⟨_, rfl, hm.invalidate bits hzero⟩
    · cases hmap : m.mapped with
      | false => exact .inr rfl
      | true => exact .inl ⟨hzero hmap, hm.mapped hmap⟩

/-! ### Zeroing what is not valid -/

open Gaps (gapsFrom Covers IsGap)

/-- The call for the blocks of a gap. -/
def zeroCall (g : ℕ × ℕ) : ℕ × ℕ := (g.1 * DEV_BSIZE, g.2 * DEV_BSIZE)

def zeroGap (z : Zeroing w) (g : ℕ × ℕ) : Zeroing w :=
  z.pmap_zero_page_area (zeroCall g).1 (zeroCall g).2

lemma zeroLoop_eq {z : Zeroing w} {k i b : ℕ} (hk : i + k ≤ w) :
    zeroLoop z k i b = (gapsFrom z.page.valid.getLsbD k i b).foldl zeroGap z := by
  induction k generalizing z i b with
  | zero =>
    unfold zeroLoop gapsFrom
    split <;> rfl
  | succ k ih =>
    unfold zeroLoop gapsFrom
    have hbit := and_blockBit_eq_zero z.page.valid (k := i) (by omega)
    split
    next hv =>
      have hset : z.page.valid.getLsbD i = true := by simpa using mt hbit.mpr hv
      rw [if_pos hset]
      split
      · rw [ih (by omega), List.foldl_cons]
        rfl
      · exact ih (by omega)
    next hv =>
      have hclear : z.page.valid.getLsbD i = false := hbit.mp (not_not.mp hv)
      rw [if_neg (by simp [hclear])]
      exact ih (by omega)

open Classical in
lemma foldl_zeroGap (gs : List (ℕ × ℕ)) (z : Zeroing w) :
    gs.foldl zeroGap z =
      ⟨{ z.page with
          bytes := fun off =>
            if ∃ g ∈ gs, Covers g (off / DEV_BSIZE) then some 0 else z.page.bytes off },
        z.calls ++ gs.map zeroCall⟩ := by
  induction gs generalizing z with
  | nil => simp
  | cons g gs ih =>
    rw [List.foldl_cons, ih]
    simp only [zeroGap, Zeroing.pmap_zero_page_area, PageFrame.pmap_zero_page_area,
      List.mem_cons, exists_eq_or_imp, List.map_cons, List.append_assoc, List.singleton_append]
    congr 2
    funext off
    have hcov : (zeroCall g).1 ≤ off ∧ off < (zeroCall g).1 + (zeroCall g).2 ↔
        Covers g (off / DEV_BSIZE) := by
      unfold zeroCall Covers DEV_BSIZE
      omega
    by_cases h1 : ∃ g ∈ gs, Covers g (off / DEV_BSIZE)
    · rw [if_pos h1, if_pos (.inr h1)]
    · by_cases h2 : Covers g (off / DEV_BSIZE)
      · rw [if_neg h1, if_pos (hcov.mpr h2), if_pos (.inl h2)]
      · rw [if_neg h1, if_neg (mt hcov.mp h2), if_neg (not_or.mpr ⟨h2, h1⟩)]

lemma zero_invalid_eq (m : PageFrame w) (setvalid : Bool) :
    m.vm_page_zero_invalid setvalid =
      ⟨{ m with
          valid := if setvalid then BitVec.allOnes w else m.valid
          bytes := fun off =>
            if off < pageSize w ∧ m.valid.getLsbD (off / DEV_BSIZE) = false then some 0
            else m.bytes off },
        (gapsFrom m.valid.getLsbD w 0 0).map zeroCall⟩ := by
  classical
  have hiff : ∀ off, (∃ g ∈ gapsFrom m.valid.getLsbD w 0 0, Covers g (off / DEV_BSIZE)) ↔
      off < pageSize w ∧ m.valid.getLsbD (off / DEV_BSIZE) = false := fun off => by
    rw [Gaps.covered_iff (Nat.le_refl 0) fun l _ hl => absurd hl (Nat.not_lt_zero l)]
    unfold pageSize DEV_BSIZE
    exact ⟨fun h => ⟨by omega, h.2.2⟩, fun h => ⟨by omega, by omega, h.2⟩⟩
  have hloop : zeroLoop ⟨m, []⟩ w 0 0 = _ :=
    (zeroLoop_eq (by omega)).trans (foldl_zeroGap (gapsFrom m.valid.getLsbD w 0 0) ⟨m, []⟩)
  unfold PageFrame.vm_page_zero_invalid
  rw [hloop]
  simp only [hiff, List.nil_append]
  cases setvalid <;> rfl

/-- **The bytes of the blocks that are not valid are zeroed, and no others**, by one call of
`pmap_zero_page_area` for each longest run of them, from the left to the right. -/
theorem zero_invalid_exact (m : PageFrame w) (setvalid : Bool) :
    (∀ off, (m.vm_page_zero_invalid setvalid).page.bytes off =
      if off < pageSize w ∧ m.valid.getLsbD (off / DEV_BSIZE) = false then some 0
      else m.bytes off) ∧
    (m.vm_page_zero_invalid setvalid).page.valid =
      (if setvalid then BitVec.allOnes w else m.valid) ∧
    (m.vm_page_zero_invalid setvalid).page.dirty = m.dirty ∧
    (∀ call, call ∈ (m.vm_page_zero_invalid setvalid).calls ↔
      ∃ g, IsGap m.valid.getLsbD w g ∧ call = (g.1 * DEV_BSIZE, g.2 * DEV_BSIZE)) ∧
    (m.vm_page_zero_invalid setvalid).calls.Pairwise fun call call' =>
      call.1 + call.2 < call'.1 := by
  rw [zero_invalid_eq]
  refine ⟨fun _ => rfl, rfl, rfl, fun call => ?_, ?_⟩
  · simp only [List.mem_map, Gaps.mem_gaps_iff, zeroCall, eq_comm]
  · refine List.pairwise_map.mpr ((Gaps.gaps_apart (Nat.le_refl 0)).imp fun h => ?_)
    unfold zeroCall DEV_BSIZE
    omega

end Messaround.Pager
