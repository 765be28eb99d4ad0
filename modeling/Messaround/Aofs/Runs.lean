import Messaround.Aofs.Read
import Messaround.Aofs.Small
import Messaround.Aofs.Truncate

/-!
Runs: the image of `init_fs` and `write_fs`, the calls made on it one after the other, and
what every call preserves.

The conditions of the step lemma are those under which the code stays on the chain of its
file; whether sizes still fit their chains afterwards is a separate one.
-/

namespace Messaround.Aofs

open Messaround.CInt Messaround.Segment Disk

/-! ### The image -/

/-- `d` is what `write_fs` leaves of the structure that `init_fs` filled in. -/
def Image (d : Disk) : Prop :=
  ∃ fs d0 l l', (initFs fs >>= writeFs).run exec d0 l = some ((), d, l')

lemma safe_initBlocks {d : Disk} {is : List (Fin BLOCK_NUM)} {fs : AOFS} {Q : AOFS → Disk → Prop}
    (hQ : ∀ fs', fs'.sb = fs.sb → Q fs' d) : Safe (initBlocks is fs) d Q := by
  induction is generalizing fs with
  | nil => exact safe_ret (hQ fs rfl)
  | cons i is ih => exact safe_bind (safe_clearBlock fun b _ => ih fun fs' h => hQ fs' h)

lemma safe_writeBlocks {d : Disk} {bs : List (Fin BLOCK_NUM)} {fs : AOFS}
    {Q : Unit → Disk → Prop} (hQ : ∀ d', d'.sb = d.sb → Q () d') :
    Safe (writeBlocks fs bs) d Q := by
  induction bs generalizing d with
  | nil => exact safe_ret (hQ d rfl)
  | cons b bs ih => exact safe_bind (safe_writeBlock (ih fun d' h => hQ d' h))

lemma safe_initFs {d : Disk} {fs : AOFS} {Q : AOFS → Disk → Prop}
    (hQ : ∀ fs', fs'.sb = initialSuperBlock → Q fs' d) : Safe (initFs fs) d Q := by
  unfold initFs
  exact safe_initBlocks fun fs' h => hQ fs' h

lemma ends_writeFs {d : Disk} {fs : AOFS} : Ends (writeFs fs) d fun _ d' => d'.sb = fs.sb := by
  unfold writeFs
  exact Prog.Ends.bind (Prog.ends_perform fun _ => (safe_writeBlocks fun _ h => h).ends)

/-- `init_fs` and `write_fs` end, with an image whose superblock is the initial one. -/
lemma ends_image (fs : AOFS) (d0 : Disk) :
    Ends (initFs fs >>= writeFs) d0 fun _ d => d.sb = initialSuperBlock := by
  have hinit : Safe (initFs fs) d0 fun fs' d => Ends (writeFs fs') d fun _ d' =>
      d'.sb = initialSuperBlock := safe_initFs fun fs' h => by rw [← h]; exact ends_writeFs
  exact Prog.Ends.bind hinit.ends

lemma Image.sb {d : Disk} (hd : Image d) : d.sb = initialSuperBlock := by
  obtain ⟨fs, d0, l, l', hr⟩ := hd
  obtain ⟨a, d', l'', hr', hq⟩ := ends_image fs d0 l
  obtain ⟨-, rfl, -⟩ : a = () ∧ d' = d ∧ l'' = l' := by simpa [hr] using hr'.symm
  exact hq

lemma exists_image : ∃ d, Image d := by
  obtain ⟨a, d, l', hr, -⟩ := ends_image ⟨initialSuperBlock, fun _ => default⟩
    ⟨initialSuperBlock, fun _ => default, []⟩ default
  exact ⟨d, _, _, _, _, hr⟩

/-! ### Calls -/

/-- A call of one of the functions of `aofs.c`, with its arguments. -/
inductive Op
  | create (path : CStr)
  | write (path : CStr) (buf : ℕ → UInt8) (size offset : ℕ)
  | read (path : CStr) (size offset : ℕ)
  | truncate (path : CStr) (size : ℕ)
  | delete (path : CStr)

namespace Op

def path : Op → CStr
  | .create p | .write p _ _ _ | .read p _ _ | .truncate p _ | .delete p => p

/-- The function called; the loops that only the disk ends have the budget `fuel`. -/
def code (fuel : ℕ) : Op → Code ℤ
  | .create p => aofsCreateFile p
  | .write p buf size offset => aofsWriteFile p buf size offset
  | .read p size offset => do
    let r ← aofsReadFile p size offset
    return r.1
  | .truncate p size => aofsTruncateFile fuel p size
  | .delete p => aofsDeleteFile fuel p

/-- The arguments are in range: a name of at most 255 bytes, a size that is an `int`, and an
offset or a length that is an `off_t`. -/
def Valid (op : Op) : Prop :=
  op.path.length ≤ MAX_FILENAME ∧ match op with
    | .write _ _ size offset => size ≤ INT_MAX ∧ offset ≤ OFF_MAX
    | .truncate _ size => size ≤ OFF_MAX
    | _ => True

/-- There are enough free blocks for a write. -/
def Room (d : Disk) : Op → Prop
  | .write p _ size offset =>
    (∀ h, d.lookup p = some h → 0 < size → min offset (d.blocks h).dbm.st_size.toNat + size ≤
      ((d.chain h).length + d.freeCount) * BLOCK_DATA) ∧
    (d.lookup p = none → 0 < d.freeCount ∧ size ≤ d.freeCount * BLOCK_DATA)
  | _ => True

/-- A write starts in a block of the file or right behind the last, and a truncate keeps no
more blocks than the file has. -/
def OnChain (d : Disk) : Op → Prop
  | .write p _ size offset => ∀ h, d.lookup p = some h → 0 < size →
      min offset (d.blocks h).dbm.st_size.toNat ≤ (d.chain h).length * BLOCK_DATA
  | .truncate p size => ∀ h, d.lookup p = some h → (size : ℤ) < (d.blocks h).dbm.st_size →
      toInt (blockCount (d.blocks h).dbm.st_size - blockCount size) ≠ 0 →
        (blockCount size).toNat < (d.chain h).length
  | _ => True

/-- A truncate that grows a file links in as many blocks as the new size needs. -/
def GrowthFits (d : Disk) : Op → Prop
  | .truncate p size => ∀ h, d.lookup p = some h → (d.blocks h).dbm.st_size < size →
      missingBlocks (d.blocks h).dbm.st_size size ≤ d.freeCount →
        size ≤ ((d.chain h).length + missingBlocks (d.blocks h).dbm.st_size size) * BLOCK_DATA
  | _ => True

/-- What a call does to a disk with sound chains. -/
structure Effect (op : Op) (d d' : Disk) : Prop where
  touches : Touches d d' op.path
  sized : d.Sized → op.GrowthFits d → d'.Sized

lemma Effect.refl (op : Op) (d : Disk) : op.Effect d d := ⟨.refl d _, fun h _ => h⟩

lemma effect_of_rewrites {op : Op} {d d' : Disk} {h : Fin BLOCK_NUM}
    {c c' : List (Fin BLOCK_NUM)} (hl : d.Linked) (hr : Rewrites d d' op.path h c c')
    (hfit : d.Sized → op.GrowthFits d → d'.IsHead h →
      (d'.blocks h).dbm.st_size ≤ c'.length * BLOCK_DATA) : op.Effect d d' :=
  ⟨hr.touches, fun hs hg => hr.sized hl hs fun hh => hfit hs hg hh⟩

lemma blocks_le (c new : List (Fin BLOCK_NUM)) :
    (c.length : ℤ) * BLOCK_DATA ≤ ((c.length + new.length : ℕ) : ℤ) * BLOCK_DATA := by
  have := Nat.mul_le_mul_right BLOCK_DATA (Nat.le_add_right c.length new.length)
  exact_mod_cast this

lemma size_le_image {d : Disk} {h : Fin BLOCK_NUM} {size : ℕ} (hl : d.Linked) (hh : d.IsHead h)
    (hs : (d.blocks h).dbm.st_size ≤ (d.chain h).length * BLOCK_DATA)
    (hsize : (size : ℤ) ≤ (d.blocks h).dbm.st_size) : size ≤ BLOCK_NUM * BLOCK_DATA := by
  have hlen := Nat.mul_le_mul_right BLOCK_DATA (hl.ends h hh).length_le
  have hle : (size : ℤ) ≤ ((d.chain h).length * BLOCK_DATA : ℕ) := by
    push_cast; exact hsize.trans hs
  exact le_trans (by exact_mod_cast hle) hlen

lemma onChain_of_sized {d : Disk} (hl : d.Linked) (hs : d.Sized) (op : Op) : op.OnChain d := by
  cases op with
  | write p buf size offset =>
    intro h hh _
    have hf := (lookup_eq_some.mp hh).1.1
    have hfit := hs h hf
    have : (((d.blocks h).dbm.st_size.toNat : ℕ) : ℤ) ≤ ((d.chain h).length * BLOCK_DATA : ℕ) := by
      rw [Int.toNat_of_nonneg (hl.size_nonneg h hf)]; exact_mod_cast hfit
    exact (Nat.min_le_right _ _).trans (by exact_mod_cast this)
  | truncate p size =>
    intro h hh hlt _
    have hf := (lookup_eq_some.mp hh).1.1
    have hfit := hs h hf
    have hle := size_le_image hl hf hfit hlt.le
    have hlt' : (size : ℤ) < ((d.chain h).length * BLOCK_DATA : ℕ) := by
      push_cast; exact hlt.trans_le hfit
    rw [blockCount_of_le hle, Int.toNat_natCast]
    exact Nat.div_lt_of_lt_mul (by rw [mul_comm]; exact_mod_cast hlt')
  | _ => trivial

section step

variable {d : Disk} {p : CStr} {fuel : ℕ} (hl : d.Linked) (hp : p.length ≤ MAX_FILENAME)

include hl hp in
lemma safe_create : Safe (aofsCreateFile p) d fun _ d' => (create p).Effect d d' := by
  refine safe_aofsCreateFile hp hl.total_le (fun i b hi hb => ?_) fun _ => .refl _ d
  refine effect_of_rewrites hl (rewrites_new hi.1 hb) fun _ _ _ => ?_
  rw [put_blocks_self, hb.size]
  exact Int.natCast_nonneg _

include hl hp in
lemma safe_write {buf : ℕ → UInt8} {size offset : ℕ} (hs : size ≤ INT_MAX) (ho : offset ≤ OFF_MAX)
    (hroom : (write p buf size offset).Room d) (hon : (write p buf size offset).OnChain d) :
    Safe (aofsWriteFile p buf size offset) d fun _ d' => (write p buf size offset).Effect d d' := by
  cases hf : d.lookup p with
  | some h =>
    refine safe_aofsWriteFile_found hl hf hp hs ho rfl
      (fun hpos => ⟨hon h hf hpos, hroom.1 h hf hpos⟩) fun d' new hw _ => ?_
    refine effect_of_rewrites hl hw.rewrites fun hsz _ _ => ?_
    rw [hw.size, List.length_append]
    rcases Nat.eq_zero_or_pos size with rfl | hpos
    · have hfit := hsz h (lookup_eq_some.mp hf).1.1
      have hs0 := hl.size_nonneg h (lookup_eq_some.mp hf).1.1
      refine le_trans (by omega) (hfit.trans (blocks_le (d.chain h) new))
    · have := hw.room hpos
      exact_mod_cast this
  | none =>
    obtain ⟨hfree, hfit⟩ := hroom.2 hf
    refine safe_aofsWriteFile_new hl hf hp hs ho hfree hfit fun d' i b new hi hb hw => ?_
    have hnew := rewrites_new hi.1 hb
    have hchain := chain_new hi.1 hb hl
    have hr := hw.rewrites
    have hroom' := hw.room
    rw [hchain] at hr hroom'
    refine effect_of_rewrites hl (hnew.trans hr (List.subset_append_left _ _)) fun _ _ _ => ?_
    rw [hw.size, zero_add, List.length_append]
    rcases Nat.eq_zero_or_pos size with rfl | hpos
    · exact_mod_cast Nat.zero_le _
    · have := hroom' hpos
      rw [zero_add] at this
      exact_mod_cast this

include hl in
lemma safe_delete (hfuel : BLOCK_NUM ≤ fuel) :
    Safe (aofsDeleteFile fuel p) d fun _ d' => (delete p).Effect d d' := by
  refine safe_aofsDeleteFile hl hfuel (fun h d' hh hw => ?_) fun _ => .refl _ d
  refine effect_of_rewrites hl (hw.rewrites hl (lookup_eq_some.mp hh).1) fun _ _ hd => ?_
  exact absurd hd.1 fun ha =>
    ((hw.alloc h).mp ha).1 (hl.mem_chain (lookup_eq_some.mp hh).1.1)

include hl hp in
lemma safe_truncate {size : ℕ} (hs : size ≤ OFF_MAX) (hfuel : BLOCK_NUM ≤ fuel)
    (hon : (truncate p size).OnChain d) :
    Safe (aofsTruncateFile fuel p size) d fun _ d' => (truncate p size).Effect d d' := by
  cases hf : d.lookup p with
  | none => exact safe_aofsTruncateFile_missing hf (.refl _ d)
  | some h =>
    have hh := (lookup_eq_some.mp hf).1.1
    refine safe_aofsTruncateFile hl hf hp hfuel hs (hon h hf) fun r d' ht => ?_
    cases ht with
    | kept hr hsize hless _ =>
      refine effect_of_rewrites hl hr fun hsz _ _ => ?_
      rw [hsize]
      exact hless.trans (hsz h hh)
    | cut c hr hsize hless hlen _ =>
      refine effect_of_rewrites hl hr fun hsz _ _ => ?_
      have hle := size_le_image hl hh (hsz h hh) hless.le
      have := Nat.lt_mul_div_succ size (show 0 < BLOCK_DATA by decide)
      rw [hsize, hlen, blockCount_of_le hle, Int.toNat_natCast, mul_comm]
      exact_mod_cast this.le
    | grown new hr hsize hmore hfree hlen _ =>
      refine effect_of_rewrites hl hr fun _ hg _ => ?_
      have hfit := hg h hf hmore hfree
      rw [hsize, List.length_append, hlen]
      exact_mod_cast hfit
    | full new hr hsize _ _ _ =>
      refine effect_of_rewrites hl hr fun hsz _ _ => ?_
      rw [hsize, List.length_append]
      exact (hsz h hh).trans (blocks_le (d.chain h) new)

include hl hp in
lemma always_read {size offset : ℕ} : (aofsReadFile p size offset).Always exec InImage
    (fun _ d' => (read p size offset).Effect d d') d := by
  refine always_aofsReadFile (fun h t r hh => ?_) fun _ _ => .refl _ d
  have hf := (lookup_eq_some.mp hh).1
  refine effect_of_rewrites hl (accessed_rewrites hl hf hp t) fun hs _ _ => ?_
  rw [accessed, put_blocks_self]
  exact hs h hf.1

end step

lemma code_le {fuel fuel' : ℕ} (hf : fuel ≤ fuel') (op : Op) :
    (op.code fuel).Le (op.code fuel') := by
  cases op with
  | truncate p size => exact aofsTruncateFile_le hf p size
  | delete p => exact aofsDeleteFile_le hf p
  | _ => exact .refl _

/-- **One call**: from sound chains, every run stays in the image, and if it ends, it leaves
the effect of the call. -/
theorem always {op : Op} {d : Disk} {fuel : ℕ} (hl : d.Linked) (hv : op.Valid) (hr : op.Room d)
    (ho : op.OnChain d) (hfuel : BLOCK_NUM ≤ fuel) :
    (op.code fuel).Always exec InImage (fun _ d' => op.Effect d d') d := by
  cases op with
  | create p => exact (safe_create hl hv.1).always
  | write p buf size offset => exact (safe_write hl hv.1 hv.2.1 hv.2.2 hr ho).always
  | read p size offset =>
    refine Prog.always_bind fun l => ⟨(always_read hl hv.1 l).1, fun r d' l' h => ?_⟩
    exact Prog.Holds.always (safe_ret ((always_read hl hv.1 l).2 r d' l' h))
  | truncate p size => exact (safe_truncate hl hv.1 hv.2 hfuel ho).always
  | delete p => exact (safe_delete hl hfuel).always

/-- The call may leave the disk `d'`. -/
def Leaves (op : Op) (d d' : Disk) : Prop :=
  ∃ fuel l r l', (op.code fuel).run exec d l = some (r, d', l')

lemma Leaves.effect {op : Op} {d d' : Disk} (hd : op.Leaves d d') (hl : d.Linked) (hv : op.Valid)
    (hr : op.Room d) (ho : op.OnChain d) : op.Effect d d' := by
  obtain ⟨fuel, l, r, l', h⟩ := hd
  have hrun := (code_le (Nat.le_max_left fuel BLOCK_NUM) op).run h
  exact (always hl hv hr ho (Nat.le_max_right fuel BLOCK_NUM) l).2 r d' l' hrun

/-- What a call that ends in every run leaves in some run. -/
lemma exists_leaves {op : Op} {d : Disk} {fuel : ℕ} {Q : ℤ → Disk → Prop}
    (h : Ends (op.code fuel) d Q) : ∃ r d', op.Leaves d d' ∧ Q r d' := by
  obtain ⟨r, d', l', hr, hq⟩ := h default
  exact ⟨r, d', ⟨fuel, _, r, l', hr⟩, hq⟩

end Op

/-! ### Runs -/

/-- The disks that runs from the image reach, when every call satisfies `ok` in the state it
is made in. -/
inductive Reached (ok : Disk → Op → Prop) : Disk → Prop
  | image {d : Disk} (h : Image d) : Reached ok d
  | step {d d' : Disk} {op : Op} (h : Reached ok d) (hv : op.Valid) (hok : ok d op)
      (hd : op.Leaves d d') : Reached ok d'

lemma Image.blank {d : Disk} (hd : Image d) : Blank d := hd.sb

/-- **Chains stay sound** in every run whose calls find enough free blocks and stay on the
chain of their file. -/
theorem Reached.linked {ok : Disk → Op → Prop} {d : Disk}
    (hok : ∀ d op, d.Linked → ok d op → op.Room d ∧ op.OnChain d) (hd : Reached ok d) :
    d.Linked ∧ d.sb.totalblocks.toNat = BLOCK_NUM := by
  induction hd with
  | image hi => exact ⟨hi.blank.linked, hi.blank.total⟩
  | step _ hv h hd ih =>
    obtain ⟨hl, ht⟩ := ih
    obtain ⟨hr, ho⟩ := hok _ _ hl h
    have he := (hd.effect hl hv hr ho).touches
    exact ⟨he.linked hl, by rw [he.total, ht]⟩

end Messaround.Aofs
