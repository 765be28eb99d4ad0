import Messaround.Aofs.Creation
import Messaround.Aofs.OutOfSpace
import Messaround.Lib.Interleave

/-!
Two creations at the same time, with no lock between them.

`allocate_block` reads the superblock and stores it again with one more bit. When both calls
have read it before one of them stores it, both take the same block; when one of them has
stored it before the other reads it, each only touches a block of its own from there on.
-/

namespace Messaround.Aofs

open Messaround.CInt Disk

variable {d d' : Disk} {p q : CStr} {i j : Fin BLOCK_NUM} {b : Block}

/-! ### The two halves of a creation -/

/-- `aofs_create_file` from where the superblock with the new bit is stored. -/
def createRest (filename : CStr) (blockNum : ℤ) : Code ℤ := do
  let b ← clearBlock (← newBlock)
  let b := { b with dbm.st_atim := ← time }
  let b := { b with dbm.st_mtim := ← time }
  let b := { b with dbm.st_ctim := ← time }
  let b := { b with dbm.st_birthtim := ← time }
  writeBlock blockNum b
  let b ← clearBlock (← newBlock)
  let b := b.strcpyFilename filename
  let b := { b with dbm.head := 1 }
  writeBlock blockNum b
  return blockNum

/-- `aofs_create_file` from where the superblock is read. -/
def createMarked (filename : CStr) (sb : SuperBlock) : Code ℤ := do
  let blockNum := findFreeBit sb.bitmap (toInt sb.totalblocks.toNat)
  if blockNum = -1 then
    return -1
  writeSuperBlock { sb with bitmap := (setBit sb.bitmap blockNum.toNat).2 }
  createRest filename blockNum

lemma aofsCreateFile_eq (p : CStr) :
    aofsCreateFile p = readSuperBlock >>= createMarked p := by
  unfold aofsCreateFile allocateBlock
  rw [Prog.bind_assoc]
  refine congrArg (Bind.bind readSuperBlock) (funext fun sb => ?_)
  unfold createMarked createRest
  dsimp only
  generalize findFreeBit sb.bitmap (toInt sb.totalblocks.toNat) = n
  generalize clearBlock = clear
  generalize Block.strcpyFilename = copy
  have hret : ∀ (m : ℤ) (f : ℤ → Code ℤ), (pure m : Code ℤ) >>= f = f m := fun m f => rfl
  by_cases hn : n = -1
  · rw [if_pos hn, if_pos hn, hret, if_pos rfl]
  · rw [if_neg hn, if_neg hn]
    simp only [Prog.bind_assoc, hret, if_neg hn]

/-- Both calls took blocks of their own, and both files are found. -/
structure BothCreated (p q : CStr) (a b : ℤ) (d' : Disk) : Prop where
  ne : a ≠ b
  fst : ∃ i, a = addr i ∧ d'.Allocated i
  snd : ∃ j, b = addr j ∧ d'.Allocated j
  findFst : ∀ block, Ends (aofsFindFileHead p block) d' fun r _ => r.1 = a
  findSnd : ∀ block, Ends (aofsFindFileHead q block) d' fun r _ => r.1 = b

/-! ### Rules -/

/-- A head block of the name `p`. The link is not part of it: a path of 256 bytes writes to it. -/
structure HeadOf (b : Block) (p : CStr) : Prop where
  name : b.name = p
  head : b.dbm.head ≠ 0

lemma headOf_of_cleared (hp : p.length ≤ 256) (hb : Cleared b) (hr : b.InRange) :
    HeadOf { b.strcpyFilename p with dbm.head := 1 } p := by
  obtain ⟨v, he, hname⟩ := strcpyFilename_path hp hb.next hr
  rw [he]
  exact ⟨hname _ rfl rfl, (by decide : (1 : UInt8) ≠ 0)⟩

section rules

variable {R G : Disk → Disk → Prop} {J : Disk → Prop} (hJ : ∀ s s', J s → R s s' → J s')
  (hG : ∀ s, G s s)

include hJ hG in
lemma under_time {Q : UInt64 → Disk → Prop} (h : J d) (hQ : ∀ t s, J s → Q t s) :
    time.Under exec R G Q d :=
  Prog.under_perform fun s _ hs => ⟨hG s, fun s' hs' => hQ _ s' (hJ _ _ (hJ _ _ h hs) hs')⟩

include hJ hG in
lemma under_newBlock {Q : Block → Disk → Prop} (h : J d) (hQ : ∀ b s, J s → Q b s) :
    newBlock.Under exec R G Q d :=
  Prog.under_perform fun s _ hs => ⟨hG s, fun s' hs' => hQ _ s' (hJ _ _ (hJ _ _ h hs) hs')⟩

include hJ in
lemma under_writeBlock {Q : Unit → Disk → Prop} {K : Disk → Prop}
    (hK : ∀ s s', K s → R s s' → K s') (h : J d)
    (hput : ∀ s, J s → G s (s.put i b) ∧ K (s.put i b)) (hQ : ∀ s, K s → Q () s) :
    (writeBlock (addr i) b).Under exec R G Q d := by
  refine Prog.under_perform fun s l hs => ?_
  obtain ⟨hg, hj⟩ := hput s (hJ _ _ h hs)
  rw [exec_writeBlock]
  exact ⟨hg, fun s' hs' => hQ s' (hK _ _ hj hs')⟩

section

variable (hr : ∀ s, R s s)
include hr hJ hG

lemma under_clearBlock {Q : Block → Disk → Prop} (h : J d)
    (hQ : ∀ b' s, Cleared b' → b'.InRange → J s → Q b' s) :
    (clearBlock b).Under exec R G Q d := by
  have hname : (b.strcpyFilename .empty).name = .empty := b.name_strcpyFilename (Nat.zero_le _)
  refine Prog.under_bind hr (under_time hJ hG h fun t1 s1 h1 => ?_)
  refine Prog.under_bind hr (under_time hJ hG h1 fun t2 s2 h2 => ?_)
  refine Prog.under_bind hr (under_time hJ hG h2 fun t3 s3 h3 => ?_)
  refine Prog.under_bind hr (under_time hJ hG h3 fun t4 s4 h4 => ?_)
  refine Prog.under_ret fun s5 hs => hQ _ s5 ?_ ?_ (hJ _ _ h4 hs)
  · exact ⟨Block.name_eq (Nat.zero_le _) hname rfl, rfl, rfl, rfl, rfl⟩
  · exact ⟨rfl, rfl, rfl, rfl⟩

/-- From the stored superblock on: only the block taken is written, and it ends up as the
head of the new file. -/
lemma under_createRest {K : Disk → Prop} (hK : ∀ s s', K s → R s s' → K s')
    (hp : p.length ≤ 256) (hput : ∀ s b, J s → G s (s.put i b) ∧ J (s.put i b))
    (hhead : ∀ s b, J s → HeadOf b p → K (s.put i b)) (h : J d) :
    (createRest p (addr i)).Under exec R G (fun a s => a = addr i ∧ K s) d := by
  refine Prog.under_bind hr (under_newBlock hJ hG h fun b0 s0 h0 => ?_)
  refine Prog.under_bind hr (under_clearBlock hJ hG hr h0 fun b1 s1 _ _ h1 => ?_)
  refine Prog.under_bind hr (under_time hJ hG h1 fun t1 s2 h2 => ?_)
  refine Prog.under_bind hr (under_time hJ hG h2 fun t2 s3 h3 => ?_)
  refine Prog.under_bind hr (under_time hJ hG h3 fun t3 s4 h4 => ?_)
  refine Prog.under_bind hr (under_time hJ hG h4 fun t4 s5 h5 => ?_)
  refine Prog.under_bind hr (under_writeBlock hJ hJ h5 (fun s hs => hput s _ hs) fun s6 h6 => ?_)
  refine Prog.under_bind hr (under_newBlock hJ hG h6 fun b2 s7 h7 => ?_)
  refine Prog.under_bind hr (under_clearBlock hJ hG hr h7 fun b3 s8 hb hr3 h8 => ?_)
  refine Prog.under_bind hr (under_writeBlock hJ hK h8
    (fun s hs => ⟨(hput s _ hs).1, hhead s _ hs (headOf_of_cleared hp hb hr3)⟩) fun s9 h9 => ?_)
  exact Prog.under_ret fun s hs => ⟨rfl, hK _ _ h9 hs⟩

end

end rules

/-! ### One after the other -/

/-- Block `i` is not touched. -/
def KeepsBlock (i : Fin BLOCK_NUM) (s s' : Disk) : Prop := s'.blocks i = s.blocks i

/-- Nothing but block `i` is touched. -/
def OnlyBlock (i : Fin BLOCK_NUM) (s s' : Disk) : Prop :=
  s'.sb = s.sb ∧ ∀ j ≠ i, s'.blocks j = s.blocks j

lemma keepsBlock_refl (i : Fin BLOCK_NUM) (s : Disk) : KeepsBlock i s s := rfl

lemma onlyBlock_refl (i : Fin BLOCK_NUM) (s : Disk) : OnlyBlock i s s := ⟨rfl, fun _ _ => rfl⟩

lemma OnlyBlock.trans {a b c : Disk} (h : OnlyBlock i a b) (h' : OnlyBlock i b c) :
    OnlyBlock i a c :=
  ⟨h'.1.trans h.1, fun j hj => (h'.2 j hj).trans (h.2 j hj)⟩

/-- The call that has stored its superblock before the other one reads it. -/
lemma under_first (hp : p.length ≤ 256) : (createRest p (addr i)).Under exec
    (KeepsBlock i) (OnlyBlock i) (fun a s => a = addr i ∧ HeadOf (s.blocks i) p) d := by
  refine under_createRest (J := fun _ => True) (fun _ _ _ _ => trivial) (onlyBlock_refl i)
    (keepsBlock_refl i) (fun s s' h hs => hs ▸ h) hp (fun s b _ => ⟨⟨rfl, fun j hj => ?_⟩, trivial⟩)
    (fun s b _ hb => ?_) trivial
  · exact put_blocks_of_ne s b hj
  · rw [put_blocks_self]; exact hb

/-- The bit of block `j` is set, and besides it nothing but the blocks `i` and `j` has
changed. -/
def Marked (d : Disk) (i j : Fin BLOCK_NUM) (s : Disk) : Prop :=
  s.sb = (d.mark j).sb ∧ ∀ k ≠ i, k ≠ j → s.blocks k = d.blocks k

lemma Marked.of_onlyBlock {s s' : Disk} (h : Marked d i j s) (hs : OnlyBlock i s s') :
    Marked d i j s' :=
  ⟨hs.1.trans h.1, fun k hki hkj => (hs.2 k hki).trans (h.2 k hki hkj)⟩

/-- The call that reads the superblock with the bit of the other one's block `i`. -/
lemma under_second (hq : q.length ≤ 256) (ht : d.sb.totalblocks.toNat ≤ BLOCK_NUM)
    (hi : d.Allocated i) (hfree : d.freeCount ≠ 0) : (aofsCreateFile q).Under exec (OnlyBlock i)
    (KeepsBlock i) (fun a s => ∃ j, j ≠ i ∧ ¬ d.Allocated j ∧ a = addr j ∧ Marked d i j s ∧
      HeadOf (s.blocks j) q) d := by
  obtain ⟨j, hj, hf⟩ := (findFreeBit_disk ht).resolve_right fun h => hfree h.1
  have hji : j ≠ i := fun h => hj.1.1 (h ▸ hi)
  rw [aofsCreateFile_eq]
  refine Prog.under_bind (onlyBlock_refl i) (Prog.under_perform fun s l hs =>
    ⟨keepsBlock_refl i s, fun s0 hs0 => ?_⟩)
  replace hs0 := hs.trans hs0
  have hsb : (exec .readSuperBlock s l).1 = d.sb := hs.1
  rw [hsb, createMarked, hf, if_neg (addr_ne j)]
  refine Prog.under_bind (onlyBlock_refl i) (Prog.under_perform fun s1 l1 hs1 =>
    ⟨keepsBlock_refl i s1, fun s2 hs2 => ?_⟩)
  have hstored : Marked d i j { s1 with sb := (d.mark j).sb } :=
    ⟨rfl, fun k hki _ => (hs0.trans hs1).2 k hki⟩
  have hm : Marked d i j s2 := hstored.of_onlyBlock hs2
  have hkeep : ∀ (s : Disk) (b : Block), KeepsBlock i s (s.put j b) := fun s b =>
    put_blocks_of_ne s b hji.symm
  refine (under_createRest (fun s s' h hs => h.of_onlyBlock hs) (keepsBlock_refl i)
    (onlyBlock_refl i) (K := fun s => Marked d i j s ∧ HeadOf (s.blocks j) q) ?_ hq ?_ ?_ hm).mono ?_
  · exact fun s s' h hs => ⟨h.1.of_onlyBlock hs, by rw [hs.2 j hji]; exact h.2⟩
  · refine fun s b h => ⟨hkeep s b, h.1, fun k hki hkj => ?_⟩
    rw [put_blocks_of_ne s b hkj]
    exact h.2 k hki hkj
  · refine fun s b h hb => ⟨⟨h.1, fun k hki hkj => ?_⟩, by rw [put_blocks_self]; exact hb⟩
    rw [put_blocks_of_ne s b hkj]
    exact h.2 k hki hkj
  · exact fun a s h => ⟨j, hji, hj.1.1, h.1, h.2.1, h.2.2⟩

/-! ### Both -/

lemma bothCreated_of_marked (hpq : p ≠ q) (hp : d.lookup p = none) (hq : d.lookup q = none)
    (hji : j ≠ i) (hm : Marked (d.mark i) i j d') (hbi : HeadOf (d'.blocks i) p)
    (hbj : HeadOf (d'.blocks j) q) : BothCreated p q (addr i) (addr j) d' := by
  have halloc : ∀ k, d'.Allocated k ↔ k = j ∨ k = i ∨ d.Allocated k := fun k => by
    rw [Disk.Allocated, hm.1]
    exact allocated_mark.trans (or_congr_right allocated_mark)
  -- a file of either name that is neither of the two was there before
  have hother : ∀ r k, k ≠ i → k ≠ j → d'.IsFile r k → d.IsFile r k := by
    intro r k hki hkj hf
    have hb : d'.blocks k = d.blocks k := hm.2 k hki hkj
    have ha := ((halloc k).mp hf.1.1).resolve_left hkj
    exact ⟨⟨ha.resolve_left hki, by rw [← hb]; exact hf.1.2⟩, by rw [← hb]; exact hf.2⟩
  have hi : d'.Allocated i := (halloc i).mpr (Or.inr (Or.inl rfl))
  have hj : d'.Allocated j := (halloc j).mpr (Or.inl rfl)
  have hfp : d'.lookup p = some i :=
    lookup_of_new hp ⟨⟨hi, hbi.head⟩, hbi.name⟩ fun g hg hf => by
      refine hother p g hg (fun h => hpq ?_) hf
      rw [← hf.2, h, hbj.name]
  have hfq : d'.lookup q = some j :=
    lookup_of_new hq ⟨⟨hj, hbj.head⟩, hbj.name⟩ fun g hg hf => by
      refine hother q g (fun h => hpq ?_) hg hf
      rw [← hf.2, h, hbi.name]
  exact ⟨fun h => hji (addr_injective h).symm, ⟨i, rfl, hi⟩, ⟨j, rfl, hj⟩,
    fun b => ends_find b hfp, fun b => ends_find b hfq⟩

lemma BothCreated.symm {a b : ℤ} (h : BothCreated p q a b d) : BothCreated q p b a d :=
  ⟨h.ne.symm, h.snd, h.fst, h.findSnd, h.findFst⟩

section serial

variable {sched : List Bool} (ht : d.sb.totalblocks.toNat ≤ BLOCK_NUM) (hfree : 2 ≤ d.freeCount)
  (hpq : p ≠ q) (hp : d.lookup p = none) (hq : d.lookup q = none)
  (hpl : p.length ≤ 256) (hql : q.length ≤ 256) (hi : d.IsFree i)

include hfree hi in
lemma freeCount_mark_ne : (d.mark i).freeCount ≠ 0 := by
  have h := freeCount_mark (b := default) hi
  rw [freeCount_put] at h
  omega

include ht hfree hpq hp hq hpl hql hi

lemma together_fst : Prog.Together exec sched (createRest p (addr i)) (aofsCreateFile q) (d.mark i)
    fun a b d' => BothCreated p q a b d' := by
  refine (Prog.together_of_under (keepsBlock_refl i) (fun _ _ _ h h' => h'.trans h)
    (onlyBlock_refl i) (fun _ _ _ => OnlyBlock.trans) (fun _ _ h => h) (fun _ _ h => h)
    (under_first hpl) (under_second hql (by rw [mark_total]; exact ht)
      (allocated_mark.mpr (Or.inl rfl)) (freeCount_mark_ne hfree hi))).mono ?_
  rintro a b d' ⟨⟨rfl, hbi⟩, j, hji, -, rfl, hm, hbj⟩
  exact bothCreated_of_marked hpq hp hq hji hm hbi hbj

lemma together_snd : Prog.Together exec sched (aofsCreateFile p) (createRest q (addr i)) (d.mark i)
    fun a b d' => BothCreated p q a b d' := by
  refine (Prog.together_of_under (onlyBlock_refl i) (fun _ _ _ => OnlyBlock.trans)
    (keepsBlock_refl i) (fun _ _ _ h h' => h'.trans h) (fun _ _ h => h) (fun _ _ h => h)
    (under_second hpl (by rw [mark_total]; exact ht) (allocated_mark.mpr (Or.inl rfl))
      (freeCount_mark_ne hfree hi)) (under_first hql)).mono ?_
  rintro a b d' ⟨⟨j, hji, -, rfl, hm, hbj⟩, rfl, hbi⟩
  exact (bothCreated_of_marked hpq.symm hq hp hji hm hbi hbj).symm

end serial

/-- Whatever happens on the disk, a creation that has read the superblock takes its first
free block. -/
lemma yields_createMarked {sb : SuperBlock}
    (hf : findFreeBit sb.bitmap (toInt sb.totalblocks.toNat) = addr i) :
    (createMarked p sb).Yields fun a => a = addr i := by
  rw [createMarked, hf, if_neg (addr_ne i)]
  refine Prog.yields_bind (total_writeSuperBlock _) fun _ _ => ?_
  refine Prog.yields_bind total_newBlock fun b0 _ => ?_
  refine Prog.yields_bind (total_clearBlock b0) fun b1 _ => ?_
  refine Prog.yields_bind total_time fun t1 _ => Prog.yields_bind total_time fun t2 _ => ?_
  refine Prog.yields_bind total_time fun t3 _ => Prog.yields_bind total_time fun t4 _ => ?_
  refine Prog.yields_bind (total_writeBlock _ _) fun _ _ => ?_
  refine Prog.yields_bind total_newBlock fun b2 _ => ?_
  refine Prog.yields_bind (total_clearBlock b2) fun b3 _ => ?_
  exact Prog.yields_bind (total_writeBlock _ _) fun _ _ => .ret rfl

/-- Both calls return the number of one block. -/
def SameBlock (a b : ℤ) : Prop := ∃ i, a = addr i ∧ b = addr i

lemma BothCreated.not_sameBlock {a b : ℤ} (h : BothCreated p q a b d) : ¬ SameBlock a b := by
  rintro ⟨i, rfl, rfl⟩
  exact h.ne rfl

lemma together_overlap {sched : List Bool} (sb : SuperBlock)
    (hf : findFreeBit sb.bitmap (toInt sb.totalblocks.toNat) = addr i) :
    Prog.Together exec sched (createMarked p sb) (createMarked q sb) d fun a b _ => SameBlock a b :=
  (Prog.together_of_yields (yields_createMarked hf) (yields_createMarked hf)).mono
    fun _ _ _ h => ⟨i, h⟩

lemma step_create (p : CStr) (d : Disk) (l : Local) : (aofsCreateFile p).step exec d l =
    (createMarked p d.sb, d, { l with pos := 0 }) := by
  rw [aofsCreateFile_eq]
  exact Prog.step_perform_bind (h := exec) Call.readSuperBlock (createMarked p) d l

lemma step_createMarked (p : CStr) (l : Local)
    (hf : findFreeBit d.sb.bitmap (toInt d.sb.totalblocks.toNat) = addr i) :
    (createMarked p d.sb).step exec d l =
      (createRest p (addr i), d.mark i, { l with pos := 0 }) := by
  rw [createMarked, hf, if_neg (addr_ne i)]
  exact Prog.step_perform_bind (h := exec) (Call.writeSuperBlock (d.mark i).sb)
    (fun _ => createRest p (addr i)) d l

/-- The first two steps are the first two of one of the calls. -/
def FirstTogether (sched : List Bool) : Prop := sched.getD 0 true = sched.getD 1 true

instance (sched : List Bool) : Decidable (FirstTogether sched) := inferInstanceAs (Decidable (_ = _))

lemma together_append {sched : List Bool} {α β : Type} {f : Code α} {g : Code β}
    {Q : α → β → Disk → Prop} : Prog.Together exec (sched ++ [true]) f g d Q ↔
      Prog.Together exec sched f g d Q := by
  simp only [Prog.Together, Prog.par_append_true]

lemma exists_first_two (sched : List Bool) :
    ∃ rest, sched ++ [true] ++ [true] = sched.getD 0 true :: sched.getD 1 true :: rest := by
  match sched with
  | [] => exact ⟨[], rfl⟩
  | [_] => exact ⟨[true], rfl⟩
  | _ :: _ :: r => exact ⟨r ++ [true] ++ [true], rfl⟩

/-- When the first two steps are of different calls, both calls take the same block. -/
lemma together_mixed {rest : List Bool} {t u : Bool} (htu : t ≠ u)
    (hf : findFreeBit d.sb.bitmap (toInt d.sb.totalblocks.toNat) = addr i) :
    Prog.Together exec (t :: u :: rest) (aofsCreateFile p) (aofsCreateFile q) d
      fun a b _ => SameBlock a b := by
  have hover : Prog.Together exec rest (createMarked p d.sb) (createMarked q d.sb) d
      fun a b _ => SameBlock a b := together_overlap d.sb hf
  intro l m
  cases t <;> cases u
  · exact absurd rfl htu
  · rw [Prog.par, step_create, Prog.par, step_create]
    dsimp only
    exact hover _ _
  · rw [Prog.par, step_create, Prog.par, step_create]
    dsimp only
    exact hover _ _
  · exact absurd rfl htu

section both

variable (hw : d.WellFormed) (hfree : 2 ≤ d.freeCount) (hpq : p ≠ q) (hp : d.lookup p = none)
  (hq : d.lookup q = none) (hpl : p.Legal) (hql : q.Legal)
include hw hfree hpq hp hq hpl hql

lemma together_serial {sched : List Bool} (hs : FirstTogether sched) :
    Prog.Together exec sched (aofsCreateFile p) (aofsCreateFile q) d
      fun a b d' => BothCreated p q a b d' := by
  obtain ⟨rest, hrest⟩ := exists_first_two sched
  obtain ⟨i, hi, hf⟩ := (findFreeBit_disk hw.total_le).resolve_right fun h => by omega
  rw [← together_append, ← together_append, hrest, ← hs]
  generalize sched.getD 0 true = t
  intro l m
  -- the call that goes first has stored its superblock when the other one reads it
  cases t
  · rw [Prog.par, step_create, Prog.par, step_createMarked q _ hf]
    exact together_snd hw.total_le hfree hpq hp hq hpl.length_le hql.length_le hi.1 _ _
  · rw [Prog.par, step_create, Prog.par, step_createMarked p _ hf]
    exact together_fst hw.total_le hfree hpq hp hq hpl.length_le hql.length_le hi.1 _ _

omit hpq hp hq hpl hql in
lemma together_same {sched : List Bool} (hs : ¬ FirstTogether sched) :
    Prog.Together exec sched (aofsCreateFile p) (aofsCreateFile q) d
      fun a b _ => SameBlock a b := by
  obtain ⟨rest, hrest⟩ := exists_first_two sched
  obtain ⟨i, -, hf⟩ := (findFreeBit_disk hw.total_le).resolve_right fun h => by omega
  rw [← together_append, ← together_append, hrest]
  exact together_mixed hs hf

lemma together_create_iff (sched : List Bool) :
    Prog.Together exec sched (aofsCreateFile p) (aofsCreateFile q) d
      (fun a b d' => BothCreated p q a b d') ↔ FirstTogether sched := by
  refine ⟨fun h => ?_, together_serial hw hfree hpq hp hq hpl hql⟩
  by_contra hs
  exact h.meet (together_same hw hfree hs) fun _ _ _ hb he => hb.not_sameBlock he

/-- **No lost update**, exactly when one call has stored the superblock before the other one
reads it; in every other interleaving both calls take the same block. -/
theorem bothCreated_iff (sched : List Bool) :
    (Prog.Together exec sched (aofsCreateFile p) (aofsCreateFile q) d
      (fun a b d' => BothCreated p q a b d') ↔ FirstTogether sched) ∧
    (¬ FirstTogether sched → Prog.Together exec sched (aofsCreateFile p) (aofsCreateFile q) d
      fun a b _ => SameBlock a b) :=
  ⟨together_create_iff hw hfree hpq hp hq hpl hql sched, together_same hw hfree⟩

end both

/-- A disk without files. -/
def emptyDisk : Disk := ⟨initialSuperBlock, fun _ => default, []⟩

lemma emptyDisk_blank : Blank emptyDisk := rfl

lemma emptyDisk_room : 2 ≤ emptyDisk.freeCount := by
  rw [emptyDisk_blank.freeCount]
  decide

lemma legal_slashA : slashA.Legal := ⟨nameA, rfl, by decide, by decide⟩

lemma legal_slashB : slashB.Legal := slashB_new.2

/-- `/a` and `/b`, where the first call stores the superblock at once, and where both calls read
it first. -/
theorem bothCreated_emptyDisk :
    Prog.Together exec [true, true, false, true] (aofsCreateFile slashA) (aofsCreateFile slashB)
      emptyDisk (fun a b d' => BothCreated slashA slashB a b d') ∧
    Prog.Together exec [true, false] (aofsCreateFile slashA) (aofsCreateFile slashB) emptyDisk
      fun a b _ => SameBlock a b := by
  have h := bothCreated_iff emptyDisk_blank.wellFormed emptyDisk_room (by decide)
    (emptyDisk_blank.lookup _) (emptyDisk_blank.lookup _) legal_slashA legal_slashB
  exact ⟨(h _).1.mpr rfl, (h _).2 (by decide)⟩

/-- `/a` and `/b`, where both calls read the superblock first. -/
theorem not_bothCreated_emptyDisk : emptyDisk.WellFormed ∧ 2 ≤ emptyDisk.freeCount ∧
    emptyDisk.lookup slashA = none ∧ emptyDisk.lookup slashB = none ∧
    ¬ Prog.Together exec [true, false] (aofsCreateFile slashA) (aofsCreateFile slashB) emptyDisk
      fun a b d' => BothCreated slashA slashB a b d' := by
  refine ⟨emptyDisk_blank.wellFormed, emptyDisk_room, emptyDisk_blank.lookup _,
    emptyDisk_blank.lookup _, fun h => ?_⟩
  have := (together_create_iff emptyDisk_blank.wellFormed emptyDisk_room (by decide)
    (emptyDisk_blank.lookup _) (emptyDisk_blank.lookup _) legal_slashA legal_slashB _).mp h
  exact absurd this (by decide)

end Messaround.Aofs
