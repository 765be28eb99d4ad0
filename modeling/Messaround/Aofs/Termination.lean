import Messaround.Aofs.Creation
import Messaround.Aofs.OutOfSpace
import Messaround.Aofs.Reclaim

/-!
When `aofs_truncate_file` ends, on any image.

A growing truncate follows the links to a `-1` and does not count them, so it goes round a
cycle for ever. A shrinking one counts them, but does not stop at a `-1`: it goes on with the
bytes in front of block 0, and `delete_chain` can be left with a number that is no block.
-/

namespace Messaround.Aofs

open Messaround.CInt Messaround.Segment Disk

variable {d d' : Disk} {p : CStr} {h i j : Fin BLOCK_NUM} {size : ℤ} {fuel : ℕ}

/-- Every run of `aofs_truncate_file` comes to its end. -/
def TruncateTerminates (d : Disk) (p : CStr) (size : ℤ) : Prop :=
  ∀ l, ∃ fuel, ((aofsTruncateFile fuel p size).run exec d l).isSome

namespace Disk

/-- Every link is `-1` or the number of a block, also in blocks behind the last one. -/
structure AllLinksInRange (d : Disk) : Prop extends d.LinksInRange where
  beyond : ∀ b ∈ d.beyond, -1 ≤ b.dbm.next ∧ b.dbm.next < d.sb.totalblocks.toNat

/-- The number of blocks in the file. -/
def fileBlocks (d : Disk) : ℕ := BLOCK_NUM + d.beyond.length

/-- The link that is found by following a link `n`. The descriptor stands at block 0 when a
number below `-1` makes the seek fail, and where nothing is read, the link is still `n`. -/
def linkAt (d : Disk) (n : ℤ) : ℤ :=
  (d.readAt { (default : Block) with dbm.next := n } (if n < -1 then 0 else n)).1.dbm.next

/-- A truncate that cuts off blocks finds a block of the file, or `-1`, behind the ones it
keeps, and one that adds blocks finds the end of the chain. -/
structure TruncateFinds (d : Disk) (h : Fin BLOCK_NUM) (size : ℤ) : Prop where
  cut : size < (d.blocks h).dbm.st_size →
    toInt (blockCount (d.blocks h).dbm.st_size - blockCount size) ≠ 0 →
      -1 ≤ d.linkAt^[(blockCount size).toNat] (d.next h) ∧
        d.linkAt^[(blockCount size).toNat] (d.next h) < d.fileBlocks
  grown : (d.blocks h).dbm.st_size < size →
    toInt (blockCount size - blockCount (d.blocks h).dbm.st_size) ≠ 0 → ∃ c, d.Chain (addr h) c

end Disk

/-! ### The counted walk -/

lemma readAt_next (d : Disk) (buf : Block) (pos : ℤ) : (d.readAt buf pos).1.dbm.next =
    (d.readAt { (default : Block) with dbm.next := buf.dbm.next } pos).1.dbm.next := by
  unfold readAt
  split
  · rfl
  · split
    · rfl
    · split <;> rfl

/-- Following a link. A link below `-1` is only found in block `-1`, and the descriptor stands
at block 0 then. -/
lemma exec_follow (hd : d.AllLinksInRange) {cur : Block} {l : Local}
    (hl : -1 ≤ cur.dbm.next ∨ l.pos = 0) : ∃ cur' l',
      exec (.readBlock cur.dbm.next cur) d l = (cur', d, l') ∧
        cur'.dbm.next = d.linkAt cur.dbm.next ∧ (-1 ≤ cur'.dbm.next ∨ l'.pos = 0) := by
  have hseek : (l.seek cur.dbm.next).pos = if cur.dbm.next < -1 then 0 else cur.dbm.next := by
    unfold Local.seek
    split
    · rename_i hlow
      exact hl.resolve_left (by omega)
    · rfl
  refine ⟨_, _, rfl, ?_, ?_⟩
  · rw [hseek, readAt_next, linkAt]
  · rw [hseek]
    generalize hq : (if cur.dbm.next < -1 then 0 else cur.dbm.next) = q
    unfold readAt
    split
    · rename_i hin
      exact Or.inl (hd.next ⟨q.toNat, by omega⟩).1
    · split
      · exact Or.inr rfl
      · split
        · rename_i b hb
          exact Or.inl (hd.beyond b (List.mem_of_getElem? hb)).1
        · -- nothing is read, and block 0 is there
          rename_i hin _ _ _
          refine Or.inl (show -1 ≤ cur.dbm.next from ?_)
          simp only [BLOCK_NUM, Nat.cast_ofNat] at hin
          split at hq <;> omega

/-- The walk of a shrinking truncate ends, wherever the links lead. -/
lemma ends_seekKept (hd : d.AllLinksInRange) {n : ℕ} {prev : ℤ} {cur : Block}
    (hcur : -1 ≤ cur.dbm.next) : Ends (seekKept n prev cur) d fun r d' =>
      d' = d ∧ r.2.dbm.next = d.linkAt^[n] cur.dbm.next := by
  intro l
  have hl : -1 ≤ cur.dbm.next ∨ l.pos = 0 := Or.inl hcur
  clear hcur
  induction n generalizing prev cur l with
  | zero => exact ⟨(prev, cur), d, l, rfl, rfl, rfl⟩
  | succ n ih =>
    obtain ⟨cur', l', hx, hnext, hl'⟩ := exec_follow hd hl
    obtain ⟨r, d', l'', hr, hd', hlast⟩ := ih l' hl'
    refine ⟨r, d', l'', ?_, hd', ?_⟩
    · rw [← hr, seekKept]
      change (seekKept n cur.dbm.next (exec (.readBlock cur.dbm.next cur) d l).1).run exec
        (exec (.readBlock cur.dbm.next cur) d l).2.1 (exec (.readBlock cur.dbm.next cur) d l).2.2 = _
      rw [hx]
    · rw [hlast, hnext, Function.iterate_succ_apply]

/-! ### Deleting what is behind -/

lemma ends_deleteChain_link (hd : d.LinksInRange) {n : ℤ} (h1 : -1 ≤ n) (h2 : n < BLOCK_NUM)
    (hfuel : BLOCK_NUM < fuel) : Ends (deleteChain fuel n) d fun _ _ => True := by
  rcases h1.eq_or_lt with rfl | h0
  · exact (safe_deleteChain_end trivial).ends
  · obtain ⟨i, rfl⟩ : ∃ i : Fin BLOCK_NUM, n = addr i :=
      ⟨⟨n.toNat, by omega⟩, by simp only [addr]; omega⟩
    exact (safe_deleteChain_any hd (d.linkCount_le.trans_lt hfuel) fun _ _ => trivial).ends

section beyond

variable {n : ℤ} {b : Block} (hn : BLOCK_NUM ≤ n)
include hn

lemma seek_beyond (l : Local) : (l.seek n).pos = n := by
  rw [Local.seek, if_neg (by omega)]

lemma not_in_image : ¬ (0 ≤ n ∧ n < BLOCK_NUM) ∧ ¬ n = -1 := by omega

lemma ends_readBlock_beyond {Q : Block → Disk → Prop}
    (hQ : Q (d.beyond[(n - BLOCK_NUM).toNat]?.getD b) d) : Ends (readBlock n b) d Q := by
  refine Prog.ends_perform fun l => ?_
  have hread : (d.readAt b (l.seek n).pos).1 = d.beyond[(n - BLOCK_NUM).toNat]?.getD b := by
    rw [seek_beyond hn, readAt, dif_neg (not_in_image hn).1, if_neg (not_in_image hn).2]
    cases d.beyond[(n - BLOCK_NUM).toNat]? <;> rfl
  change Q (d.readAt b (l.seek n).pos).1 d
  rwa [hread]

lemma ends_writeBlock_beyond {Q : Unit → Disk → Prop} (hQ : ∀ e, Q () { d with beyond := e }) :
    Ends (writeBlock n b) d Q := by
  refine Prog.ends_perform fun l => ?_
  change Q () (d.writeAt b (l.seek n).pos)
  rw [seek_beyond hn, writeAt, dif_neg (not_in_image hn).1, if_neg (not_in_image hn).2]
  exact hQ _

/-- `deallocate_block` behind the last block leaves the blocks of the image as they are. -/
lemma ends_deallocateBlock_beyond {Q : ℤ → Disk → Prop}
    (hQ : ∀ b0 d', d'.blocks = d.blocks → d'.sb.totalblocks = d.sb.totalblocks →
      Q (d.beyond[(n - BLOCK_NUM).toNat]?.getD b0).dbm.next d') :
    Ends (deallocateBlock n) d Q := by
  unfold deallocateBlock
  rw [if_neg (by omega)]
  refine Prog.Ends.bind (Prog.ends_perform fun _ => Prog.Ends.bind (Prog.ends_perform fun l => ?_))
  refine Prog.Ends.bind (ends_readBlock_beyond hn (Prog.Ends.bind (safe_clearBlock fun b _ => ?_).ends))
  refine Prog.Ends.bind (ends_writeBlock_beyond hn fun e => Prog.Ends.bind (Prog.ends_perform fun l' => ?_))
  exact fun l'' => ⟨_, _, l'', rfl, hQ _ _ rfl rfl⟩

end beyond

lemma ends_deleteChain (hd : d.AllLinksInRange) {n : ℤ} (h1 : -1 ≤ n) (h2 : n < d.fileBlocks)
    (hfuel : BLOCK_NUM + 1 < fuel) : Ends (deleteChain fuel n) d fun _ _ => True := by
  rcases lt_or_ge n BLOCK_NUM with hn | hn
  · exact ends_deleteChain_link hd.toLinksInRange h1 hn (by omega)
  · obtain ⟨fuel, rfl⟩ : ∃ f, fuel = f + 1 := ⟨fuel - 1, by omega⟩
    have hk : (n - BLOCK_NUM).toNat < d.beyond.length := by simp only [fileBlocks] at h2; omega
    have hb := hd.beyond _ (List.getElem_mem hk)
    unfold deleteChain
    rw [if_neg (by omega)]
    refine Prog.Ends.bind (ends_deallocateBlock_beyond hn fun b0 d' hblocks htotal => ?_)
    rw [List.getElem?_eq_getElem hk, Option.getD_some]
    have hd' : d'.LinksInRange := by
      refine ⟨htotal ▸ hd.total_le, fun i => ?_⟩
      rw [Disk.next, hblocks, htotal]
      exact hd.next i
    have ht := hd.total_le
    exact ends_deleteChain_link hd' hb.1 (by omega) (by omega)

/-! ### Numbers that are no block of the file -/

/-- All uninitialised blocks hold `b`. -/
def Junk (b : Block) (l : Local) : Prop := ∀ k, l.junk k = b

lemma junk_exec {b : Block} (c : Call) (d : Disk) (l : Local) (hl : Junk b l) :
    Junk b (exec c d l).2.2 := by
  cases c with
  | newBlock => exact fun k => hl (k + 1)
  | _ => exact hl

section blocked

variable {b : Block} {α : Type}

lemma blocked_newBlock {f : Block → Code α} (hf : (f b).Blocked exec (Junk b) d) :
    (newBlock >>= f).Blocked exec (Junk b) d := by
  intro l hl
  rw [run_newBlock, hl 0]
  exact hf _ fun k => hl (k + 1)

/-- Nothing is read behind the end of the file, and `delete_chain` goes on with the link of an
uninitialised block. -/
lemma blocked_deleteChain {n : ℤ} (hb : b.dbm.next < -1) (hn : n < -1 ∨ (d.fileBlocks : ℤ) ≤ n) :
    (deleteChain fuel n).Blocked exec (Junk b) d := by
  rcases hn with hn | hn
  · rw [deleteChain_stuck hn]
    exact Prog.blocked_stuck
  · have hlast : BLOCK_NUM ≤ n := by simp only [fileBlocks] at hn; omega
    have hgap : d.beyond[(n - BLOCK_NUM).toNat]? = none :=
      List.getElem?_eq_none (by simp only [fileBlocks] at hn; omega)
    unfold deleteChain
    rw [if_neg (by omega)]
    cases fuel with
    | zero => exact Prog.blocked_stuck
    | succ fuel =>
      unfold deallocateBlock
      rw [if_neg (by omega)]
      simp only [Prog.bind_assoc]
      refine Prog.Ends.blocked_bind junk_exec (safe_readSuperBlock (blocked_newBlock ?_)).ends
      refine Prog.Ends.blocked_bind junk_exec (ends_readBlock_beyond hlast ?_)
      rw [hgap, Option.getD_none]
      refine Prog.Ends.blocked_bind junk_exec ((total_clearBlock _).ends fun _ d1 => ?_)
      refine Prog.Ends.blocked_bind junk_exec ((total_writeBlock _ _).ends fun _ d2 => ?_)
      refine Prog.Ends.blocked_bind junk_exec ((total_writeSuperBlock _).ends fun _ d3 => ?_)
      rw [Prog.pure_eq, Prog.ret_bind, deleteChain_stuck hb]
      exact Prog.blocked_stuck

end blocked

/-! ### The walk to the end -/

lemma endless_next (hno : ¬ ∃ c, d.Chain (addr j) c) : (d.blocks j).dbm.next ≠ -1 :=
  fun hend => hno ⟨[j], seg_cons.mpr ⟨rfl, seg_nil.mpr hend⟩⟩

lemma blocked_seekLast {I : Local → Prop} (hI : ∀ c d l, I l → I (exec c d l).2.2)
    (hd : d.LinksInRange) (hno : ¬ ∃ c, d.Chain (addr j) c) :
    (seekLast fuel (addr j) (d.blocks j)).Blocked exec I d := by
  induction fuel generalizing j with
  | zero =>
    unfold seekLast
    rw [if_neg (endless_next hno)]
    exact Prog.blocked_stuck
  | succ fuel ih =>
    obtain ⟨k, hk, -⟩ := hd.leads (endless_next hno)
    have hlink : (d.blocks j).dbm.next = addr k := hk
    have hno' : ¬ ∃ c, d.Chain (addr k) c := by
      rintro ⟨c, hc⟩
      exact hno ⟨j :: c, seg_cons.mpr ⟨rfl, by rw [hk]; exact hc⟩⟩
    unfold seekLast
    rw [if_neg (endless_next hno), hlink]
    exact Prog.Ends.blocked_bind hI (safe_readBlock (ih hno')).ends

lemma ends_seekLast {c : List (Fin BLOCK_NUM)} (hc : d.Chain (addr h) c) (hf : BLOCK_NUM ≤ fuel) :
    Ends (seekLast fuel (addr h) (d.blocks h)) d fun _ _ => True := by
  have hne : c ≠ [] := by
    rintro rfl
    exact addr_ne h (seg_nil.mp hc)
  have hlen := hc.length_le
  rw [← List.dropLast_append_getLast hne] at hc hlen
  rw [List.length_append, List.length_singleton] at hlen
  exact (safe_seekLast hc (by omega) trivial).ends

/-! ### After the walks -/

lemma total_storeSize {fileHead : ℤ} {cur : Block} : (storeSize fileHead size cur).Total :=
  Prog.total_bind (total_readBlock _ _) fun _ => Prog.total_bind (total_writeBlock _ _)
    fun _ => Prog.total_bind total_printAofs fun _ => Prog.total_pure _

lemma total_appendBlocks {todo : ℕ} {prev : ℤ} {cur : Block} :
    (appendBlocks p todo prev cur).Total := by
  induction todo generalizing prev cur with
  | zero => exact Prog.total_pure _
  | succ todo ih =>
    unfold appendBlocks
    refine Prog.total_bind total_allocateBlock fun next => ?_
    dsimp only
    split
    · exact Prog.total_pure _
    · refine Prog.total_bind (total_writeBlock _ _) fun _ => ?_
      refine Prog.total_bind (total_readBlock _ _) fun _ => ?_
      refine Prog.total_bind (total_clearBlock _) fun _ => ?_
      exact Prog.total_bind (total_writeBlock _ _) fun _ => ih

/-! ### Truncating -/

section truncate

variable (hd : d.AllLinksInRange) (hf : d.lookup p = some h)
include hd hf

lemma ends_aofsTruncateFile (hx : d.TruncateFinds h size) :
    Ends (aofsTruncateFile (BLOCK_NUM + 2) p size) d fun _ _ => True := by
  have hstore : ∀ {d' : Disk} {cur : Block},
      Ends (storeSize (addr h) size cur) d' fun _ _ => True :=
    fun {_ _} => total_storeSize.ends fun _ _ => trivial
  refine Prog.Ends.bind (safe_newBlock fun b => Prog.Ends.bind (safe_find_found hf ?_).ends).ends
  dsimp only
  rw [if_neg (addr_ne h)]
  split
  · rename_i hless
    split
    · rename_i hdrop
      obtain ⟨h1, h2⟩ := hx.cut hless hdrop
      refine Prog.Ends.bind ((ends_seekKept hd (hd.next h).1).mono fun r d' hr => ?_)
      obtain ⟨rfl, hlink⟩ := hr
      change r.2.dbm.next = d'.linkAt^[(blockCount size).toNat] (d'.next h) at hlink
      refine Prog.Ends.bind ((ends_deleteChain hd (hlink ▸ h1) (hlink ▸ h2) (by omega)).mono
        fun _ d'' _ => ?_)
      exact Prog.Ends.bind ((total_writeBlock _ _).ends fun _ _ => hstore)
    · exact hstore
  · split
    · rename_i hmore
      split
      · rename_i hadd
        obtain ⟨c, hc⟩ := hx.grown hmore hadd
        refine Prog.Ends.bind ((ends_seekLast hc (by omega)).mono fun r d' _ => ?_)
        refine Prog.Ends.bind (total_appendBlocks.ends fun ok d'' => ?_)
        split
        · exact hstore
        · exact (Prog.total_pure _).ends fun _ _ => trivial
      · exact hstore
    · exact hstore

/-- Where it does not, no budget is enough for some contents of the uninitialised blocks. -/
lemma blocked_aofsTruncateFile {b : Block} (hb : b.dbm.next < -1)
    (hx : ¬ d.TruncateFinds h size) (fuel : ℕ) :
    (aofsTruncateFile fuel p size).Blocked exec (Junk b) d := by
  refine Prog.Ends.blocked_bind junk_exec (safe_newBlock fun b' =>
    Prog.Ends.blocked_bind junk_exec (safe_find_found hf ?_).ends).ends
  dsimp only
  rw [if_neg (addr_ne h)]
  split
  · rename_i hless
    split
    · rename_i hdrop
      refine Prog.Ends.blocked_bind junk_exec
        ((ends_seekKept hd (hd.next h).1).mono fun r d' hr => ?_)
      obtain ⟨rfl, hlink⟩ := hr
      change r.2.dbm.next = d'.linkAt^[(blockCount size).toNat] (d'.next h) at hlink
      refine (blocked_deleteChain hb ?_).bind
      by_contra hfound
      refine hx ⟨fun _ _ => ?_, fun hmore => absurd hmore (by omega)⟩
      rw [← hlink]
      omega
    · rename_i hsame
      exact absurd ⟨fun _ hdrop => absurd hdrop hsame, fun hmore => absurd hmore (by omega)⟩ hx
  · rename_i hnot
    split
    · rename_i hmore
      split
      · rename_i hadd
        refine (blocked_seekLast junk_exec hd.toLinksInRange fun hc => ?_).bind
        exact hx ⟨fun hless => absurd hless hnot, fun _ _ => hc⟩
      · rename_i hsame
        exact absurd ⟨fun hless => absurd hless hnot, fun _ hadd => absurd hadd hsame⟩ hx
    · rename_i hno
      exact absurd ⟨fun hless => absurd hless hnot, fun hmore => absurd hmore hno⟩ hx

lemma not_truncateTerminates (hx : ¬ d.TruncateFinds h size) : ¬ TruncateTerminates d p size := by
  intro hterm
  obtain ⟨b, hb⟩ : ∃ b : Block, b.dbm.next = -2 :=
    ⟨{ (default : Block) with dbm.next := -2 }, rfl⟩
  obtain ⟨fuel, hsome⟩ := hterm { (default : Local) with junk := fun _ => b }
  rw [blocked_aofsTruncateFile hd hf (by omega) hx fuel _ fun _ => rfl] at hsome
  cases hsome

/-- **When a truncate ends**: where it finds what it walks to, and nowhere else. -/
theorem truncateTerminates_iff : TruncateTerminates d p size ↔ d.TruncateFinds h size := by
  refine ⟨fun hterm => ?_, fun hx l => ?_⟩
  · by_contra hx
    exact not_truncateTerminates hd hf hx hterm
  · obtain ⟨a, d', l', hr, -⟩ := ends_aofsTruncateFile hd hf hx l
    exact ⟨BLOCK_NUM + 2, by rw [hr]; rfl⟩

end truncate

/-- A file of two blocks is cut to nothing. -/
theorem truncateTerminates_twoBlocks : twoBlocks.AllLinksInRange ∧
    twoBlocks.lookup slashA = some 0 ∧ TruncateTerminates twoBlocks slashA 0 := by
  have hd : twoBlocks.AllLinksInRange :=
    ⟨twoBlocks_linksInRange, fun b hb => absurd hb List.not_mem_nil⟩
  have hf := twoBlocks_onlyFile.1.lookup
  refine ⟨hd, hf, (truncateTerminates_iff hd hf).mpr ⟨fun _ _ => ?_, fun hmore _ => ?_⟩⟩
  · have hzero : (blockCount 0).toNat = 0 := by decide
    rw [hzero, Function.iterate_zero_apply, twoBlocks_next]
    exact ⟨by decide, by simp only [if_pos, fileBlocks, BLOCK_NUM]; omega⟩
  · rw [twoBlocks_size] at hmore
    omega

/-- The empty file `/a` in block 0, whose link is the block itself. -/
def selfLinked : Disk :=
  (diskA 0 (.replicate BLOCK_DATA 0)).put 0
    { headA 0 (.replicate BLOCK_DATA 0) with dbm.next := 0 }

lemma selfLinked_next (i : Fin BLOCK_NUM) : selfLinked.next i = 0 := by
  rw [Disk.next]
  by_cases hi : i = 0
  · rw [hi, selfLinked, put_blocks_self]
  · have hblank : (default : Block).dbm.next = 0 := by decide
    rw [selfLinked, put_blocks_of_ne _ _ hi, diskA, put_blocks_of_ne _ _ hi, mark_blocks, hblank]

lemma selfLinked_lookup : selfLinked.lookup slashA = some 0 := by
  have hall := (diskA_onlyFile le_rfl (.replicate BLOCK_DATA 0)).1.all
  have hc := (diskA_onlyFile le_rfl (.replicate BLOCK_DATA 0)).2
  have halloc : ∀ i, selfLinked.Allocated i ↔ i = 0 := fun i => by
    rw [selfLinked, allocated_put, hall, hc, List.mem_singleton]
  refine lookup_of_unique ⟨⟨(halloc 0).mpr rfl, ?_⟩, ?_⟩ fun g hg => (halloc g).mp hg.1.1
  · rw [selfLinked, put_blocks_self]
    exact (by decide : (1 : UInt8) ≠ 0)
  · rw [selfLinked, put_blocks_self]
    exact Block.name_eq (by decide) (headA_name 0 (.replicate BLOCK_DATA 0)) rfl

/-- To give that file one block more goes round the cycle for ever. -/
theorem not_truncateTerminates_selfLinked : selfLinked.AllLinksInRange ∧
    selfLinked.lookup slashA = some 0 ∧ ¬ TruncateTerminates selfLinked slashA BLOCK_DATA := by
  have hd : selfLinked.AllLinksInRange := by
    refine ⟨⟨le_rfl, fun i => ?_⟩, fun b hb => absurd hb List.not_mem_nil⟩
    rw [selfLinked_next]
    exact ⟨by decide, by decide⟩
  have hx : ¬ selfLinked.TruncateFinds 0 BLOCK_DATA := by
    intro hx
    have hsize : (selfLinked.blocks 0).dbm.st_size = 0 := by rw [selfLinked, put_blocks_self]; rfl
    obtain ⟨c, hc⟩ := hx.grown (by rw [hsize]; decide) (by rw [hsize]; decide)
    -- the chain would lead through block 0 twice
    cases c with
    | nil => exact addr_ne 0 (seg_nil.mp hc)
    | cons i c =>
      obtain ⟨hi, hc'⟩ := seg_cons.mp hc
      obtain rfl := addr_injective hi
      rw [selfLinked_next] at hc'
      exact (List.nodup_cons.mp hc.nodup).1 (Chain.mem_start hc')
  exact ⟨hd, selfLinked_lookup, not_truncateTerminates hd selfLinked_lookup hx⟩

end Messaround.Aofs
