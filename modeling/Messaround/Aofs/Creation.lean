import Messaround.Aofs.Bytes
import Messaround.Aofs.Isolation
import Messaround.Aofs.Listing

/-!
The creation of a file, with all that it stores, and the deletion of a new file.

The name of a file is its whole path, so that a name of `NAME_MAX` bytes behind the slash
fills the field of 256 bytes and its terminator goes to the link. No block number is `-1`
then, and `delete_chain` does not come to an end.
-/

namespace Messaround.Aofs

open Messaround.CInt Messaround.Segment Disk

variable {d d' : Disk} {p : CStr} {i h : Fin BLOCK_NUM} {b : Block}

/-- The longest name that the system calls accept. -/
abbrev NAME_MAX : ℕ := 255

/-- A path that FUSE passes for a file: a slash and a name. -/
def CStr.Legal (p : CStr) : Prop := ∃ n, p = CStr.slash n ∧ n ≠ .empty ∧ n.length ≤ NAME_MAX

lemma CStr.length_slash (n : CStr) : n.slash.length = n.length + 1 := rfl

lemma CStr.Legal.length_le (hp : p.Legal) : p.length ≤ 256 := by
  obtain ⟨n, rfl, -, hn⟩ := hp
  exact Nat.succ_le_succ hn

lemma CStr.Legal.ne_root (hp : p.Legal) : p ≠ .root := by
  obtain ⟨n, rfl, hn, -⟩ := hp
  exact CStr.slash_ne_root hn

/-! ### The new block -/

/-- The block that `clear_block` leaves when the clock shows `t`. -/
def Block.cleared (b : Block) (t : ℕ → UInt64) : Block :=
  { b.strcpyFilename .empty with
    dbm.next := -1
    dbm.head := 0
    dbm.st_atim := t 0
    dbm.st_mtim := t 1
    dbm.st_ctim := t 2
    dbm.st_birthtim := t 3
    dbm.st_size := 0
    dbm.st_blocks := 0
    dbm.st_blksize := BLOCK_DATA
    dbm.st_flags := 0
    data := .replicate BLOCK_DATA 0 }

section run

variable {α : Type} (l : Local)

lemma run_time (f : UInt64 → Code α) : (time >>= f).run exec d l =
    (f (l.clock 0)).run exec d { l with clock := fun k => l.clock (k + 1) } := rfl

lemma run_newBlock (f : Block → Code α) : (newBlock >>= f).run exec d l =
    (f (l.junk 0)).run exec d { l with junk := fun k => l.junk (k + 1) } := rfl

lemma run_readSuperBlock (f : SuperBlock → Code α) : (readSuperBlock >>= f).run exec d l =
    (f d.sb).run exec d { l with pos := 0 } := rfl

lemma run_writeSuperBlock (sb : SuperBlock) (f : Unit → Code α) :
    (writeSuperBlock sb >>= f).run exec d l =
      (f ()).run exec { d with sb := sb } { l with pos := 0 } := rfl

lemma run_writeBlock (f : Unit → Code α) : (writeBlock (addr i) b >>= f).run exec d l =
    (f ()).run exec (d.put i b) { l with pos := addr i + 1 } := by
  have h := exec_writeBlock (d := d) l i b
  change (f (exec (.writeBlock (addr i) b) d l).1).run exec
    (exec (.writeBlock (addr i) b) d l).2.1 (exec (.writeBlock (addr i) b) d l).2.2 = _
  rw [h]

lemma run_clearBlock (f : Block → Code α) : (clearBlock b >>= f).run exec d l =
    (f (b.cleared l.clock)).run exec d { l with clock := fun k => l.clock (k + 4) } := by
  rw [clearBlock, Prog.bind_assoc]
  simp only [Prog.bind_assoc, run_time]
  rfl

end run

lemma inRange_cleared (b : Block) (t : ℕ → UInt64) : (b.cleared t).InRange := by
  constructor <;> simp only [Block.cleared] <;> decide

/-- The block that `aofs_create_file` stores. The block of `allocate_block` is the first one
in the memory, and its times take eight readings of the clock. -/
def newFile (p : CStr) (l : Local) : Block :=
  { ((l.junk 1).cleared fun k => l.clock (k + 8)).strcpyFilename p with dbm.head := 1 }

lemma run_aofsCreateFile (hi : findFreeBit d.sb.bitmap (toInt d.sb.totalblocks.toNat) = addr i)
    (l : Local) : ∃ l', (aofsCreateFile p).run exec d l =
      some (addr i, (d.mark i).put i (newFile p l), l') := by
  rw [aofsCreateFile, allocateBlock, Prog.bind_assoc, run_readSuperBlock]
  dsimp only
  rw [hi, if_neg (addr_ne i)]
  simp only [Prog.bind_assoc, run_writeSuperBlock, run_newBlock, run_clearBlock, run_time,
    run_writeBlock, Prog.pure_eq, Prog.ret_bind, if_neg (addr_ne i)]
  refine ⟨⟨addr i + 1, fun k => l.clock (k + 12), fun k => l.junk (k + 2)⟩, ?_⟩
  rw [Prog.run, ← put_put i _ (newFile p l)]
  rfl

lemma exists_firstFree (hfree : 0 < d.freeCount) (ht : d.sb.totalblocks.toNat ≤ BLOCK_NUM) :
    ∃ i, d.FirstFree i ∧ findFreeBit d.sb.bitmap (toInt d.sb.totalblocks.toNat) = addr i := by
  rcases findFreeBit_disk ht with hi | ⟨h0, -⟩
  · exact hi
  · omega

/-- The link of a new file. The terminator of a name of 256 bytes clears its low byte. -/
def firstLink (p : CStr) : ℤ := if p.length ≤ MAX_FILENAME then -1 else -256

lemma firstLink_short (hp : p.length ≤ MAX_FILENAME) : firstLink p = -1 := if_pos hp

lemma firstLink_long (hp : p.length = 256) : firstLink p = -256 :=
  if_neg (by rw [hp]; exact Nat.not_succ_le_self 255)

lemma strcpyFilename_path (hp : p.length ≤ 256) (hn : b.dbm.next = -1) (hb : b.InRange) :
    ∃ v, b.strcpyFilename p = { b with dbm.filename := v, dbm.next := firstLink p } ∧
      ∀ c : Block, c.dbm.filename = v → c.dbm.next = firstLink p → c.name = p := by
  by_cases hs : p.length ≤ MAX_FILENAME
  · refine ⟨(b.strcpyFilename p).dbm.filename, ?_, fun c hv _ => ?_⟩
    · rw [b.strcpyFilename_short hs, firstLink_short hs, ← hn]
    · exact Block.name_eq hs (b.name_strcpyFilename hs) hv
  · have h256 : p.length = 256 := by simp only [MAX_FILENAME] at hs; omega
    refine ⟨(b.overlong p).dbm.filename, ?_, fun c hv hl => ?_⟩
    · rw [Block.strcpyFilename_overlong h256 hn hb, firstLink_long h256, Block.overlong]
    · rw [firstLink_long h256] at hl
      have hc : Block.overlong { c with dbm.next := -1 } p = c :=
        calc Block.overlong { c with dbm.next := -1 } p
            = { c with dbm.filename := (b.overlong p).dbm.filename, dbm.next := -256 } := rfl
          _ = c := by rw [← hv, ← hl]
      exact hc ▸ Block.name_overlong h256 rfl

lemma newFile_eq (hp : p.length ≤ 256) (l : Local) : (newFile p l).name = p ∧
    ∃ v, newFile p l = { (l.junk 1).cleared fun k => l.clock (k + 8) with
      dbm.filename := v, dbm.next := firstLink p, dbm.head := 1 } := by
  obtain ⟨v, he, hname⟩ := strcpyFilename_path hp rfl
    (inRange_cleared (l.junk 1) fun k => l.clock (k + 8))
  have hnew : newFile p l = { (l.junk 1).cleared fun k => l.clock (k + 8) with
      dbm.filename := v, dbm.next := firstLink p, dbm.head := 1 } := by rw [newFile, he]
  exact ⟨hname _ (by rw [hnew]) (by rw [hnew]), v, hnew⟩

lemma lookup_new (hno : d.lookup p = none) (hf : ((d.mark i).put i b).IsFile p i) :
    ((d.mark i).put i b).lookup p = some i := by
  refine lookup_of_new hno hf fun g hgi hg => ?_
  -- the other blocks are as they were
  obtain ⟨⟨ha, hb⟩, hname⟩ := hg
  rw [allocated_put, allocated_mark] at ha
  rw [put_blocks_of_ne _ _ hgi, mark_blocks] at hb hname
  exact ⟨⟨ha.resolve_left hgi, hb⟩, hname⟩

/-! ### The deletion of a new file -/

/-- A new file: its head block has the name, the link `-1` and the size 0, and the lookup
finds it. -/
structure Created (d : Disk) (p : CStr) (h : Fin BLOCK_NUM) : Prop where
  file : d.IsFile p h
  next : d.next h = -1
  size : (d.blocks h).dbm.st_size = 0
  found : ∀ b, Ends (aofsFindFileHead p b) d fun r _ => r.1 = addr h

/-- The law of creation and deletion: there is a new file, its deletion ends and reports
success, and then the bitmap is as before. -/
def CreateDelete (d : Disk) (p : CStr) : Prop :=
  Ends (aofsCreateFile p) d fun r d' => (∃ h, r = addr h ∧ Created d' p h) ∧
    ∃ fuel, Ends (aofsDeleteFile fuel p) d' fun r d'' => r = 0 ∧ d''.sb.bitmap = d.sb.bitmap

/-- A block that is taken and freed again leaves the bitmap as it was. -/
lemma Freed.bitmap (hi : ¬ d.Allocated i) (hd : Freed ((d.mark i).put i b) d' (· ∈ [i])) :
    d'.sb.bitmap = d.sb.bitmap := by
  refine eq_of_isSet fun k => ?_
  by_cases hk : k = i
  · rw [hk, not_allocated_iff.mp hi]
    exact not_allocated_iff.mp (hd.wiped i (List.mem_singleton_self i)).2
  · have hne : ∀ j : Fin BLOCK_NUM, j ∈ [i] → (j : ℕ) ≠ k := by
      intro j hj hjk
      exact hk (by rw [← hjk, List.mem_singleton.mp hj])
    rw [hd.bits k hne, put_sb, mark, isSet_setBit (val_lt i)]
    simp [hk]

/-- From a number below `-1`, `delete_chain` does not end: `deallocate_block` returns the
number itself. -/
lemma deleteChain_stuck {n : ℤ} (hn : n < -1) (fuel : ℕ) : deleteChain fuel n = .stuck := by
  induction fuel with
  | zero => unfold deleteChain; rw [if_neg (by omega)]
  | succ fuel ih =>
    unfold deleteChain deallocateBlock
    rw [if_neg (by omega), if_pos (by omega)]
    exact ih

lemma run_delete_eq_none (hf : d.lookup p = some h) (hn : d.next h < -1) (fuel : ℕ) (l : Local) :
    (aofsDeleteFile fuel p).run exec d l = none := by
  refine Prog.EndsIff.run_eq_none ?_ not_false l
  refine Prog.Holds.endsIff_bind (safe_newBlock fun b => Prog.Holds.endsIff_bind
    (safe_find_found hf ?_))
  dsimp only
  rw [if_neg (addr_nonneg h)]
  unfold deleteChain
  rw [if_neg (addr_ne h)]
  cases fuel with
  | zero => exact Prog.endsIff_stuck not_false
  | succ fuel =>
    dsimp only
    rw [Prog.bind_assoc]
    refine Prog.Holds.endsIff_bind (safe_deallocateBlock fun b _ => ?_)
    rw [deleteChain_stuck hn]
    exact Prog.endsIff_stuck not_false

section law

variable (ht : d.sb.totalblocks.toNat ≤ BLOCK_NUM) (hfree : 0 < d.freeCount)
  (hno : d.lookup p = none) (hp : p.length ≤ 256)
include ht hfree hno hp

lemma run_creation (l : Local) : ∃ i l', d.FirstFree i ∧
    (aofsCreateFile p).run exec d l = some (addr i, (d.mark i).put i (newFile p l), l') ∧
      ((d.mark i).put i (newFile p l)).IsFile p i ∧
      ((d.mark i).put i (newFile p l)).lookup p = some i := by
  obtain ⟨i, hi, hfind⟩ := exists_firstFree hfree ht
  obtain ⟨l', hr⟩ := run_aofsCreateFile (p := p) hfind l
  obtain ⟨hname, v, he⟩ := newFile_eq hp l
  have hhead : (newFile p l).dbm.head ≠ 0 := by rw [he]; exact (by decide : (1 : UInt8) ≠ 0)
  have hfile : ((d.mark i).put i (newFile p l)).IsFile p i := isFile_put hname hhead
  exact ⟨i, l', hi, hr, hfile, lookup_new hno hfile⟩

lemma createDelete_of_short (hs : p.length ≤ MAX_FILENAME) : CreateDelete d p := by
  intro l
  obtain ⟨i, l', hi, hr, hfile, hf⟩ := run_creation ht hfree hno hp l
  obtain ⟨-, v, he⟩ := newFile_eq hp l
  have hnext : ((d.mark i).put i (newFile p l)).next i = -1 := by
    rw [Disk.next, put_blocks_self, he]
    exact firstLink_short hs
  have hsize : (((d.mark i).put i (newFile p l)).blocks i).dbm.st_size = 0 := by
    rw [put_blocks_self, he]
    rfl
  have hc : ((d.mark i).put i (newFile p l)).Chain (addr i) [i] :=
    seg_cons.mpr ⟨rfl, seg_nil.mpr hnext⟩
  refine ⟨addr i, _, l', hr, ⟨i, rfl, hfile, hnext, hsize, fun b => ends_find b hf⟩, 1, ?_⟩
  exact (safe_delete_found hf hc le_rfl fun d' hd => ⟨rfl, hd.bitmap hi.1.1⟩).ends

/-- A path of 256 bytes does not: the new file has the link `-256`, and its deletion does not
end. -/
lemma creation_of_long (hs : p.length = 256) (l : Local) : ∃ i l',
    (aofsCreateFile p).run exec d l = some (addr i, (d.mark i).put i (newFile p l), l') ∧
      ((d.mark i).put i (newFile p l)).next i = -256 ∧
      ∀ fuel m, (aofsDeleteFile fuel p).run exec ((d.mark i).put i (newFile p l)) m = none := by
  obtain ⟨i, l', hi, hr, hfile, hf⟩ := run_creation ht hfree hno hp l
  obtain ⟨-, v, he⟩ := newFile_eq hp l
  have hnext : ((d.mark i).put i (newFile p l)).next i = -256 := by
    rw [Disk.next, put_blocks_self, he]
    exact firstLink_long hs
  exact ⟨i, l', hr, hnext, fun fuel m => run_delete_eq_none hf (by rw [hnext]; decide) fuel m⟩

end law

/-- **When creation and deletion cancel out**: for every path of at most 255 bytes, and not
for one of 256. -/
theorem createDelete_iff (hw : d.WellFormed) (hfree : 0 < d.freeCount) (hno : d.lookup p = none)
    (hp : p.Legal) : CreateDelete d p ↔ p.length ≤ MAX_FILENAME := by
  refine ⟨fun hcd => ?_, createDelete_of_short hw.total_le hfree hno hp.length_le⟩
  by_contra hs
  have h256 : p.length = 256 := by
    have := hp.length_le
    simp only [MAX_FILENAME] at hs
    omega
  obtain ⟨i, l', hr, hlink, -⟩ := creation_of_long hw.total_le hfree hno hp.length_le h256 default
  obtain ⟨r, d', l'', hr', ⟨h, rfl, hc⟩, -⟩ := hcd default
  obtain ⟨hih, rfl, -⟩ : addr i = addr h ∧ _ = d' ∧ l' = l'' := by simpa [hr] using hr'
  obtain rfl : i = h := addr_injective hih
  exact absurd (hlink.symm.trans hc.next) (by decide)

lemma slashB_new : twoBytes.lookup slashB = none ∧ slashB.Legal :=
  ⟨twoBytes_onlyFile.1.lookup_none (by decide), ⟨[98], by simp⟩, rfl, by decide, by decide⟩

/-- `/b` beside `/a`. -/
theorem createDelete_twoBytes : CreateDelete twoBytes slashB :=
  (createDelete_iff twoBytes_wellFormed (by rw [twoBytes_freeCount]; decide) slashB_new.1
    slashB_new.2).mpr (by decide)

/-- A name of the greatest length, and its path. -/
def longName : CStr := ⟨List.replicate NAME_MAX 97, by simp⟩
def longPath : CStr := longName.slash

lemma longName_length : longName.length = NAME_MAX := List.length_replicate

lemma longPath_length : longPath.length = 256 := by
  rw [longPath, CStr.length_slash, longName_length]

lemma longPath_new : twoBytes.lookup longPath = none ∧ longPath.Legal := by
  refine ⟨twoBytes_onlyFile.1.lookup_none fun he => ?_, _, rfl, fun he => ?_, ?_⟩
  · have hl := congrArg CStr.length he
    rw [longPath_length] at hl
    exact absurd hl (by decide)
  · have hl := congrArg CStr.length he
    rw [longName_length] at hl
    exact absurd hl (by decide)
  · exact longName_length.le

/-- A file with the longest name is created, and its deletion never ends. -/
theorem not_createDelete_twoBytes : twoBytes.WellFormed ∧ 0 < twoBytes.freeCount ∧
    twoBytes.lookup longPath = none ∧ longPath.Legal ∧ ¬ CreateDelete twoBytes longPath ∧
    Ends (aofsCreateFile longPath) twoBytes fun _ d' =>
      ∀ fuel m, (aofsDeleteFile fuel longPath).run exec d' m = none := by
  have hfree : 0 < twoBytes.freeCount := by rw [twoBytes_freeCount]; decide
  have hlong := creation_of_long twoBytes_wellFormed.total_le hfree longPath_new.1
    longPath_new.2.length_le longPath_length
  refine ⟨twoBytes_wellFormed, hfree, longPath_new.1, longPath_new.2, fun hcd => ?_, fun l => ?_⟩
  · obtain ⟨i, l', hr, -, hnever⟩ := hlong default
    obtain ⟨r, d', l'', hr', -, fuel, hdel⟩ := hcd default
    obtain ⟨-, rfl, -⟩ : addr i = r ∧ _ = d' ∧ l' = l'' := by simpa [hr] using hr'
    obtain ⟨_, _, _, hrun, -⟩ := hdel default
    rw [hnever] at hrun
    cases hrun
  · obtain ⟨i, l', hr, -, hnever⟩ := hlong l
    exact ⟨_, _, l', hr, hnever⟩

end Messaround.Aofs
