import Messaround.Aofs.Creation

/-!
What a new file shows of the memory it was built in.

`clear_block` sets every field of a block that `aofs_getattr` copies but the owner and the
group. Two runs that find different memory differ there, and nowhere else.
-/

namespace Messaround.Aofs

open Messaround.CInt Disk

variable {d : Disk} {p : CStr} {i : Fin BLOCK_NUM} {l l' : Local}

/-- `aofs_create_file` and then `aofs_getattr`. -/
def createThenStat (p : CStr) : Code (ℤ × Stat) := do
  let _ ← aofsCreateFile p
  aofsGetattr p

/-- The stat result for a new file of the owner `uid` and the group `gid`, when the clock
shows `t`. -/
def newStat (uid gid : UInt32) (t : ℕ → UInt64) : Stat where
  st_mode := S_IFREG ||| 0o444 ||| 0o666
  st_nlink := 1
  st_ino := 0
  st_dev := 0
  st_atime := toLong (t 0).toNat
  st_mtime := toLong (t 1).toNat
  st_ctime := toLong (t 2).toNat
  st_size := 0
  st_blocks := 0
  st_blksize := BLOCK_DATA
  st_flags := 0
  st_uid := uid
  st_gid := gid

lemma stat_newFile (hp : p.length ≤ 256) (l : Local) : Stat.zero.ofMeta (newFile p l).dbm =
    newStat (l.junk 1).dbm.st_uid (l.junk 1).dbm.st_gid fun k => l.clock (k + 8) := by
  obtain ⟨-, v, he⟩ := newFile_eq hp l
  have hs : CStr.empty.length ≤ MAX_FILENAME := Nat.zero_le _
  rw [he]
  simp only [Stat.ofMeta, newStat, Block.cleared, Block.strcpyFilename_short _ hs]

section new

variable (ht : d.sb.totalblocks.toNat ≤ BLOCK_NUM) (hfree : 0 < d.freeCount)
  (hno : d.lookup p = none) (hp : p.Legal)
include ht hfree hno hp

lemma run_createThenStat (l : Local) : ∃ d' l', (createThenStat p).run exec d l =
    some ((0, newStat (l.junk 1).dbm.st_uid (l.junk 1).dbm.st_gid fun k => l.clock (k + 8)),
      d', l') := by
  obtain ⟨i, l', -, hr, -, hf⟩ := run_creation ht hfree hno hp.length_le l
  have hstat : Safe (aofsGetattr p) ((d.mark i).put i (newFile p l)) fun r _ =>
      r = (0, Stat.zero.ofMeta (newFile p l).dbm) := by
    refine safe_aofsGetattr hp.ne_root (fun h hh => ?_) fun hno => by rw [hf] at hno; cases hno
    rw [← Option.some.inj (hf.symm.trans hh), put_blocks_self]
  obtain ⟨r, d', l'', hr', rfl⟩ := hstat.ends l'
  rw [createThenStat, Prog.run_bind, hr, ← stat_newFile hp.length_le]
  exact ⟨d', l'', hr'⟩

end new

/-- Both runs of the two calls report success and the same stat result. -/
def SameStat (d : Disk) (p : CStr) (l l' : Local) : Prop :=
  ∃ st d₁ l₁ d₂ l₂, (createThenStat p).run exec d l = some ((0, st), d₁, l₁) ∧
    (createThenStat p).run exec d l' = some ((0, st), d₂, l₂)

/-- The memory of the block of `aofs_create_file`, the second block to come to life, holds
the same owner and the same group. -/
def SameOwner (l l' : Local) : Prop :=
  (l.junk 1).dbm.st_uid = (l'.junk 1).dbm.st_uid ∧ (l.junk 1).dbm.st_gid = (l'.junk 1).dbm.st_gid

section pair

variable (ht : d.sb.totalblocks.toNat ≤ BLOCK_NUM) (hfree : 0 < d.freeCount)
  (hno : d.lookup p = none) (hp : p.Legal)
include ht hfree hno hp

lemma sameOwner_of_sameStat (hs : SameStat d p l l') : SameOwner l l' := by
  obtain ⟨st, _, _, _, _, h₁, h₂⟩ := hs
  obtain ⟨d₁, l₁, hr₁⟩ := run_createThenStat ht hfree hno hp l
  obtain ⟨d₂, l₂, hr₂⟩ := run_createThenStat ht hfree hno hp l'
  simp only [hr₁, Option.some.injEq, Prod.mk.injEq, true_and] at h₁
  simp only [hr₂, Option.some.injEq, Prod.mk.injEq, true_and] at h₂
  have hstat := h₁.1.trans h₂.1.symm
  exact ⟨congrArg Stat.st_uid hstat, congrArg Stat.st_gid hstat⟩

/-- **When a new file shows nothing of the memory**: two runs whose clocks agree have the
same stat result when they find the same owner and group, and only then. -/
theorem sameStat_iff (hc : l.clock = l'.clock) : SameStat d p l l' ↔ SameOwner l l' := by
  refine ⟨sameOwner_of_sameStat ht hfree hno hp, fun ⟨huid, hgid⟩ => ?_⟩
  obtain ⟨d₁, l₁, h₁⟩ := run_createThenStat ht hfree hno hp l
  obtain ⟨d₂, l₂, h₂⟩ := run_createThenStat ht hfree hno hp l'
  rw [← huid, ← hgid, ← hc] at h₂
  exact ⟨_, d₁, l₁, d₂, l₂, h₁, h₂⟩

end pair

/-- The memory is full of blocks like `b`. -/
def memoryOf (b : Block) : Local := { (default : Local) with junk := fun _ => b }

lemma memoryOf_clock (b b' : Block) : (memoryOf b).clock = (memoryOf b').clock := rfl

/-- Other flags in the memory do not show. -/
theorem sameStat_twoBytes : SameStat twoBytes slashB (memoryOf default)
    (memoryOf { (default : Block) with dbm.st_flags := 7 }) := by
  have howner : SameOwner (memoryOf default)
      (memoryOf { (default : Block) with dbm.st_flags := 7 }) := by
    simp only [SameOwner, memoryOf, and_self]
  exact (sameStat_iff twoBytes_wellFormed.total_le (by rw [twoBytes_freeCount]; decide)
    slashB_new.1 slashB_new.2 (memoryOf_clock _ _)).mpr howner

/-- The memory with a block of the owner `uid` in it. -/
def ownedBy (uid : UInt32) : Local := memoryOf { (default : Block) with dbm.st_uid := uid }

/-- Another owner does. -/
theorem not_sameStat_twoBytes : twoBytes.WellFormed ∧ 0 < twoBytes.freeCount ∧
    twoBytes.lookup slashB = none ∧ slashB.Legal ∧ (ownedBy 0).clock = (ownedBy 1001).clock ∧
    ¬ SameStat twoBytes slashB (ownedBy 0) (ownedBy 1001) := by
  have hfree : 0 < twoBytes.freeCount := by rw [twoBytes_freeCount]; decide
  refine ⟨twoBytes_wellFormed, hfree, slashB_new.1, slashB_new.2, memoryOf_clock _ _,
    fun hs => ?_⟩
  have huid := (sameOwner_of_sameStat twoBytes_wellFormed.total_le hfree slashB_new.1
    slashB_new.2 hs).1
  simp only [ownedBy, memoryOf] at huid
  exact absurd huid (by decide)

end Messaround.Aofs
