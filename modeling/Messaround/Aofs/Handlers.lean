import Messaround.Aofs.Runs

/-!
The handlers of `run_fs.c`: what FUSE calls.

Every handler opens the disk file first, and works on a descriptor of its own. What it does
where the `open` succeeds is here; the failing `open` and the descriptors that are never closed
come in where runs of requests are served. What a handler prints is left out.
-/

namespace Messaround.Aofs

open Messaround.CInt Disk

abbrev S_IFDIR : UInt16 := 0o040000
abbrev S_IFREG : UInt16 := 0o100000

/-- The path of the mount root. -/
def CStr.root : CStr := ⟨[47], by simp⟩

/-- The string from its second byte on. -/
def CStr.behindFirst (s : CStr) : CStr :=
  ⟨s.bytes.tail, fun x hx => s.nonzero x (List.mem_of_mem_tail hx)⟩

/-- The fields of `struct stat` that a handler sets. -/
structure Stat where
  st_mode : UInt16
  st_nlink : UInt16
  st_ino : UInt32
  st_dev : UInt32
  st_atime : ℤ
  st_mtime : ℤ
  st_ctime : ℤ
  st_size : ℤ
  st_blocks : ℤ
  st_blksize : ℤ
  st_flags : UInt32
  st_uid : UInt32
  st_gid : UInt32
  deriving DecidableEq

/-- `memset(stbuf, 0, sizeof(struct stat))` -/
def Stat.zero : Stat := ⟨0, 0, 0, 0, 0, 0, 0, 0, 0, 0, 0, 0, 0⟩

/-- What `aofs_getattr` copies from the head block of a file. -/
def Stat.ofMeta (stbuf : Stat) (bm : BlockMeta) : Stat :=
  let stbuf := { stbuf with
    st_mode := S_IFREG ||| 0o777
    st_nlink := 1
    st_ino := 0
    st_dev := 0
    st_atime := toLong bm.st_atim.toNat
    st_mtime := toLong bm.st_mtim.toNat
    st_ctime := toLong bm.st_ctim.toNat
    st_size := bm.st_size
    st_blocks := bm.st_blocks
    st_blksize := bm.st_blksize
    st_flags := bm.st_flags
    st_uid := bm.st_uid
    st_gid := bm.st_gid }
  { stbuf with st_mode := S_IFREG ||| 0o444 ||| 0o666 }

/-- The return value and the contents of `*stbuf`. -/
def aofsGetattr (path : CStr) : Code (ℤ × Stat) := do
  let stbuf := Stat.zero
  if path = .root then
    return (0, { stbuf with st_mode := S_IFDIR ||| 0o755, st_nlink := 2 })
  else
    let (fileHead, b) ← aofsFindFileHead path (← newBlock)
    if fileHead ≠ -1 then
      return (0, stbuf.ofMeta b.dbm)
    else
      return (-ENOENT, stbuf)

/-- The string at `dbm.filename + 1`. -/
def Block.entryName (b : Block) : CStr := .ofMemory (b.bytes.drop 1)

/-- The loop of `aofs_readdir` over the blocks, with `todo` of them left; `names` are those
passed to `filler` so far. -/
def readdirLoop (bitmap : Vector UInt8 BITMAP_SIZE) : (todo blockNum : ℕ) → (block : Block) →
    (names : List CStr) → Code (List CStr)
  | 0, _, _, names => return names
  | todo + 1, blockNum, block, names => do
    if bitAt bitmap blockNum ≠ 0 then
      let block ← readBlock blockNum block
      if block.dbm.head ≠ 0 then
        readdirLoop bitmap todo (blockNum + 1) block (names ++ [block.entryName])
      else
        readdirLoop bitmap todo (blockNum + 1) block names
    else
      readdirLoop bitmap todo (blockNum + 1) block names

/-- `"."` -/
def CStr.dot : CStr := ⟨[46], by simp⟩

/-- `".."` -/
def CStr.dotDot : CStr := ⟨[46, 46], by simp⟩

/-- The return value and the names passed to `filler`, in their order. -/
def aofsReaddir (path : CStr) : Code (ℤ × List CStr) := do
  if path ≠ .root then
    return (0, [path.behindFirst])
  let block ← newBlock
  let sb ← readSuperBlock
  let names ← readdirLoop sb.bitmap BLOCK_NUM 0 block [.dot, .dotDot]
  return (0, names)

def aofsOpen (path : CStr) : Code ℤ := do
  let (fileHead, _) ← aofsFindFileHead path (← newBlock)
  if fileHead ≠ -1 then
    return 0
  else
    return -ENOENT

def aofsCreate (path : CStr) : Code ℤ := do
  let x ← aofsCreateFile path
  if 0 ≤ x then
    return 0
  else
    return -1

def aofsRead (path : CStr) (size offset : ℤ) : Code (ℤ × List Copy) :=
  aofsReadFile path size offset

def aofsWrite (path : CStr) (buf : ℕ → UInt8) (size offset : ℤ) : Code ℤ :=
  aofsWriteFile path buf size offset

def aofsUnlink (fuel : ℕ) (path : CStr) : Code ℤ := aofsDeleteFile fuel path

def aofsTruncate (fuel : ℕ) (path : CStr) (size : ℤ) : Code ℤ := aofsTruncateFile fuel path size

/-- The field of `struct timespec` that a handler reads. -/
structure Timespec where
  tv_sec : Int64

def aofsUtimens (path : CStr) (ts : Vector Timespec 2) : Code ℤ := do
  let (fileHead, head) ← aofsFindFileHead path (← newBlock)
  let head := { head with dbm.st_atim := ts[0].tv_sec.toUInt64 }
  let head := { head with dbm.st_mtim := ts[1].tv_sec.toUInt64 }
  writeBlock fileHead head
  return 0

def aofsChown (path : CStr) (uid gid : UInt32) : Code ℤ := do
  let (fileHead, head) ← aofsFindFileHead path (← newBlock)
  let head := { head with dbm.st_uid := uid }
  let head := { head with dbm.st_gid := gid }
  writeBlock fileHead head
  return 0

/-- The block with the two times that `aofs_utimens` sets. -/
def Block.setTimes (b : Block) (ts : Vector Timespec 2) : Block :=
  { b with
    dbm.st_atim := ts[0].tv_sec.toUInt64
    dbm.st_mtim := ts[1].tv_sec.toUInt64 }

/-- The block with the owner that `aofs_chown` sets. -/
def Block.setOwner (b : Block) (uid gid : UInt32) : Block :=
  { b with
    dbm.st_uid := uid
    dbm.st_gid := gid }

/-! ### What the handlers see -/

variable {d : Disk} {p : CStr}

/-- `aofs_getattr` of a path below the root: the head block of the file, if there is one. -/
lemma safe_aofsGetattr {Q : ℤ × Stat → Disk → Prop} (hp : p ≠ .root)
    (hfound : ∀ h, d.lookup p = some h → Q (0, Stat.zero.ofMeta (d.blocks h).dbm) d)
    (hnone : d.lookup p = none → Q (-ENOENT, .zero) d) : Safe (aofsGetattr p) d Q := by
  unfold aofsGetattr
  dsimp only
  rw [if_neg hp]
  refine safe_bind (safe_newBlock fun b => safe_bind (safe_aofsFindFileHead (fun h hh => ?_)
    fun hno => ?_))
  · dsimp only
    rw [if_pos (addr_ne h)]
    exact safe_pure (hfound h hh)
  · dsimp only
    rw [if_neg (not_not.mpr rfl)]
    exact safe_pure (hnone hno)

/-- The blocks that a directory listing names. -/
def Disk.heads (d : Disk) : List (Fin BLOCK_NUM) := (List.finRange BLOCK_NUM).filter fun h => d.IsHead h

lemma mem_heads {h : Fin BLOCK_NUM} : h ∈ d.heads ↔ d.IsHead h := by
  rw [Disk.heads, List.mem_filter, decide_eq_true_eq]
  exact and_iff_right (List.mem_finRange h)

lemma nodup_heads : d.heads.Nodup := (List.nodup_finRange _).filter _

end Messaround.Aofs
