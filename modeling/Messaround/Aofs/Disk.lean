import Mathlib.Data.List.TakeWhile
import Mathlib.Logic.Function.Basic
import Messaround.Lib.CInt
import Messaround.Lib.Prog

/-!
The disk of AOFS: superblock, blocks, and the calls that move them.

A call that names a block is a seek followed by a transfer of `sizeof(Block)` bytes. The
superblock is 4108 bytes long and a block 4096, so block `-1` is the place of the bitmap,
which starts 12 bytes into the file; a lower number makes the seek fail, and the transfer
happens where the descriptor stands.
-/

namespace Messaround.Aofs

open Messaround.CInt

abbrev MAX_FILENAME : ℕ := 255
abbrev MAGICNUM : UInt32 := 0xfa19283e
abbrev BLOCK_SIZE : ℕ := 4096
abbrev BLOCK_NUM : ℕ := 4096
abbrev BITMAP_SIZE : ℕ := 4096
/-- `sizeof(BlockMeta)` on FreeBSD amd64. -/
abbrev BLOCK_META : ℕ := 328
abbrev BLOCK_DATA : ℕ := 3768

instance : NeZero BLOCK_NUM := ⟨by decide⟩

/-! ### C strings -/

/-- The bytes of a C string before its terminator. -/
@[ext] structure CStr where
  bytes : List UInt8
  nonzero : ∀ x ∈ bytes, x ≠ 0
  deriving DecidableEq

namespace CStr

def length (s : CStr) : ℕ := s.bytes.length

/-- The string that starts a stretch of memory. -/
def ofMemory (m : List UInt8) : CStr :=
  ⟨m.takeWhile (· ≠ 0), fun x hx => by simpa using List.mem_takeWhile_imp hx⟩

lemma ofMemory_append (s : CStr) (m : List UInt8) : ofMemory (s.bytes ++ 0 :: m) = s := by
  ext1
  change (s.bytes ++ 0 :: m).takeWhile (· ≠ 0) = s.bytes
  rw [List.takeWhile_append_of_pos (by simpa using s.nonzero)]
  simp

end CStr

/-! ### Blocks -/

structure BlockMeta where
  filename : Vector UInt8 256
  next : ℤ
  /-- The byte of the `bool`. -/
  head : UInt8
  /-- The byte between `head` and `st_mode`. -/
  pad : UInt8
  st_mode : UInt16
  st_atim : UInt64
  st_mtim : UInt64
  st_ctim : UInt64
  st_size : ℤ
  st_uid : UInt32
  st_gid : UInt32
  st_blocks : ℤ
  st_blksize : ℤ
  st_flags : UInt32
  st_birthtim : UInt64

structure Block where
  dbm : BlockMeta
  data : Vector UInt8 BLOCK_DATA

/-- The `n` low bytes of `x`, the lowest first. -/
def leBytes (n : ℕ) (x : ℤ) : List UInt8 :=
  (List.range n).map fun k => UInt8.ofNat (x / 256 ^ k % 256).toNat

/-- The number whose bytes, the lowest first, are the `n` bytes at `off`. -/
def leAt (m : List UInt8) (off n : ℕ) : ℤ :=
  ((List.range n).map fun k => ((m.getD (off + k) 0).toNat : ℤ) * 256 ^ k).sum

namespace Block

/-- The memory of a block behind its file name. -/
def rest (b : Block) : List UInt8 :=
  leBytes 4 b.dbm.next ++ [b.dbm.head, b.dbm.pad] ++ leBytes 2 b.dbm.st_mode.toNat ++
  leBytes 8 b.dbm.st_atim.toNat ++ leBytes 8 b.dbm.st_mtim.toNat ++
  leBytes 8 b.dbm.st_ctim.toNat ++ leBytes 8 b.dbm.st_size ++ leBytes 4 b.dbm.st_uid.toNat ++
  leBytes 4 b.dbm.st_gid.toNat ++ leBytes 8 b.dbm.st_blocks ++ leBytes 4 b.dbm.st_blksize ++
  leBytes 4 b.dbm.st_flags.toNat ++ leBytes 8 b.dbm.st_birthtim.toNat ++ b.data.toList

/-- The memory of a block. -/
def bytes (b : Block) : List UInt8 := b.dbm.filename.toList ++ b.rest

/-- The block that a stretch of memory holds. -/
def ofBytes (m : List UInt8) : Block where
  dbm :=
    { filename := .ofFn fun i => m.getD i 0
      next := toInt (leAt m 256 4)
      head := m.getD 260 0
      pad := m.getD 261 0
      st_mode := .ofNat (leAt m 262 2).toNat
      st_atim := .ofNat (leAt m 264 8).toNat
      st_mtim := .ofNat (leAt m 272 8).toNat
      st_ctim := .ofNat (leAt m 280 8).toNat
      st_size := toLong (leAt m 288 8)
      st_uid := .ofNat (leAt m 296 4).toNat
      st_gid := .ofNat (leAt m 300 4).toNat
      st_blocks := toLong (leAt m 304 8)
      st_blksize := toInt (leAt m 312 4)
      st_flags := .ofNat (leAt m 316 4).toNat
      st_birthtim := .ofNat (leAt m 320 8).toNat }
  data := .ofFn fun i => m.getD (BLOCK_META + i) 0

instance : Inhabited Block := ⟨ofBytes []⟩

/-- Byte `x` of the data of a block, and zero behind it. -/
def byte (b : Block) (x : ℕ) : UInt8 := b.data[x]?.getD 0

/-- The string at `dbm.filename`, as `strcmp` reads it. -/
def name (b : Block) : CStr := .ofMemory b.bytes

/-- `strcpy(block->dbm.filename, s)`: a string of 256 bytes or more runs on into the
fields behind the name. -/
def strcpyFilename (b : Block) (s : CStr) : Block :=
  if s.length < 256 then
    { b with dbm.filename := .ofFn fun i => (s.bytes ++ [0]).getD i b.dbm.filename[i] }
  else ofBytes (s.bytes ++ 0 :: b.bytes.drop (s.length + 1))

section strcpy

variable (b : Block) {s : CStr} (hs : s.length ≤ MAX_FILENAME)
include hs

lemma strcpyFilename_short : b.strcpyFilename s =
    { b with dbm.filename := .ofFn fun i => (s.bytes ++ [0]).getD i b.dbm.filename[i] } :=
  if_pos (Nat.lt_succ_of_le hs)

lemma rest_strcpyFilename : (b.strcpyFilename s).rest = b.rest := by
  rw [strcpyFilename_short b hs]; simp only [rest]

lemma filename_strcpyFilename : (b.strcpyFilename s).dbm.filename.toList =
    (s.bytes ++ [0]) ++ b.dbm.filename.toList.drop (s.length + 1) := by
  have hl : s.bytes.length < 256 := Nat.lt_succ_of_le hs
  rw [strcpyFilename_short b hs]
  apply List.ext_getElem
  · simp [CStr.length]; omega
  · intro i h1 h2
    rw [List.getElem_append]
    split
    · rename_i h3
      simp [List.getElem?_eq_getElem h3]
    · rename_i h3
      have h4 : s.length + 1 ≤ i := by simpa [CStr.length] using h3
      have h5 : s.length + 1 + (i - (s.length + 1)) = i := by omega
      simp [CStr.length] at h4 h5
      simp [CStr.length, h4, h5]

lemma name_strcpyFilename : (b.strcpyFilename s).name = s := by
  have hmem : (b.strcpyFilename s).bytes =
      s.bytes ++ 0 :: (b.dbm.filename.toList.drop (s.length + 1) ++ b.rest) := by
    rw [bytes, filename_strcpyFilename b hs, rest_strcpyFilename b hs]
    simp only [List.append_assoc, List.cons_append, List.nil_append]
  rw [name, hmem, CStr.ofMemory_append]

end strcpy

end Block

/-! ### The disk -/

structure SuperBlock where
  magicnum : UInt32
  totalblocks : UInt32
  blocksize : UInt32
  bitmap : Vector UInt8 BITMAP_SIZE

/-- The disk file. `beyond` is what lies behind its `BLOCK_NUM` blocks: nothing, until a
block is written there. -/
structure Disk where
  sb : SuperBlock
  blocks : Fin BLOCK_NUM → Block
  beyond : List Block

namespace Disk

/-- The disk with the block `i` replaced. -/
def put (d : Disk) (i : Fin BLOCK_NUM) (b : Block) : Disk :=
  { d with blocks := Function.update d.blocks i b }

@[simp] lemma put_sb (d : Disk) (i : Fin BLOCK_NUM) (b : Block) : (d.put i b).sb = d.sb := rfl

@[simp] lemma put_blocks_self (d : Disk) (i : Fin BLOCK_NUM) (b : Block) :
    (d.put i b).blocks i = b := Function.update_self ..

@[simp] lemma put_blocks_of_ne (d : Disk) {i j : Fin BLOCK_NUM} (b : Block) (h : j ≠ i) :
    (d.put i b).blocks j = d.blocks j := Function.update_of_ne h ..

lemma toNat_lt {pos : ℤ} (h : 0 ≤ pos ∧ pos < BLOCK_NUM) : pos.toNat < BLOCK_NUM := by omega

/-- What a transfer at block `pos` reads over the contents `buf` of its buffer, and where it
leaves the descriptor. Nothing is read at the end of the file. -/
def readAt (d : Disk) (buf : Block) (pos : ℤ) : Block × ℤ :=
  if h : 0 ≤ pos ∧ pos < BLOCK_NUM then (d.blocks ⟨pos.toNat, toNat_lt h⟩, pos + 1)
  else if pos = -1 then (.ofBytes d.sb.bitmap.toList, 0)
  else match d.beyond[(pos - BLOCK_NUM).toNat]? with
    | some b => (b, pos + 1)
    | none => (buf, pos)

/-- The disk after a transfer of `b` to block `pos`. A gap behind the end of the file reads
as zeros. -/
def writeAt (d : Disk) (b : Block) (pos : ℤ) : Disk :=
  if h : 0 ≤ pos ∧ pos < BLOCK_NUM then d.put ⟨pos.toNat, toNat_lt h⟩ b
  else if pos = -1 then
    { d with sb.bitmap := .ofFn fun i => b.bytes.getD i 0 }
  else
    let k := (pos - BLOCK_NUM).toNat
    { d with beyond := d.beyond.take k ++ List.replicate (k - d.beyond.length) (.ofBytes []) ++
        b :: d.beyond.drop (k + 1) }

lemma readAt_fin (d : Disk) (buf : Block) (i : Fin BLOCK_NUM) :
    d.readAt buf (i : ℕ) = (d.blocks i, ((i : ℕ) : ℤ) + 1) := by
  unfold readAt
  rw [dif_pos ⟨by omega, by omega⟩]
  rfl

lemma writeAt_fin (d : Disk) (b : Block) (i : Fin BLOCK_NUM) :
    d.writeAt b (i : ℕ) = d.put i b := by
  unfold writeAt
  rw [dif_pos ⟨by omega, by omega⟩]
  rfl

end Disk

/-! ### Calls -/

inductive Call
  | readSuperBlock
  | writeSuperBlock (sb : SuperBlock)
  /-- `read_block(fd, block_num, block)`, where the buffer holds `buf` before. -/
  | readBlock (blockNum : ℤ) (buf : Block)
  | writeBlock (blockNum : ℤ) (b : Block)
  /-- `time(NULL)` -/
  | time
  /-- An uninitialised variable of type `Block` comes to life. -/
  | newBlock

def Call.Ans : Call → Type
  | .readSuperBlock => SuperBlock
  | .writeSuperBlock _ => Unit
  | .readBlock _ _ => Block
  | .writeBlock _ _ => Unit
  | .time => UInt64
  | .newBlock => Block

/-- What belongs to one handler: where its descriptor stands, in blocks, and what its clock
and its uninitialised variables hold from here on. -/
structure Local where
  pos : ℤ
  clock : ℕ → UInt64
  junk : ℕ → Block

instance : Inhabited Local := ⟨⟨0, fun _ => 0, fun _ => default⟩⟩

/-- `lseek(fd, BLOCK_OFFSET(block_num), SEEK_SET)` -/
def Local.seek (l : Local) (blockNum : ℤ) : Local :=
  if blockNum < -1 then l else { l with pos := blockNum }

def exec : (c : Call) → Disk → Local → c.Ans × Disk × Local
  | .readSuperBlock, d, l => (d.sb, d, { l with pos := 0 })
  | .writeSuperBlock sb, d, l => ((), { d with sb := sb }, { l with pos := 0 })
  | .readBlock n buf, d, l =>
    let r := d.readAt buf (l.seek n).pos
    (r.1, d, { l with pos := r.2 })
  | .writeBlock n b, d, l =>
    let pos := (l.seek n).pos
    ((), d.writeAt b pos, { l with pos := pos + 1 })
  | .time, d, l => (l.clock 0, d, { l with clock := fun k => l.clock (k + 1) })
  | .newBlock, d, l => (l.junk 0, d, { l with junk := fun k => l.junk (k + 1) })

/-- A function of the file system. -/
abbrev Code (α : Type) := Prog Call.Ans α

def readSuperBlock : Code SuperBlock := Prog.perform Call.readSuperBlock
def writeSuperBlock (sb : SuperBlock) : Code Unit := Prog.perform (Call.writeSuperBlock sb)
def readBlock (blockNum : ℤ) (block : Block) : Code Block :=
  Prog.perform (Call.readBlock blockNum block)
def writeBlock (blockNum : ℤ) (block : Block) : Code Unit :=
  Prog.perform (Call.writeBlock blockNum block)
def time : Code UInt64 := Prog.perform Call.time
def newBlock : Code Block := Prog.perform Call.newBlock

end Messaround.Aofs
