import Mathlib.Data.Fin.Basic
import Mathlib.Data.List.FinRange
import Messaround.Aofs.Bitmap
import Messaround.Aofs.Disk

/-!
The functions of `aofs.c`.

Each is a tree of calls; the C variables are the arguments of the loops. A loop that C
leaves only on a condition on the disk takes a budget and is stuck when it is used up.
What the functions print is left out, and the reads of `print_aofs` are kept.
-/

namespace Messaround.Aofs

open Messaround.CInt

abbrev ENOENT : ℤ := 2

/-- The empty string. -/
def CStr.empty : CStr := ⟨[], by simp⟩

/-! ### Blocks -/

def clearBlock (block : Block) : Code Block := do
  let block := block.strcpyFilename .empty
  let block := { block with dbm.next := -1, dbm.head := 0 }
  let block := { block with dbm.st_atim := ← time }
  let block := { block with dbm.st_mtim := ← time }
  let block := { block with dbm.st_ctim := ← time }
  let block := { block with dbm.st_birthtim := ← time }
  return { block with
    dbm.st_size := 0
    dbm.st_blocks := 0
    dbm.st_blksize := BLOCK_DATA
    dbm.st_flags := 0
    data := .replicate BLOCK_DATA 0 }

def allocateBlock : Code ℤ := do
  let sb ← readSuperBlock
  let blockNum := findFreeBit sb.bitmap (toInt sb.totalblocks.toNat)
  if blockNum = -1 then
    return -1
  writeSuperBlock { sb with bitmap := (setBit sb.bitmap blockNum.toNat).2 }
  let b ← clearBlock (← newBlock)
  let b := { b with dbm.st_atim := ← time }
  let b := { b with dbm.st_mtim := ← time }
  let b := { b with dbm.st_ctim := ← time }
  let b := { b with dbm.st_birthtim := ← time }
  writeBlock blockNum b
  return blockNum

def deallocateBlock (blockNum : ℤ) : Code ℤ := do
  if blockNum < 0 then
    return blockNum
  let sb ← readSuperBlock
  let b ← readBlock blockNum (← newBlock)
  let n := b.dbm.next
  let b ← clearBlock b
  writeBlock blockNum b
  writeSuperBlock { sb with bitmap := (clearBit sb.bitmap blockNum.toNat).2 }
  return n

def aofsCreateFile (filename : CStr) : Code ℤ := do
  let blockNum ← allocateBlock
  if blockNum = -1 then
    return -1
  let b ← clearBlock (← newBlock)
  let b := b.strcpyFilename filename
  let b := { b with dbm.head := 1 }
  writeBlock blockNum b
  return blockNum

/-- The loop of `aofs_find_file_head`, with `todo` blocks left to look at. -/
def findLoop (bitmap : Vector UInt8 BITMAP_SIZE) (filename : CStr) (block : Block) :
    (todo blockNum : ℕ) → (b : Block) → Code (ℤ × Block)
  | 0, _, _ => return (-1, block)
  | todo + 1, blockNum, b => do
    if bitAt bitmap blockNum ≠ 0 then
      let b ← readBlock blockNum b
      if b.dbm.head ≠ 0 ∧ b.name = filename then
        return (blockNum, b)
      else
        findLoop bitmap filename block todo (blockNum + 1) b
    else
      findLoop bitmap filename block todo (blockNum + 1) b

/-- The number of the head block and the contents of `*block`. -/
def aofsFindFileHead (filename : CStr) (block : Block) : Code (ℤ × Block) := do
  let sb ← readSuperBlock
  findLoop sb.bitmap filename block BLOCK_NUM 0 (← newBlock)

def deleteChain : (fuel : ℕ) → (blockidx : ℤ) → Code Unit
  | fuel, blockidx =>
    if blockidx = -1 then return ()
    else match fuel with
      | 0 => .stuck
      | fuel + 1 => do
        let n ← deallocateBlock blockidx
        deleteChain fuel n

def printLoop (bitmap : Vector UInt8 BITMAP_SIZE) : (todo b : ℕ) → (block : Block) → Code Unit
  | 0, _, _ => return ()
  | todo + 1, b, block => do
    if bitAt bitmap b ≠ 0 then
      let block ← readBlock b block
      printLoop bitmap todo (b + 1) block
    else
      printLoop bitmap todo (b + 1) block

def printAofs : Code Unit := do
  let sb ← readSuperBlock
  printLoop sb.bitmap sb.totalblocks.toNat 0 (← newBlock)

/-! ### Writing -/

/-- The block with `n` bytes of `buf` copied to its data from `offset` on. -/
def Block.fill (block : Block) (buf : ℕ → UInt8) (offset n : ℤ) : Block :=
  { block with data := .ofFn fun i =>
      if offset ≤ (i : ℕ) ∧ (i : ℕ) < offset + n then buf ((i : ℕ) - offset).toNat
      else block.data[i] }

/-- The number of bytes written and the contents of `*block`. -/
def writeToBlock (buf : ℕ → UInt8) (block : Block) (bytesToWrite offset : ℤ) : ℤ × Block :=
  let offset := toLong offset
  if BLOCK_DATA < toULong offset then (BLOCK_DATA, block)
  else
    let offset := if offset < 0 then 0 else offset
    let bytesToWrite :=
      if BLOCK_DATA < toULong (bytesToWrite + offset) then toInt (BLOCK_DATA - offset)
      else bytesToWrite
    (bytesToWrite, block.fill buf offset bytesToWrite)

lemma writeToBlock_progress (buf : ℕ → UInt8) (block : Block) {bytesToWrite offset : ℤ}
    (hb : 0 < bytesToWrite) (ho : ¬ BLOCK_DATA < toULong offset) :
    0 < (writeToBlock buf block bytesToWrite offset).1 ∨
      (writeToBlock buf block bytesToWrite offset).1 = 0 ∧ toULong offset = BLOCK_DATA := by
  have hr : toLong offset = toULong offset := toLong_eq_toULong (by
    simp only [BLOCK_DATA, Nat.cast_ofNat] at ho; omega)
  have h0 := (toULong_range offset).1
  simp only [writeToBlock, toULong_toLong, if_neg ho]
  rw [hr, if_neg (not_lt.mpr h0)]
  simp only [BLOCK_DATA, Nat.cast_ofNat] at ho ⊢
  split
  · rw [toInt_of_range (by omega) (by omega)]; omega
  · exact Or.inl hb

/-- A block must be added to the chain when `left` bytes are still to write and this one is
the last. The results are `*block` and `*next_block`. -/
def linkNext (filename : CStr) (left : ℤ) (block nextBlock : Block) : Code (Block × Block) :=
  if 0 < left ∧ block.dbm.next = -1 then do
    let b ← allocateBlock
    let block := { block with dbm.next := b }
    let nextBlock ← readBlock b nextBlock
    return (block, nextBlock.strcpyFilename filename)
  else do
    let nextBlock ← readBlock block.dbm.next nextBlock
    return (block, nextBlock)

/-- Timestamp the block and store it. -/
def storeBlock (blockNum : ℤ) (block : Block) : Code Unit := do
  let block := { block with dbm.st_mtim := ← time }
  let block := { block with dbm.st_atim := ← time }
  let block := { block with dbm.st_ctim := ← time }
  writeBlock blockNum block

/-- The main loop of `aofs_write_file`; `buf` is what its pointer points at. -/
def writeLoop (filename : CStr) (buf : ℕ → UInt8) (bytesToWrite offset blockNum bytesWritten : ℤ)
    (block nextBlock : Block) : Code ℤ :=
  if _hb : 0 < bytesToWrite then
    if _ho : BLOCK_DATA < toULong offset then do
      let block' ← readBlock block.dbm.next block
      writeLoop filename buf bytesToWrite (toLong (offset - BLOCK_DATA)) block.dbm.next
        bytesWritten block' nextBlock
    else do
      let wr := (writeToBlock buf block bytesToWrite offset).1
      let r ← linkNext filename (bytesToWrite - wr)
        (writeToBlock buf block bytesToWrite offset).2 nextBlock
      storeBlock blockNum r.1
      writeLoop filename (fun k => buf (k + wr.toNat)) (bytesToWrite - wr) 0 r.1.dbm.next
        (bytesWritten + wr) r.2 r.2
  else return bytesWritten
termination_by (bytesToWrite.toNat, (toULong offset).toNat)
decreasing_by
  · refine Prod.Lex.right _ ?_
    have h1 := toULong_sub (by omega) (le_of_lt _ho)
    rw [toULong_toLong, h1]
    simp only [BLOCK_DATA, Nat.cast_ofNat] at _ho ⊢
    omega
  · rcases writeToBlock_progress buf block _hb _ho with h | ⟨h, h'⟩
    · exact Prod.Lex.left _ _ (by omega)
    · rw [h, sub_zero, h']
      exact Prod.Lex.right _ (by decide)

/-- The head block of the file, which is created if it does not exist: its number and the
contents of `*block`. -/
def findOrCreate (filename : CStr) (block : Block) : Code (ℤ × Block) := do
  let r ← aofsFindFileHead filename block
  if r.1 < 0 then
    let blockNum ← aofsCreateFile filename
    let block ← readBlock blockNum r.2
    return (blockNum, block)
  else
    return r

/-- `aofs_write_file` from where the number and the contents of the head block are known. -/
def writeFound (filename : CStr) (buf : ℕ → UInt8) (size offset blockNum : ℤ)
    (block nextBlock : Block) : Code ℤ := do
  let offset := if block.dbm.st_size < offset then block.dbm.st_size else offset
  let block := { block with dbm.st_size := toLong (size + offset) }
  writeBlock blockNum block
  let bytesWritten ← writeLoop filename buf (toInt size) offset blockNum 0 block nextBlock
  printAofs
  return bytesWritten

def aofsWriteFile (filename : CStr) (buf : ℕ → UInt8) (size offset : ℤ) : Code ℤ := do
  let block ← newBlock
  let nextBlock ← newBlock
  let (blockNum, block) ← findOrCreate filename block
  writeFound filename buf size offset blockNum block nextBlock

/-! ### Reading -/

/-- One `memcpy` into the caller's buffer: `bytes` go to `buf + dst` and on. -/
structure Copy where
  dst : ℤ
  bytes : List UInt8

/-- `memcpy(buf + dst, block.data + src, n)`. To copy what lies outside the data of the
block is undefined. -/
def copyOut (block : Block) (src n dst : ℤ) : Code Copy :=
  if 0 ≤ src ∧ src + n ≤ BLOCK_DATA then
    return ⟨dst, (block.data.toList.drop src.toNat).take n.toNat⟩
  else .stuck

/-- The blocks passed to get from `cur` to the first block to read, if the chain has them. -/
def seekStart : (todo : ℕ) → (cur : Block) → Code (Option Block)
  | 0, cur => return some cur
  | todo + 1, cur => do
    let nextBlock := cur.dbm.next
    if nextBlock < 0 then
      return none
    let cur ← readBlock nextBlock cur
    seekStart todo cur

/-- What the middle and the last blocks of a read add: the copies, the number of bytes
read, and the last block, or none where the chain ended and the function has returned. -/
structure Progress where
  cur : Option Block
  bytesRead : ℤ
  copies : List Copy

/-- The loop over the full blocks, at iteration `i` with `todo` left. -/
def readMiddle (blockOffset : ℤ) : (todo i : ℕ) → (cur : Block) → (bytesRead : ℤ) →
    (copies : List Copy) → Code Progress
  | 0, _, cur, bytesRead, copies => return ⟨some cur, bytesRead, copies⟩
  | todo + 1, i, cur, bytesRead, copies => do
    let nextBlock := cur.dbm.next
    if nextBlock < 0 then
      return ⟨none, bytesRead, copies⟩
    let cur ← readBlock nextBlock cur
    let c ← copyOut cur 0 BLOCK_DATA (blockOffset + BLOCK_DATA * i)
    readMiddle blockOffset todo (i + 1) cur (toInt (bytesRead + BLOCK_DATA)) (copies ++ [c])

/-- The full blocks and the last block of a read, behind the first one. -/
def readRest (blockOffset numBlocks sizeL : ℤ) (cur : Block) (bytesRead : ℤ)
    (copies : List Copy) : Code (ℤ × List Copy) := do
  let r ← readMiddle blockOffset (numBlocks - 1).toNat 0 cur bytesRead copies
  match r.cur with
  | none => return (r.bytesRead, r.copies)
  | some cur =>
    if 0 < numBlocks then
      let nextBlock := cur.dbm.next
      if nextBlock < 0 then
        return (r.bytesRead, r.copies)
      let cur ← readBlock nextBlock cur
      let c ← copyOut cur 0 sizeL (blockOffset + BLOCK_DATA * numBlocks)
      return (toInt (r.bytesRead + sizeL), r.copies ++ [c])
    return (r.bytesRead, r.copies)

/-- `aofs_read_file` from where the head block is in `curblock`. -/
def readFound (size offset : ℤ) (cur : Block) : Code (ℤ × List Copy) := do
  let startBlock := toInt (toULong offset / BLOCK_DATA)
  let blockOffset := toInt (offset - startBlock * BLOCK_DATA)
  let numBlocks := toInt (toULong (blockOffset + size - 1) / BLOCK_DATA)
  let sizeF := if numBlocks = 0 then size else toULong (BLOCK_DATA - blockOffset)
  let sizeL := if numBlocks = 0 then 0
    else toULong (size - (sizeF + (numBlocks - 1) * BLOCK_DATA))
  match ← seekStart startBlock.toNat cur with
  | none => return (0, [])
  | some cur =>
    let c ← copyOut cur blockOffset sizeF 0
    readRest blockOffset numBlocks sizeL cur (toInt sizeF) [c]

/-- The return value and the copies made into `buf`, in their order. -/
def aofsReadFile (path : CStr) (size offset : ℤ) : Code (ℤ × List Copy) := do
  let (headBlock, cur) ← aofsFindFileHead path (← newBlock)
  if headBlock = -1 then
    return (-ENOENT, [])
  let cur := { cur with dbm.st_atim := ← time }
  writeBlock headBlock cur
  readFound size offset cur

/-! ### Deleting and truncating -/

def aofsDeleteFile (fuel : ℕ) (path : CStr) : Code ℤ := do
  let (blockidx, _) ← aofsFindFileHead path (← newBlock)
  if blockidx < 0 then
    return -ENOENT
  deleteChain fuel blockidx
  return 0

/-- The block with its data zeroed from `k` on. -/
def Block.zeroFrom (block : Block) (k : ℤ) : Block :=
  { block with data := .ofFn fun i => if k ≤ (i : ℕ) then 0 else block.data[i] }

/-- `newBlocks` steps along the chain: `prev` and `curblock` afterwards. -/
def seekKept : (todo : ℕ) → (prev : ℤ) → (cur : Block) → Code (ℤ × Block)
  | 0, prev, cur => return (prev, cur)
  | todo + 1, _, cur => do
    let cur' ← readBlock cur.dbm.next cur
    seekKept todo cur.dbm.next cur'

/-- To the end of the chain: `prev` and `curblock` afterwards. -/
def seekLast : (fuel : ℕ) → (prev : ℤ) → (cur : Block) → Code (ℤ × Block)
  | fuel, prev, cur =>
    if cur.dbm.next = -1 then return (prev, cur)
    else match fuel with
      | 0 => .stuck
      | fuel + 1 => do
        let cur' ← readBlock cur.dbm.next cur
        seekLast fuel cur.dbm.next cur'

/-- The loop that appends `todo` new blocks; false when a block could not be allocated. -/
def appendBlocks (path : CStr) : (todo : ℕ) → (prev : ℤ) → (cur : Block) → Code Bool
  | 0, _, _ => return true
  | todo + 1, prev, cur => do
    let next ← allocateBlock
    let cur := { cur with dbm.next := next }
    if next = -1 then
      return false
    writeBlock prev cur
    let cur ← readBlock next cur
    let cur ← clearBlock cur
    let cur := cur.strcpyFilename path
    writeBlock next cur
    appendBlocks path todo next cur

/-- The end of `aofs_truncate_file`: the new size goes to the head block. -/
def storeSize (fileHead size : ℤ) (cur : Block) : Code ℤ := do
  let cur ← readBlock fileHead cur
  writeBlock fileHead { cur with dbm.st_size := size }
  printAofs
  return 0

def aofsTruncateFile (fuel : ℕ) (path : CStr) (size : ℤ) : Code ℤ := do
  let (fileHead, cur) ← aofsFindFileHead path (← newBlock)
  if fileHead = -1 then
    return -ENOENT
  let curSize := cur.dbm.st_size
  let curBlocks := toInt (toULong curSize / BLOCK_DATA)
  let newBlocks := toInt (toULong size / BLOCK_DATA)
  let blockOffset := toInt (toULong size % BLOCK_DATA)
  if size < curSize then
    if toInt (curBlocks - newBlocks) ≠ 0 then
      let (prev, cur) ← seekKept newBlocks.toNat fileHead cur
      deleteChain fuel cur.dbm.next
      let cur := { cur with dbm.next := -1 }
      let cur := cur.zeroFrom blockOffset
      writeBlock prev cur
      storeSize fileHead size cur
    else
      storeSize fileHead size cur
  else if curSize < size then
    let diffBlocks := toInt (newBlocks - curBlocks)
    if diffBlocks ≠ 0 then
      let (prev, cur) ← seekLast fuel fileHead cur
      if ← appendBlocks path diffBlocks.toNat prev cur then
        storeSize fileHead size cur
      else
        return -1
    else
      storeSize fileHead size cur
  else
    storeSize fileHead size cur

/-! ### The image -/

/-- What `init_fs` and `write_fs` work on. -/
structure AOFS where
  sb : SuperBlock
  blocks : Fin BLOCK_NUM → Block

def initBlocks : List (Fin BLOCK_NUM) → AOFS → Code AOFS
  | [], fs => return fs
  | iter :: is, fs => do
    let b ← clearBlock (fs.blocks iter)
    initBlocks is { fs with blocks := Function.update fs.blocks iter b }

def initFs (fs : AOFS) : Code AOFS :=
  initBlocks (List.finRange BLOCK_NUM) { fs with
    sb.magicnum := MAGICNUM
    sb.totalblocks := .ofNat BLOCK_NUM
    sb.blocksize := .ofNat BLOCK_SIZE
    sb.bitmap := .replicate BITMAP_SIZE 0 }

def writeBlocks (fs : AOFS) : List (Fin BLOCK_NUM) → Code Unit
  | [] => return ()
  | b :: bs => do
    writeBlock (b : ℕ) (fs.blocks b)
    writeBlocks fs bs

def writeFs (fs : AOFS) : Code Unit := do
  writeSuperBlock fs.sb
  writeBlocks fs ((List.finRange BLOCK_NUM).filter fun b => (b : ℕ) < fs.sb.totalblocks.toNat)

end Messaround.Aofs
