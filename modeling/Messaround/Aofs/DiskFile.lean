import Mathlib.Data.UInt
import Messaround.Aofs.Bytes
import Messaround.Aofs.Code
import Messaround.Lib.File

/-!
The disk file as a sequence of bytes.

The superblock and the blocks are places of the file that do not meet, so that reading one
gives what was last written there.
-/

namespace Messaround.Aofs

open Messaround.CInt Messaround.File

/-! ### Memory -/

/-- `sizeof(SuperBlock)` on FreeBSD amd64. -/
abbrev SUPER_BLOCK_SIZE : ℕ := 4108

namespace SuperBlock

/-- The memory of a superblock. -/
def bytes (sb : SuperBlock) : List UInt8 :=
  leBytes 4 sb.magicnum.toNat ++ leBytes 4 sb.totalblocks.toNat ++
    leBytes 4 sb.blocksize.toNat ++ sb.bitmap.toList

/-- The superblock that a stretch of memory holds. -/
def ofBytes (m : List UInt8) : SuperBlock where
  magicnum := .ofNat (leAt m 0 4).toNat
  totalblocks := .ofNat (leAt m 4 4).toNat
  blocksize := .ofNat (leAt m 8 4).toNat
  bitmap := .ofFn fun i => m.getD (12 + i) 0

lemma length_bytes (sb : SuperBlock) : sb.bytes.length = SUPER_BLOCK_SIZE := by
  simp only [bytes, List.length_append, leBytes_length, Vector.length_toList]
  rfl

lemma ofBytes_bytes (sb : SuperBlock) : ofBytes sb.bytes = sb := by
  obtain ⟨magicnum, totalblocks, blocksize, bitmap⟩ := sb
  simp only [ofBytes, mk.injEq]
  refine ⟨?_, ?_, ?_, ?_⟩
  · simp only [bytes, List.append_assoc, Block.uint32_field]
  · simp (disch := simp [leBytes_length]) only [bytes, List.append_assoc, leAt_append,
      leBytes_length, Nat.reduceSub, Block.uint32_field]
  · simp (disch := simp [leBytes_length]) only [bytes, List.append_assoc, leAt_append,
      leBytes_length, Nat.reduceSub, Block.uint32_field]
  · conv_rhs => rw [← Block.vector_field [] bitmap]
    refine congrArg Vector.ofFn (funext fun i => ?_)
    rw [bytes, List.getD_append_right, List.append_nil]
    · congr 1
      simp [leBytes_length]
    · simp [leBytes_length]

end SuperBlock

lemma Block.length_bytes (b : Block) : b.bytes.length = BLOCK_SIZE := by
  simp only [bytes, rest, List.length_append, leBytes_length, Vector.length_toList,
    List.length_cons, List.length_nil]
  rfl

/-! ### Offsets -/

abbrev SUPER_BLOCK_OFFSET : ℤ := 0

/-- `sizeof(SuperBlock) + (block_num*sizeof(Block))`, a `size_t`, as the `off_t` of `lseek`. -/
def BLOCK_OFFSET (block_num : ℤ) : ℤ :=
  toLong (toULong (SUPER_BLOCK_SIZE + toULong (toULong block_num * BLOCK_SIZE)))

lemma BLOCK_OFFSET_eq {n : ℤ} (h1 : -2 ^ 31 ≤ n) (h2 : n < 2 ^ 31) :
    BLOCK_OFFSET n = SUPER_BLOCK_SIZE + n * BLOCK_SIZE := by
  simp only [BLOCK_OFFSET, toLong, toULong, SUPER_BLOCK_SIZE, BLOCK_SIZE, Nat.cast_ofNat]
  omega

/-! ### The file -/

namespace DiskFile

/-- `read_super_block`: the number of bytes read, `*sb`, and the descriptor. -/
def readSuperBlock (fd : Fd UInt8) (sb : SuperBlock) : ℕ × SuperBlock × Fd UInt8 :=
  let r := (fd.lseek SUPER_BLOCK_OFFSET).read sb.bytes
  (r.1, .ofBytes r.2.1, r.2.2)

def writeSuperBlock (fd : Fd UInt8) (sb : SuperBlock) : ℕ × Fd UInt8 :=
  (fd.lseek SUPER_BLOCK_OFFSET).write sb.bytes

/-- `read_block`: the number of bytes read, `*block`, and the descriptor. -/
def readBlock (fd : Fd UInt8) (blockNum : ℤ) (block : Block) : ℕ × Block × Fd UInt8 :=
  let r := (fd.lseek (BLOCK_OFFSET blockNum)).read block.bytes
  (r.1, .ofBytes r.2.1, r.2.2)

def writeBlock (fd : Fd UInt8) (blockNum : ℤ) (block : Block) : ℕ × Fd UInt8 :=
  (fd.lseek (BLOCK_OFFSET blockNum)).write block.bytes

/-- The loop of `read_fs` at block `b`, with `todo` blocks left. To read behind the last block
of `fs` is undefined. -/
def readBlocks : (todo b : ℕ) → AOFS → Fd UInt8 → Option AOFS
  | 0, _, fs, _ => some fs
  | todo + 1, b, fs, disk =>
    if h : b < BLOCK_NUM then
      let r := (disk.lseek (BLOCK_OFFSET b)).read (fs.blocks ⟨b, h⟩).bytes
      readBlocks todo (b + 1)
        { fs with blocks := Function.update fs.blocks ⟨b, h⟩ (.ofBytes r.2.1) } r.2.2
    else none

/-- The return value and `*fs`. The file is absent where it could not be opened. -/
def readFs (file : Option (List UInt8)) (fs : AOFS) : Option (ℤ × AOFS) :=
  match file with
  | none => some (-1, fs)
  | some bytes => do
    let r := ((Fd.mk bytes 0).lseek SUPER_BLOCK_OFFSET).read fs.sb.bytes
    let fs := { fs with sb := .ofBytes r.2.1 }
    let fs ← readBlocks fs.sb.totalblocks.toNat 0 fs r.2.2
    return (0, fs)

/-- The loop of `write_fs`. -/
def writeBlocks (fs : AOFS) : (todo b : ℕ) → Fd UInt8 → Option (Fd UInt8)
  | 0, _, disk => some disk
  | todo + 1, b, disk =>
    if h : b < BLOCK_NUM then
      writeBlocks fs todo (b + 1)
        ((disk.lseek (BLOCK_OFFSET b)).write (fs.blocks ⟨b, h⟩).bytes).2
    else none

/-- The return value and the file. -/
def writeFs (file : Option (List UInt8)) (fs : AOFS) : Option (ℤ × Option (List UInt8)) :=
  match file with
  | none => some (-1, none)
  | some bytes => do
    let disk := (((Fd.mk bytes 0).lseek SUPER_BLOCK_OFFSET).write fs.sb.bytes).2
    let disk ← writeBlocks fs fs.sb.totalblocks.toNat 0 disk
    return (0, some disk.file)

/-! ### Calls -/

/-- A call of one of the single routines. A reading one is given its buffer. -/
inductive Access
  | readSuperBlock (sb : SuperBlock)
  | writeSuperBlock (sb : SuperBlock)
  | readBlock (b : Fin BLOCK_NUM) (block : Block)
  | writeBlock (b : Fin BLOCK_NUM) (block : Block)

namespace Access

/-- The call on the file. -/
def perform (fd : Fd UInt8) : Access → Fd UInt8
  | .readSuperBlock sb => (DiskFile.readSuperBlock fd sb).2.2
  | .writeSuperBlock sb => (DiskFile.writeSuperBlock fd sb).2
  | .readBlock b block => (DiskFile.readBlock fd b block).2.2
  | .writeBlock b block => (DiskFile.writeBlock fd b block).2

/-- The call on the array of blocks. -/
def apply (fs : AOFS) : Access → AOFS
  | .readSuperBlock _ => fs
  | .writeSuperBlock sb => { fs with sb := sb }
  | .readBlock _ _ => fs
  | .writeBlock b block => { fs with blocks := Function.update fs.blocks b block }

/-- The fields of a block that is written hold values of their types. -/
def InRange : Access → Prop
  | .writeBlock _ block => block.InRange
  | _ => True

end Access

/-! ### The places of the file -/

inductive Place
  | superBlock
  | block (b : Fin BLOCK_NUM)
  deriving DecidableEq

/-- The superblock and the blocks do not meet. -/
def places : Places Place where
  offset
    | .superBlock => 0
    | .block b => SUPER_BLOCK_SIZE + b * BLOCK_SIZE
  size
    | .superBlock => SUPER_BLOCK_SIZE
    | .block _ => BLOCK_SIZE
  apart p q hpq := by
    cases p with
    | superBlock =>
      cases q with
      | superBlock => exact absurd rfl hpq
      | block c => dsimp only; omega
    | block b =>
      cases q with
      | superBlock => dsimp only; omega
      | block c =>
        have hbc : (b : ℕ) ≠ c := fun h => hpq (congrArg Place.block (Fin.ext h))
        dsimp only [SUPER_BLOCK_SIZE, BLOCK_SIZE]
        omega

lemma SUPER_BLOCK_OFFSET_eq : SUPER_BLOCK_OFFSET = (places.offset .superBlock : ℕ) := rfl

lemma BLOCK_OFFSET_fin (b : Fin BLOCK_NUM) :
    BLOCK_OFFSET (b : ℕ) = (places.offset (.block b) : ℕ) := by
  have hb := b.isLt
  simp only [BLOCK_NUM] at hb
  rw [BLOCK_OFFSET_eq (by omega) (by omega)]
  simp only [places, SUPER_BLOCK_SIZE, BLOCK_SIZE, Nat.cast_add, Nat.cast_mul]

/-- The bytes that an image has at a place. -/
def memory (fs : AOFS) : Place → List UInt8
  | .superBlock => fs.sb.bytes
  | .block b => (fs.blocks b).bytes

/-- The places that a call writes. -/
def Access.writes : Access → Set Place
  | .readSuperBlock _ => ∅
  | .writeSuperBlock _ => {.superBlock}
  | .readBlock _ _ => ∅
  | .writeBlock b _ => {.block b}

/-- The file holds the superblock and the blocks of `fs` at the places `s`. -/
abbrev Stores (file : List UInt8) (s : Set Place) (fs : AOFS) : Prop :=
  places.Holds file s (memory fs)

/-! ### What the calls do to the places -/

section writes

variable {fd : Fd UInt8}

lemma writeSuperBlock_file (sb : SuperBlock) : (writeSuperBlock fd sb).2.file =
    patch fd.file (places.offset .superBlock) sb.bytes := by
  rw [writeSuperBlock, SUPER_BLOCK_OFFSET_eq, Fd.write_seek]

lemma writeBlock_file (b : Fin BLOCK_NUM) (block : Block) : (writeBlock fd (b : ℕ) block).2.file =
    patch fd.file (places.offset (.block b)) block.bytes := by
  rw [writeBlock, BLOCK_OFFSET_fin, Fd.write_seek]

lemma readSuperBlock_file (sb : SuperBlock) : (readSuperBlock fd sb).2.2.file = fd.file := by
  rw [readSuperBlock, Fd.read_file, Fd.lseek_file]

lemma readBlock_file (n : ℤ) (block : Block) : (readBlock fd n block).2.2.file = fd.file := by
  rw [readBlock, Fd.read_file, Fd.lseek_file]

lemma extract_perform {c : Access} {p : Place} (hp : p ∉ c.writes)
    (hle : places.offset p + places.size p ≤ fd.file.length) :
    extract (c.perform fd).file (places.offset p) (places.size p) =
      extract fd.file (places.offset p) (places.size p) := by
  cases c with
  | readSuperBlock sb => rw [Access.perform, readSuperBlock_file]
  | writeSuperBlock sb =>
    rw [Access.perform, writeSuperBlock_file, places.extract_patch hp hle sb.length_bytes]
  | readBlock b block => rw [Access.perform, readBlock_file]
  | writeBlock b block =>
    rw [Access.perform, writeBlock_file, places.extract_patch hp hle block.length_bytes]

end writes

section stores

variable {fd : Fd UInt8} {s : Set Place} {fs : AOFS}

lemma Stores.writeSuperBlock (h : Stores fd.file s fs) (sb : SuperBlock) :
    Stores (DiskFile.writeSuperBlock fd sb).2.file (insert .superBlock s) { fs with sb := sb } := by
  have hm : memory { fs with sb := sb } = Function.update (memory fs) .superBlock sb.bytes := by
    funext p
    cases p with
    | superBlock => rw [Function.update_self]; rfl
    | block b => rw [Function.update_of_ne (by simp)]; rfl
  rw [Stores, hm, writeSuperBlock_file]
  exact h.patch sb.length_bytes

lemma Stores.writeBlock (h : Stores fd.file s fs) (b : Fin BLOCK_NUM) (block : Block) :
    Stores (DiskFile.writeBlock fd (b : ℕ) block).2.file (insert (.block b) s)
      { fs with blocks := Function.update fs.blocks b block } := by
  have hm : memory { fs with blocks := Function.update fs.blocks b block } =
      Function.update (memory fs) (.block b) block.bytes := by
    funext p
    cases p with
    | superBlock => rw [Function.update_of_ne (by simp)]; rfl
    | block c =>
      by_cases hc : c = b
      · simp only [hc, memory, Function.update_self]
      · simp only [memory, ne_eq, Place.block.injEq, hc, not_false_eq_true, Function.update_of_ne]
  rw [Stores, hm, writeBlock_file]
  exact h.patch block.length_bytes

lemma Stores.readSuperBlock (h : Stores fd.file s fs) (hs : .superBlock ∈ s) (sb : SuperBlock) :
    (DiskFile.readSuperBlock fd sb).1 = SUPER_BLOCK_SIZE ∧
      (DiskFile.readSuperBlock fd sb).2.1 = fs.sb := by
  rw [DiskFile.readSuperBlock, SUPER_BLOCK_OFFSET_eq, h.read hs sb.length_bytes]
  exact ⟨rfl, fs.sb.ofBytes_bytes⟩

lemma Stores.readBlock (h : Stores fd.file s fs) {b : Fin BLOCK_NUM} (hb : .block b ∈ s)
    (hr : (fs.blocks b).InRange) (block : Block) :
    (DiskFile.readBlock fd (b : ℕ) block).1 = BLOCK_SIZE ∧
      (DiskFile.readBlock fd (b : ℕ) block).2.1 = fs.blocks b := by
  rw [DiskFile.readBlock, BLOCK_OFFSET_fin, h.read hb block.length_bytes]
  exact ⟨rfl, Block.ofBytes_bytes hr⟩

/-- **One call**: the file follows the array of blocks. -/
lemma Stores.perform (h : Stores fd.file s fs) (c : Access) :
    Stores (c.perform fd).file (c.writes ∪ s) (c.apply fs) := by
  cases c with
  | readSuperBlock sb =>
    rw [Access.perform, readSuperBlock_file, Access.writes, Set.empty_union]
    exact h
  | writeSuperBlock sb =>
    rw [Access.writes, Set.singleton_union]
    exact h.writeSuperBlock sb
  | readBlock b block =>
    rw [Access.perform, readBlock_file, Access.writes, Set.empty_union]
    exact h
  | writeBlock b block =>
    rw [Access.writes, Set.singleton_union]
    exact h.writeBlock b block

end stores

/-! ### Runs -/

/-- The places that some call of a sequence writes. -/
def written (cs : List Access) : Set Place := {p | ∃ c ∈ cs, p ∈ c.writes}

/-- The fields of all blocks hold values of their types. -/
def InRange (fs : AOFS) : Prop := ∀ b, (fs.blocks b).InRange

lemma InRange.apply {fs : AOFS} (h : InRange fs) {c : Access} (hc : c.InRange) :
    InRange (c.apply fs) := by
  intro b
  cases c with
  | writeBlock b' block =>
    by_cases hb : b = b'
    · simp only [Access.apply, hb, Function.update_self]
      exact hc
    · simp only [Access.apply, ne_eq, hb, not_false_eq_true, Function.update_of_ne]
      exact h b
  | _ => exact h b

/-- **A sequence of calls**: the file follows the array of blocks. -/
theorem Stores.run {fd : Fd UInt8} {s : Set Place} {fs : AOFS} (h : Stores fd.file s fs)
    (cs : List Access) : Stores (cs.foldl Access.perform fd).file (written cs ∪ s)
      (cs.foldl Access.apply fs) := by
  induction cs generalizing fd s fs with
  | nil => exact h.mono fun p hp => hp.resolve_left fun ⟨c, hc, _⟩ => by cases hc
  | cons c cs ih =>
    refine (ih (h.perform c)).mono fun p hp => ?_
    rcases hp with ⟨c', hc', hw⟩ | hp
    · rcases List.mem_cons.mp hc' with rfl | hc'
      · exact Or.inr (Or.inl hw)
      · exact Or.inl ⟨c', hc', hw⟩
    · exact Or.inr (Or.inr hp)

lemma InRange.run {fs : AOFS} (h : InRange fs) {cs : List Access} (hcs : ∀ c ∈ cs, c.InRange) :
    InRange (cs.foldl Access.apply fs) := by
  induction cs generalizing fs with
  | nil => exact h
  | cons c cs ih =>
    exact ih (h.apply (hcs c List.mem_cons_self)) fun c' hc' => hcs c' (List.mem_cons_of_mem _ hc')

/-! ### The whole image -/

/-- The superblock, and the blocks below `n`. -/
def below (n : ℕ) : Set Place := {p | ∀ b, p = .block b → (b : ℕ) < n}

section loops

variable {fs : AOFS} {disk : Fd UInt8} {todo b : ℕ}

/-- The loops of `write_fs` and `read_fs` do what the routines for one block do. -/
lemma writeBlocks_succ (hb : b < BLOCK_NUM) : writeBlocks fs (todo + 1) b disk =
    writeBlocks fs todo (b + 1) (writeBlock disk b (fs.blocks ⟨b, hb⟩)).2 := by
  rw [writeBlocks, dif_pos hb]
  rfl

lemma readBlocks_succ (hb : b < BLOCK_NUM) : readBlocks (todo + 1) b fs disk =
    let r := readBlock disk b (fs.blocks ⟨b, hb⟩)
    readBlocks todo (b + 1) ⟨fs.sb, Function.update fs.blocks ⟨b, hb⟩ r.2.1⟩ r.2.2 := by
  rw [readBlocks, dif_pos hb]
  rfl

lemma stores_writeBlocks (hb : b + todo ≤ BLOCK_NUM) (h : Stores disk.file (below b) fs) :
    ∃ disk', writeBlocks fs todo b disk = some disk' ∧
      Stores disk'.file (below (b + todo)) fs := by
  induction todo generalizing b disk with
  | zero => exact ⟨disk, rfl, h⟩
  | succ todo ih =>
    have hlt : b < BLOCK_NUM := by omega
    have hstep := h.writeBlock ⟨b, hlt⟩ (fs.blocks ⟨b, hlt⟩)
    rw [Function.update_eq_self] at hstep
    have hsub : below (b + 1) ⊆ insert (.block ⟨b, hlt⟩) (below b) := by
      intro p hp
      by_cases hpb : p = .block ⟨b, hlt⟩
      · exact Or.inl hpb
      · refine Or.inr fun c hc => ?_
        have hne : (c : ℕ) ≠ b := fun hcb => hpb (hc.trans (congrArg Place.block (Fin.ext hcb)))
        exact Nat.lt_of_le_of_ne (Nat.le_of_lt_succ (hp c hc)) hne
    obtain ⟨disk', hr, hs⟩ := ih (by omega) (hstep.mono hsub)
    rw [writeBlocks_succ hlt]
    exact ⟨disk', hr, by rwa [Nat.add_right_comm] at hs⟩

lemma readBlocks_eq {fs' : AOFS} {n : ℕ} (hb : b + todo ≤ n) (hn : n ≤ BLOCK_NUM)
    (h : Stores disk.file (below n) fs) (hr : InRange fs) :
    readBlocks todo b fs' disk = some { fs' with blocks := fun c =>
      if b ≤ (c : ℕ) ∧ (c : ℕ) < b + todo then fs.blocks c else fs'.blocks c } := by
  induction todo generalizing b fs' disk with
  | zero =>
    have hnone : ∀ c : Fin BLOCK_NUM, ¬ (b ≤ (c : ℕ) ∧ (c : ℕ) < b + 0) := fun c => by omega
    simp only [readBlocks, hnone, if_false]
  | succ todo ih =>
    have hlt : b < BLOCK_NUM := by omega
    have hin : .block ⟨b, hlt⟩ ∈ below n := fun c hc => by
      obtain rfl := Place.block.inj hc
      exact Nat.lt_of_lt_of_le (Nat.lt_add_of_pos_right (Nat.succ_pos _)) hb
    have hblock : (readBlock disk b (fs'.blocks ⟨b, hlt⟩)).2.1 = fs.blocks ⟨b, hlt⟩ :=
      (h.readBlock hin (hr _) _).2
    have h' : Stores (readBlock disk b (fs'.blocks ⟨b, hlt⟩)).2.2.file (below n) fs := by
      rwa [readBlock_file]
    refine (readBlocks_succ hlt).trans ((ih (by omega) h').trans ?_)
    rw [hblock]
    congr 2
    funext c
    change (if _ then _ else Function.update fs'.blocks ⟨b, hlt⟩ (fs.blocks ⟨b, hlt⟩) c) = _
    by_cases hc : (c : ℕ) = b
    · obtain rfl : c = ⟨b, hlt⟩ := Fin.ext hc
      rw [Function.update_self, ite_self, if_pos ⟨le_rfl, by omega⟩]
    · have hne : c ≠ ⟨b, hlt⟩ := fun hcb => hc (congrArg Fin.val hcb)
      rw [Function.update_of_ne hne]
      refine if_congr ?_ rfl rfl
      omega

end loops

lemma writeFs_some (file : List UInt8) (fs : AOFS) : writeFs (some file) fs =
    (writeBlocks fs fs.sb.totalblocks.toNat 0 (writeSuperBlock ⟨file, 0⟩ fs.sb).2).bind
      fun disk => some (0, some disk.file) := rfl

lemma readFs_some (file : List UInt8) (fs : AOFS) : readFs (some file) fs =
    (readBlocks (readSuperBlock ⟨file, 0⟩ fs.sb).2.1.totalblocks.toNat 0
      { fs with sb := (readSuperBlock ⟨file, 0⟩ fs.sb).2.1 }
        (readSuperBlock ⟨file, 0⟩ fs.sb).2.2).bind fun fs => some (0, fs) := rfl

lemma exists_writeFs (file : List UInt8) {fs : AOFS} (ht : fs.sb.totalblocks.toNat ≤ BLOCK_NUM) :
    ∃ image, writeFs (some file) fs = some (0, some image) ∧
      Stores image (below fs.sb.totalblocks.toNat) fs := by
  have hempty : Stores (Fd.mk file 0).file ∅ fs := fun p hp => hp.elim
  have hsb : below 0 ⊆ insert .superBlock ∅ := by
    intro p hp
    cases p with
    | superBlock => exact Or.inl rfl
    | block b => exact absurd (hp b rfl) (Nat.not_lt_zero _)
  have hstart : Stores (writeSuperBlock ⟨file, 0⟩ fs.sb).2.file (below 0) fs :=
    (hempty.writeSuperBlock fs.sb).mono hsb
  have hle : 0 + fs.sb.totalblocks.toNat ≤ BLOCK_NUM := by rwa [zero_add]
  obtain ⟨disk, hr, hs⟩ := stores_writeBlocks hle hstart
  rw [zero_add] at hs
  exact ⟨disk.file, by rw [writeFs_some, hr, Option.bind_some], hs⟩

lemma readFs_eq {image : List UInt8} {fs fs' : AOFS} (ht : fs.sb.totalblocks.toNat = BLOCK_NUM)
    (h : Stores image (below BLOCK_NUM) fs) (hr : InRange fs) :
    readFs (some image) fs' = some (0, fs) := by
  have hin : .superBlock ∈ below BLOCK_NUM := fun b hb => by cases hb
  have h0 : Stores (Fd.mk image 0).file (below BLOCK_NUM) fs := h
  have hsb := (h0.readSuperBlock hin fs'.sb).2
  have hall : ∀ c : Fin BLOCK_NUM, 0 ≤ (c : ℕ) ∧ (c : ℕ) < 0 + BLOCK_NUM := fun c =>
    ⟨Nat.zero_le _, by rw [zero_add]; exact c.isLt⟩
  rw [readFs_some, hsb, ht, readBlocks_eq (by rw [zero_add]) le_rfl
    (by rwa [readSuperBlock_file]) hr, Option.bind_some]
  simp only [hall, and_self, if_true]

/-- Each place in `s` is read whole and with the contents it has in `fs`. -/
structure Reads (fd : Fd UInt8) (s : Set Place) (fs : AOFS) : Prop where
  superBlock : .superBlock ∈ s → ∀ sb, (readSuperBlock fd sb).1 = SUPER_BLOCK_SIZE ∧
    (readSuperBlock fd sb).2.1 = fs.sb
  block : ∀ b : Fin BLOCK_NUM, .block b ∈ s → ∀ block,
    (readBlock fd (b : ℕ) block).1 = BLOCK_SIZE ∧ (readBlock fd (b : ℕ) block).2.1 = fs.blocks b

lemma Stores.reads {fd : Fd UInt8} {s : Set Place} {fs : AOFS} (h : Stores fd.file s fs)
    (hr : InRange fs) : Reads fd s fs :=
  ⟨fun hs sb => h.readSuperBlock hs sb, fun b hb block => h.readBlock hb (hr b) block⟩

/-- **The file refines the array of blocks**: behind `write_fs`, whatever calls were made, each
place that was written is read as it was written last, and a call changes no place but its own;
and `read_fs` fetches what `write_fs` stored. -/
theorem refines_blocks (file : List UInt8) {fs : AOFS}
    (ht : fs.sb.totalblocks.toNat ≤ BLOCK_NUM) (hr : InRange fs) :
    ∃ image, writeFs (some file) fs = some (0, some image) ∧
      (∀ (cs : List Access) (pos : ℕ), (∀ c ∈ cs, c.InRange) →
        Reads (cs.foldl Access.perform ⟨image, pos⟩)
          (written cs ∪ below fs.sb.totalblocks.toNat) (cs.foldl Access.apply fs) ∧
        ∀ (c : Access) (p : Place), p ∈ written cs ∪ below fs.sb.totalblocks.toNat → p ∉ c.writes →
          extract (c.perform (cs.foldl Access.perform ⟨image, pos⟩)).file
              (places.offset p) (places.size p) =
            extract (cs.foldl Access.perform ⟨image, pos⟩).file
              (places.offset p) (places.size p)) ∧
      (fs.sb.totalblocks.toNat = BLOCK_NUM → ∀ fs', readFs (some image) fs' = some (0, fs)) := by
  obtain ⟨image, hw, hs⟩ := exists_writeFs file ht
  refine ⟨image, hw, fun cs pos hcs => ?_, fun hall fs' => ?_⟩
  · have h0 : Stores (Fd.mk image pos).file (below fs.sb.totalblocks.toNat) fs := hs
    have hrun := h0.run cs
    exact ⟨hrun.reads (hr.run hcs), fun c p hp hc => extract_perform hc (hrun p hp).1⟩
  · exact readFs_eq hall (hall ▸ hs) hr

/-- An image with no files. -/
def noFiles : AOFS :=
  ⟨⟨MAGICNUM, .ofNat BLOCK_NUM, .ofNat BLOCK_SIZE, .replicate BITMAP_SIZE 0⟩, fun _ => default⟩

theorem refines_blocks_noFiles : ∃ image, writeFs (some []) noFiles = some (0, some image) ∧
    (∀ block : Block, block.InRange →
      Reads ([Access.writeBlock 5 block].foldl Access.perform ⟨image, 0⟩)
        (written [.writeBlock 5 block] ∪ below BLOCK_NUM)
        ([Access.writeBlock 5 block].foldl Access.apply noFiles)) ∧
    readFs (some image) noFiles = some (0, noFiles) := by
  have ht : noFiles.sb.totalblocks.toNat = BLOCK_NUM := rfl
  have hr : InRange noFiles := fun _ => Block.inRange_ofBytes []
  obtain ⟨image, hw, hrun, hread⟩ := refines_blocks [] ht.le hr
  refine ⟨image, hw, fun block hb => ?_, hread ht noFiles⟩
  have h := (hrun [.writeBlock 5 block] 0 fun c hc => by
    rw [List.mem_singleton.mp hc]
    exact hb).1
  rwa [ht] at h

end DiskFile

end Messaround.Aofs
