import Messaround.Aofs.Listing
import Messaround.Aofs.RawWrite

/-!
What the file system is for: a store of files by name.

A file is its size and the bytes of all its blocks in one row. The bytes behind the end are part
of it, since `aofs_truncate` and `aofs_write` bring them back. A request that the store does not
answer is one where the code does something else than a store of files: it would create a name
twice, return before all is written, hand out other bytes than those of the file, set a size
that the blocks do not reach, or write in front of the image.
-/

namespace Messaround.Aofs

open Messaround.CInt Messaround.Segment Disk

/-! ### Files -/

structure StoredFile where
  size : ℕ
  bytes : List UInt8

namespace StoredFile

/-- A file as it is created: one block of zeros. -/
def new : StoredFile := ⟨0, List.replicate BLOCK_DATA 0⟩

def blocks (f : StoredFile) : ℕ := f.bytes.length / BLOCK_DATA

def content (f : StoredFile) : List UInt8 := f.bytes.take f.size

/-- The file with `k` blocks of zeros more. -/
def extend (f : StoredFile) (k : ℕ) : StoredFile :=
  { f with bytes := f.bytes ++ List.replicate (k * BLOCK_DATA) 0 }

/-- The blocks that a file of `n` bytes lacks. -/
def lacks (f : StoredFile) (n : ℕ) : ℕ := n ⌈/⌉ BLOCK_DATA - f.blocks

/-- Write `n` bytes from `o` on. The end of what is written becomes the end of the file. -/
def write (f : StoredFile) (buf : ℕ → UInt8) (o n : ℕ) : StoredFile :=
  ⟨o + n, overwrite (f.extend (f.lacks (o + n))).bytes buf o n⟩

/-- A size that is not larger. Where blocks are dropped, the last one that stays is cleared
behind the new end, and where none is, the old bytes stay. -/
def cut (f : StoredFile) (n : ℕ) : StoredFile :=
  if n / BLOCK_DATA = f.size / BLOCK_DATA then { f with size := n }
  else ⟨n, f.bytes.take n ++ List.replicate ((n / BLOCK_DATA + 1) * BLOCK_DATA - n) 0⟩

/-- The blocks that are linked in for a larger size. -/
def missing (f : StoredFile) (n : ℕ) : ℕ := n / BLOCK_DATA - f.size / BLOCK_DATA

/-- The reads that give what the file holds: of a range in the file that lies in a block, or
starts with one and ends in the next; of a range behind the last block; of nothing. -/
def Readable (f : StoredFile) (size offset : ℕ) : Prop :=
  (0 < size ∧ offset + size ≤ f.size ∧ (offset % BLOCK_DATA + size ≤ BLOCK_DATA ∨
    offset % BLOCK_DATA = 0 ∧ size ≤ 2 * BLOCK_DATA)) ∨
  (f.blocks ≤ offset / BLOCK_DATA ∧ offset / BLOCK_DATA ≤ INT_MAX) ∨
  (size = 0 ∧ offset % BLOCK_DATA ≠ 0)

instance (f : StoredFile) (size offset : ℕ) : Decidable (f.Readable size offset) :=
  inferInstanceAs (Decidable (_ ∨ _))

section

variable (f : StoredFile) {k n : ℕ}

lemma new_blocks : new.blocks = 1 := by
  rw [blocks, new, List.length_replicate]
  exact Nat.div_self (by decide)

lemma extend_zero : f.extend 0 = f := by
  rw [extend, Nat.zero_mul, List.replicate_zero, List.append_nil]

lemma lacks_le : f.lacks n ≤ k ↔ n ≤ (f.blocks + k) * BLOCK_DATA := by
  rw [lacks, Nat.sub_le_iff_le_add, ceilDiv_le, add_comm]

end

end StoredFile

/-! ### Requests -/

/-- A path that names an entry of the root and fits the field of the name. -/
def CStr.Entry (p : CStr) : Prop := p.length ≤ MAX_FILENAME ∧ ∃ n : CStr, n ≠ .empty ∧ p = n.slash

/-- What FUSE asks for. -/
inductive Operation
  | getattr (path : CStr)
  | readdir
  | open_ (path : CStr)
  | create (path : CStr)
  | read (path : CStr) (size offset : ℕ)
  | write (path : CStr) (buf : ℕ → UInt8) (size offset : ℕ)
  | unlink (path : CStr)
  | truncate (path : CStr) (size : ℕ)
  | utimens (path : CStr) (ts : Vector Timespec 2)
  | chown (path : CStr) (uid gid : UInt32)

/-- The paths are those of entries and the numbers are in range. -/
def Operation.Valid : Operation → Prop
  | .readdir => True
  | .getattr p | .open_ p | .create p | .unlink p | .utimens p _ | .chown p _ _ => p.Entry
  | .read p size offset => p.Entry ∧ size ≤ INT_MAX ∧ offset ≤ OFF_MAX
  | .write p _ size offset => p.Entry ∧ size ≤ INT_MAX ∧ offset ≤ OFF_MAX
  | .truncate p size => p.Entry ∧ size ≤ OFF_MAX ∧ size / BLOCK_DATA ≤ INT_MAX

inductive Outcome
  | status (r : ℤ)
  | size (n : ℕ)
  | entries (has : CStr → Bool)
  | data (bytes : List UInt8)

@[ext] structure Store where
  files : CStr → Option StoredFile
  free : ℕ

namespace Store

/-- The store without files. -/
def empty : Store := ⟨fun _ => none, BLOCK_NUM⟩

/-- The file `p`, which had `old` blocks, replaced. -/
def put (s : Store) (p : CStr) (old : ℕ) (f : StoredFile) : Store :=
  ⟨Function.update s.files p (some f), s.free + old - f.blocks⟩

def remove (s : Store) (p : CStr) (f : StoredFile) : Store :=
  ⟨Function.update s.files p none, s.free + f.blocks⟩

section files

variable (s : Store) {p q : CStr} {old : ℕ} {f : StoredFile}

@[simp] lemma put_free : (s.put p old f).free = s.free + old - f.blocks := rfl

@[simp] lemma put_files_self : (s.put p old f).files p = some f := Function.update_self ..

@[simp] lemma put_files_of_ne (hq : q ≠ p) : (s.put p old f).files q = s.files q :=
  Function.update_of_ne hq ..

@[simp] lemma remove_files_self : (s.remove p f).files p = none := Function.update_self ..

@[simp] lemma remove_files_of_ne (hq : q ≠ p) : (s.remove p f).files q = s.files q :=
  Function.update_of_ne hq ..

lemma put_same (hf : s.files p = some f) : s.put p f.blocks f = s := by
  refine Store.ext (funext fun q => ?_) (Nat.add_sub_cancel _ _)
  by_cases hq : q = p
  · rw [hq, put_files_self, hf]
  · rw [put_files_of_ne s hq]

end files

/-- Write to the file `p`, where there is room. -/
def writeTo (s : Store) (p : CStr) (f : StoredFile) (buf : ℕ → UInt8) (size offset : ℕ) :
    Option (Outcome × Store) :=
  let o := min offset f.size
  if f.lacks (o + size) ≤ s.free then
    some (.status size, s.put p f.blocks (f.write buf o size))
  else none

def truncateTo (s : Store) (p : CStr) (f : StoredFile) (n : ℕ) : Option (Outcome × Store) :=
  if n ≤ f.size then some (.status 0, s.put p f.blocks (f.cut n))
  else if s.free < f.missing n then some (.status (-1), s.put p f.blocks (f.extend s.free))
  else if n ≤ (f.blocks + f.missing n) * BLOCK_DATA then
    some (.status 0, s.put p f.blocks { f.extend (f.missing n) with size := n })
  else none

/-- The answer of the store and what it leaves. -/
def serve : Operation → Store → Option (Outcome × Store)
  | .getattr p, s =>
    some (match s.files p with
      | some f => .size f.size
      | none => .status (-ENOENT), s)
  | .readdir, s => some (.entries fun n => (s.files n.slash).isSome, s)
  | .open_ p, s => some (.status (if (s.files p).isSome then 0 else -ENOENT), s)
  | .create p, s =>
    if s.free = 0 then some (.status (-1), s)
    else match s.files p with
      | some _ => none
      | none => some (.status 0, s.put p 0 .new)
  | .read p size offset, s =>
    match s.files p with
    | none => some (.status (-ENOENT), s)
    | some f =>
      if f.Readable size offset then some (.data ((f.content.drop offset).take size), s) else none
  | .write p buf size offset, s =>
    match s.files p with
    | some f => s.writeTo p f buf size offset
    | none =>
      if s.free = 0 then none
      else (s.put p 0 .new).writeTo p .new buf size offset
  | .unlink p, s =>
    match s.files p with
    | none => some (.status (-ENOENT), s)
    | some f => some (.status 0, s.remove p f)
  | .truncate p size, s =>
    match s.files p with
    | none => some (.status (-ENOENT), s)
    | some f => s.truncateTo p f size
  | .utimens p _, s | .chown p _ _, s =>
    if (s.files p).isSome then some (.status 0, s) else none

end Store

/-! ### Descriptors -/

/-- A request, and whether the system grants `OPEN_DISK` a descriptor if one is left. -/
structure Upcall where
  op : Operation
  granted : Bool

/-- The descriptors that a handler opens and does not close. -/
def Operation.leaks : Operation → ℕ
  | .utimens _ _ | .chown _ _ _ => 1
  | _ => 0

/-- The store, and the descriptors that the process may still open. -/
structure Service where
  store : Store
  fds : ℕ

/-- Without a descriptor every request is answered by -1, and the store stays. -/
def Service.serve (call : Upcall) (s : Service) : Option (Outcome × Service) :=
  if call.granted ∧ s.fds ≠ 0 then
    (Store.serve call.op s.store).map fun (out, store) => (out, ⟨store, s.fds - call.op.leaks⟩)
  else some (.status (-1), s)

/-! ### The store of a disk -/

namespace Disk

/-- The file with head `h`. -/
def stored (d : Disk) (h : Fin BLOCK_NUM) : StoredFile := ⟨d.fileSize h, d.raw (d.chain h)⟩

def store (d : Disk) : Store := ⟨fun p => (d.lookup p).map d.stored, d.freeCount⟩

/-- A well-formed disk of full size whose heads have the names of entries. -/
structure Sound (d : Disk) : Prop extends d.WellFormed where
  total : d.sb.totalblocks.toNat = BLOCK_NUM
  entry : ∀ p h, d.IsFile p h → p.Entry

variable {d d' : Disk} {p q : CStr} {h g : Fin BLOCK_NUM} {c c' : List (Fin BLOCK_NUM)}

lemma stored_fileSize (d : Disk) (h : Fin BLOCK_NUM) : (d.stored h).size = d.fileSize h := by
  simp only [stored]

lemma stored_raw (d : Disk) (h : Fin BLOCK_NUM) : (d.stored h).bytes = d.raw (d.chain h) := by
  simp only [stored]

lemma stored_content (d : Disk) (h : Fin BLOCK_NUM) : (d.stored h).content = d.content h := by
  rw [StoredFile.content, stored_raw, stored_fileSize, content, fileSize]

lemma stored_blocks (d : Disk) (h : Fin BLOCK_NUM) : (d.stored h).blocks = (d.chain h).length := by
  rw [StoredFile.blocks, stored, raw_length]
  exact Nat.mul_div_cancel _ (by decide)

lemma store_apply (d : Disk) (p : CStr) : d.store.files p = (d.lookup p).map d.stored := by
  simp only [store]

lemma store_free (d : Disk) : d.store.free = d.freeCount := by simp only [store]

lemma store_files (hf : d.lookup p = some h) : d.store.files p = some (d.stored h) := by
  rw [store_apply, hf, Option.map_some]

lemma store_missing (hf : d.lookup p = none) : d.store.files p = none := by
  rw [store_apply, hf, Option.map_none]

/-! ### Blocks in use -/

/-- The allocated blocks. -/
def used (d : Disk) : Finset (Fin BLOCK_NUM) := Finset.univ.filter d.Allocated

lemma mem_used {i : Fin BLOCK_NUM} : i ∈ d.used ↔ d.Allocated i := Finset.mem_filter_univ i

lemma freeCount_add_used (ht : d.sb.totalblocks.toNat = BLOCK_NUM) :
    d.freeCount + d.used.card = BLOCK_NUM := by
  have hcompl : d.usedᶜ = Finset.univ.filter d.IsFree := by
    ext i
    have htot : (i : ℕ) < d.sb.totalblocks.toNat := by rw [ht]; exact i.isLt
    simp only [Finset.mem_compl, mem_used, Finset.mem_filter_univ, IsFree, htot, and_true]
  have hcard := Finset.card_add_card_compl d.used
  rw [hcompl, Fintype.card_fin] at hcard
  rw [freeCount, add_comm]
  exact hcard

lemma Owns.nodup (hl : d.Linked) (ho : d.Owns h c) : c.Nodup := by
  rcases ho with ⟨hh, rfl⟩ | ⟨-, rfl⟩
  · exact (hl.ends h hh).nodup
  · exact List.nodup_nil

lemma Owns.used (hl : d.Linked) (ho : d.Owns h c) : c.toFinset ⊆ d.used := by
  rcases ho with ⟨hh, rfl⟩ | ⟨-, rfl⟩
  · intro i hi
    exact mem_used.mpr (hl.alloc h hh i (List.mem_toFinset.mp hi))
  · exact Finset.empty_subset _

lemma Edit.nodup (he : Edit d d' h c c') : c'.Nodup := by
  rcases he.chain with rfl | ⟨hc, -⟩
  · exact List.nodup_nil
  · exact hc.nodup

/-- **An edit keeps the accounts**: what the chain gains, the free blocks lose. -/
lemma Edit.freeCount (he : Edit d d' h c c') (hl : d.Linked) (ho : d.Owns h c)
    (ht : d.sb.totalblocks.toNat = BLOCK_NUM) :
    d'.freeCount + c'.length = d.freeCount + c.length := by
  have hset : d'.used = c'.toFinset ∪ (d.used \ c.toFinset) := by
    ext i
    rw [mem_used, he.alloc, Finset.mem_union, Finset.mem_sdiff, List.mem_toFinset, mem_used,
      List.mem_toFinset, and_comm (a := d.Allocated i)]
  have hdisj : Disjoint c'.toFinset (d.used \ c.toFinset) := by
    rw [Finset.disjoint_left]
    intro i hi hi'
    rw [Finset.mem_sdiff, mem_used, List.mem_toFinset] at hi'
    exact he.fresh i (List.mem_toFinset.mp hi) hi'.2 hi'.1
  have hcard := congrArg Finset.card hset
  rw [Finset.card_union_of_disjoint hdisj, Finset.card_sdiff_of_subset (ho.used hl),
    List.toFinset_card_of_nodup he.nodup, List.toFinset_card_of_nodup (ho.nodup hl)] at hcard
  have hle := Finset.card_le_card (ho.used hl)
  rw [List.toFinset_card_of_nodup (ho.nodup hl)] at hle
  have h1 := freeCount_add_used ht
  have h2 := freeCount_add_used (d := d') (by rw [he.total, ht])
  omega

/-! ### Frames -/

lemma Rewrites.store_other (hr : Rewrites d d' p h c c') (hl : d.Linked) (hq : q ≠ p) :
    d'.store.files q = d.store.files q := by
  obtain ⟨hfiles, hblocks⟩ := hr.touches.other hl hq
  have hlookup : d'.lookup q = d.lookup q := by
    rw [Disk.lookup, Disk.lookup]
    simp only [hfiles]
  rw [store_apply, store_apply, hlookup]
  cases hf : d.lookup q with
  | none => rfl
  | some g =>
    have hg := (lookup_eq_some.mp hf).1
    obtain ⟨hchain, hsame⟩ := hblocks g hg
    have hraw : d'.raw (d.chain g) = d.raw (d.chain g) :=
      List.flatMap_congr fun i hi => by rw [(hsame i hi).1]
    rw [Option.map_some, Option.map_some, Disk.stored, Disk.stored, hchain, hraw, fileSize, fileSize,
      (hsame g (hl.mem_chain hg.1)).1]

/-- **A rewritten file in the store.** -/
lemma Rewrites.store_eq (hr : Rewrites d d' p h c c') (hd : d.Sound) (hf : d'.lookup p = some h)
    (hch : d'.chain h = c') : d'.store = d.store.put p c.length (d'.stored h) := by
  have hfree := hr.edit.freeCount hd.toLinked hr.owns hd.total
  have hblocks := stored_blocks d' h
  rw [hch] at hblocks
  refine Store.ext (funext fun q => ?_) ?_
  · by_cases hq : q = p
    · rw [hq, Store.put_files_self, store_files hf]
    · rw [Store.put_files_of_ne _ hq, hr.store_other hd.toLinked hq]
  simp only [Store.put, store, hblocks]
  rw [← hfree, Nat.add_sub_cancel]

lemma Rewrites.entry (hr : Rewrites d d' p h c c') (hd : d.Sound) (hp : p.Entry) {k : Fin BLOCK_NUM}
    (hf : d'.IsFile q k) : q.Entry := by
  by_cases hq : q = p
  · rw [hq]; exact hp
  · exact hd.entry q k ((hr.isFile_iff hd.toLinked hq).mp hf)

end Disk

end Messaround.Aofs
