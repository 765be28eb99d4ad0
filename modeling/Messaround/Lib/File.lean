import Mathlib.Data.Set.Insert
import Mathlib.Logic.Function.Basic
import Mathlib.Tactic.Common

/-!
Files as sequences of bytes, the descriptors that read and write them, and files that are
divided into places.
-/

namespace Messaround

namespace File

variable {α : Type} {f bs : List α} {p q n : ℕ}

/-- The bytes from `p` on, at most `n`. -/
def extract (f : List α) (p n : ℕ) : List α := (f.drop p).take n

/-- The file after `bs` was written at `p`. A gap behind the old end is filled with zeros. -/
def patch [Zero α] (f : List α) (p : ℕ) (bs : List α) : List α :=
  f.take p ++ List.replicate (p - f.length) 0 ++ bs ++ f.drop (p + bs.length)

lemma getElem?_extract (i : ℕ) : (extract f p n)[i]? = if i < n then f[p + i]? else none := by
  rw [extract, List.getElem?_take]
  split
  · rw [List.getElem?_drop]
  · rfl

lemma getD_extract {i : ℕ} (hi : i < n) (x : α) : (extract f p n).getD i x = f.getD (p + i) x := by
  rw [List.getD_eq_getElem?_getD, getElem?_extract, if_pos hi, List.getD_eq_getElem?_getD]

lemma length_extract (h : p + n ≤ f.length) : (extract f p n).length = n := by
  rw [extract, List.length_take, List.length_drop]
  omega

section patch

variable [Zero α]

lemma length_patch : (patch f p bs).length = max f.length (p + bs.length) := by
  simp only [patch, List.length_append, List.length_take, List.length_replicate, List.length_drop]
  omega

lemma getElem?_patch (i : ℕ) : (patch f p bs)[i]? =
    if i < p then (if i < f.length then f[i]? else some 0)
    else if i < p + bs.length then bs[i - p]? else f[i]? := by
  have hlen : (f.take p ++ List.replicate (p - f.length) 0).length = p := by
    rw [List.length_append, List.length_take, List.length_replicate]
    omega
  rw [patch, List.append_assoc]
  split
  · rename_i hp
    rw [List.getElem?_append_left (by omega)]
    split
    · rename_i hf
      rw [List.getElem?_append_left (by rw [List.length_take]; omega), List.getElem?_take,
        if_pos hp]
    · rename_i hf
      rw [List.getElem?_append_right (by rw [List.length_take]; omega), List.length_take,
        List.getElem?_replicate, if_pos (by omega)]
  · rename_i hp
    rw [List.getElem?_append_right (by omega), hlen]
    split
    · rename_i hb
      rw [List.getElem?_append_left (by omega)]
    · rename_i hb
      rw [List.getElem?_append_right (by omega), List.getElem?_drop]
      congr 1
      omega

/-- What was written is there. -/
lemma extract_patch_self : extract (patch f p bs) p bs.length = bs := by
  refine List.ext_getElem? fun i => ?_
  rw [getElem?_extract]
  split
  · rename_i hi
    rw [getElem?_patch, if_neg (by omega), if_pos (by omega), Nat.add_sub_cancel_left]
  · rename_i hi
    exact (List.getElem?_eq_none (by omega)).symm

/-- A range of the file that does not meet the one that was written is as before. -/
lemma extract_patch_of_disjoint (h : q + n ≤ p ∨ p + bs.length ≤ q) (hq : q + n ≤ f.length) :
    extract (patch f p bs) q n = extract f q n := by
  refine List.ext_getElem? fun i => ?_
  rw [getElem?_extract, getElem?_extract]
  split
  · rename_i hi
    rw [getElem?_patch]
    rcases h with h | h
    · rw [if_pos (by omega), if_pos (by omega)]
    · rw [if_neg (by omega), if_neg (by omega)]
  · rfl

/-- The gap behind the old end. -/
lemma extract_patch_gap (hf : f.length ≤ q) (hq : q + n ≤ p) :
    extract (patch f p bs) q n = List.replicate n 0 := by
  refine List.ext_getElem? fun i => ?_
  rw [getElem?_extract, List.getElem?_replicate]
  split
  · rename_i hi
    rw [getElem?_patch, if_pos (by omega), if_neg (by omega)]
  · rfl

end patch

end File

open File

/-- An open file: its bytes and the offset of the descriptor. -/
structure Fd (α : Type) where
  file : List α
  pos : ℕ

namespace Fd

variable {α : Type} {fd : Fd α} {buf bs : List α} {p : ℕ}

/-- `lseek(fd, offset, SEEK_SET)`, which fails for a negative offset. -/
def lseek (fd : Fd α) (offset : ℤ) : Fd α :=
  if offset < 0 then fd else { fd with pos := offset.toNat }

/-- `read(fd, buf, sizeof(buf))`: the number of bytes read, the buffer, and the descriptor. -/
def read (fd : Fd α) (buf : List α) : ℕ × List α × Fd α :=
  let bytes := extract fd.file fd.pos buf.length
  (bytes.length, bytes ++ buf.drop bytes.length, { fd with pos := fd.pos + bytes.length })

/-- `write(fd, bs, sizeof(bs))`: the number of bytes written, and the descriptor. -/
def write [Zero α] (fd : Fd α) (bs : List α) : ℕ × Fd α :=
  (bs.length, ⟨patch fd.file fd.pos bs, fd.pos + bs.length⟩)

@[simp] lemma lseek_file (offset : ℤ) : (fd.lseek offset).file = fd.file := by
  unfold lseek
  split <;> rfl

@[simp] lemma read_file (buf : List α) : (fd.read buf).2.2.file = fd.file := rfl

lemma lseek_natCast (p : ℕ) : fd.lseek p = { fd with pos := p } := by
  rw [lseek, if_neg (by omega), Int.toNat_natCast]

/-- A read inside the file fills its buffer. -/
lemma read_of_le (h : fd.pos + buf.length ≤ fd.file.length) : fd.read buf =
    (buf.length, extract fd.file fd.pos buf.length, ⟨fd.file, fd.pos + buf.length⟩) := by
  have hlen := length_extract h
  rw [read]
  simp only [hlen, List.drop_length, List.append_nil]

/-- At the end of the file, nothing is read. -/
lemma read_of_end (h : fd.file.length ≤ fd.pos) : fd.read buf = (0, buf, fd) := by
  have hnil : extract fd.file fd.pos buf.length = [] := by
    rw [extract, List.drop_eq_nil_of_le h, List.take_nil]
  simp only [read, hnil, List.length_nil, List.nil_append, List.drop_zero, Nat.add_zero]

lemma write_seek [Zero α] : (fd.lseek p).write bs =
    (bs.length, ⟨patch fd.file p bs, p + bs.length⟩) := by
  rw [lseek_natCast, write]

end Fd

/-! ### Places of a file -/

/-- Places in a file, none of which meets another. -/
structure Places (ι : Type) where
  offset : ι → ℕ
  size : ι → ℕ
  apart : ∀ i j, i ≠ j → offset i + size i ≤ offset j ∨ offset j + size j ≤ offset i

namespace Places

variable {ι α : Type} {P : Places ι} {f : List α} {s : Set ι} {v : ι → List α} {i : ι}

/-- The places in `s` are in the file and hold the bytes that `v` gives. -/
def Holds (P : Places ι) (f : List α) (s : Set ι) (v : ι → List α) : Prop :=
  ∀ i ∈ s, P.offset i + P.size i ≤ f.length ∧ extract f (P.offset i) (P.size i) = v i

/-- A write to one place leaves another as it is. -/
lemma extract_patch [Zero α] {j : ι} (hij : j ≠ i) (hj : P.offset j + P.size j ≤ f.length)
    {bs : List α} (hbs : bs.length = P.size i) :
    extract (patch f (P.offset i) bs) (P.offset j) (P.size j) =
      extract f (P.offset j) (P.size j) :=
  extract_patch_of_disjoint (hbs ▸ P.apart j i hij) hj

lemma Holds.mono {t : Set ι} (h : P.Holds f s v) (hts : t ⊆ s) : P.Holds f t v :=
  fun i hi => h i (hts hi)

/-- **Writing a place**: it holds the new bytes, and the other places are as before. -/
theorem Holds.patch [Zero α] [DecidableEq ι] (h : P.Holds f s v) {bs : List α}
    (hbs : bs.length = P.size i) :
    P.Holds (File.patch f (P.offset i) bs) (insert i s) (Function.update v i bs) := by
  intro j hj
  rw [length_patch, hbs]
  by_cases hji : j = i
  · rw [hji, Function.update_self, ← hbs, extract_patch_self]
    exact ⟨le_max_right _ _, rfl⟩
  · obtain ⟨hle, hv⟩ := h j (Set.mem_of_mem_insert_of_ne hj hji)
    rw [Function.update_of_ne hji, extract_patch hji hle hbs]
    exact ⟨hle.trans (le_max_left _ _), hv⟩

/-- Reading a place. -/
lemma Holds.read {fd : Fd α} (h : P.Holds fd.file s v) (hi : i ∈ s) {buf : List α}
    (hbuf : buf.length = P.size i) : (fd.lseek (P.offset i)).read buf =
      (P.size i, v i, ⟨fd.file, P.offset i + P.size i⟩) := by
  obtain ⟨hle, hv⟩ := h i hi
  rw [Fd.lseek_natCast, Fd.read_of_le (by rw [hbuf]; exact hle), hbuf, hv]

end Places

end Messaround
