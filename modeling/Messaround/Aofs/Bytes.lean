import Mathlib.Data.List.GetD
import Mathlib.Tactic.Linarith
import Mathlib.Tactic.Positivity
import Mathlib.Tactic.Ring
import Messaround.Aofs.Disk

/-!
The memory of a block, read back as a block.

A field is found at its offset; the rest of the lemmas say what stands in front of it. A name
of 256 bytes fills its field, and its terminator is the low byte of the link behind it.
-/

namespace Messaround.Aofs

open Messaround.CInt

/-! ### Numbers -/

lemma leBytes_length (n : ℕ) (x : ℤ) : (leBytes n x).length = n := by simp [leBytes]

lemma sum_digits (n : ℕ) (x : ℤ) :
    ((List.range n).map fun k => x / 256 ^ k % 256 * 256 ^ k).sum = x % 256 ^ n := by
  induction n with
  | zero => simp
  | succ n ih =>
    have hP : (0 : ℤ) < 256 ^ n := by positivity
    have hdiv := Int.ediv_mul_add_emod x (256 ^ n)
    have hdig := Int.ediv_mul_add_emod (x / 256 ^ n) 256
    have hrest := Int.emod_nonneg x hP.ne'
    have hlt := Int.emod_lt_of_pos x hP
    have hd0 := Int.emod_nonneg (x / 256 ^ n) (by decide : (256 : ℤ) ≠ 0)
    have hd1 := Int.emod_lt_of_pos (x / 256 ^ n) (by decide : (0 : ℤ) < 256)
    rw [List.range_succ, List.map_append, List.sum_append, ih, List.map_singleton,
      List.sum_singleton]
    refine ((Int.ediv_emod_unique (q := x / 256 ^ n / 256) (by positivity)).mpr ⟨?_, ?_, ?_⟩).2.symm
    · calc x % 256 ^ n + x / 256 ^ n % 256 * 256 ^ n + 256 ^ (n + 1) * (x / 256 ^ n / 256)
          = x % 256 ^ n + (x / 256 ^ n / 256 * 256 + x / 256 ^ n % 256) * 256 ^ n := by ring
        _ = x / 256 ^ n * 256 ^ n + x % 256 ^ n := by rw [hdig]; ring
        _ = x := hdiv
    · positivity
    · calc x % 256 ^ n + x / 256 ^ n % 256 * 256 ^ n
          < 256 ^ n + 255 * 256 ^ n := by nlinarith
        _ = 256 ^ (n + 1) := by ring

lemma leAt_leBytes (n : ℕ) (x : ℤ) (m : List UInt8) :
    leAt (leBytes n x ++ m) 0 n = x % 256 ^ n := by
  rw [leAt, ← sum_digits]
  refine congrArg List.sum (List.map_congr_left fun k hk => ?_)
  rw [List.mem_range] at hk
  have h0 := Int.emod_nonneg (x / 256 ^ k) (by decide : (256 : ℤ) ≠ 0)
  have h1 := Int.emod_lt_of_pos (x / 256 ^ k) (by decide : (0 : ℤ) < 256)
  have hget : (leBytes n x ++ m).getD (0 + k) 0 = UInt8.ofNat (x / 256 ^ k % 256).toNat := by
    rw [zero_add, List.getD_append _ _ _ _ (by rwa [leBytes_length])]
    simp [leBytes, hk]
  have hbyte : ((UInt8.ofNat (x / 256 ^ k % 256).toNat).toNat : ℤ) = x / 256 ^ k % 256 := by
    rw [UInt8.toNat_ofNat_of_lt' (by simp only [UInt8.size]; omega)]
    exact Int.toNat_of_nonneg h0
  rw [hget, hbyte]

lemma leAt_append {l : List UInt8} {off : ℕ} (h : l.length ≤ off) (m : List UInt8) (n : ℕ) :
    leAt (l ++ m) off n = leAt m (off - l.length) n := by
  rw [leAt, leAt]
  refine congrArg List.sum (List.map_congr_left fun k _ => ?_)
  rw [List.getD_append_right _ _ _ _ (h.trans (Nat.le_add_right _ _)), Nat.sub_add_comm h]

/-! ### Fields -/

namespace Block

/-- The numbers of a block are in the range of their fields. -/
structure InRange (b : Block) : Prop where
  next : toInt b.dbm.next = b.dbm.next
  st_size : toLong b.dbm.st_size = b.dbm.st_size
  st_blocks : toLong b.dbm.st_blocks = b.dbm.st_blocks
  st_blksize : toInt b.dbm.st_blksize = b.dbm.st_blksize

lemma inRange_ofBytes (m : List UInt8) : (ofBytes m).InRange := by
  have hint : ∀ x, toInt (toInt x) = toInt x := fun x => by unfold toInt; omega
  have hlong : ∀ x, toLong (toLong x) = toLong x := fun x => by unfold toLong; omega
  exact ⟨hint _, hlong _, hlong _, hint _⟩

section field

variable (m : List UInt8)

lemma toInt_field (x : ℤ) : toInt (leAt (leBytes 4 x ++ m) 0 4) = toInt x := by
  rw [leAt_leBytes]; unfold toInt; omega

lemma toLong_field (x : ℤ) : toLong (leAt (leBytes 8 x ++ m) 0 8) = toLong x := by
  rw [leAt_leBytes]; unfold toLong; omega

lemma uint16_field (x : UInt16) : .ofNat (leAt (leBytes 2 x.toNat ++ m) 0 2).toNat = x := by
  have h : (x.toNat : ℤ) % 256 ^ 2 = x.toNat := by have := x.toNat_lt; omega
  rw [leAt_leBytes, h, Int.toNat_natCast, UInt16.ofNat_toNat]

lemma uint32_field (x : UInt32) : .ofNat (leAt (leBytes 4 x.toNat ++ m) 0 4).toNat = x := by
  have h : (x.toNat : ℤ) % 256 ^ 4 = x.toNat := by have := x.toNat_lt; omega
  rw [leAt_leBytes, h, Int.toNat_natCast, UInt32.ofNat_toNat]

lemma uint64_field (x : UInt64) : .ofNat (leAt (leBytes 8 x.toNat ++ m) 0 8).toNat = x := by
  have h : (x.toNat : ℤ) % 256 ^ 8 = x.toNat := by have := x.toNat_lt; omega
  rw [leAt_leBytes, h, Int.toNat_natCast, UInt64.ofNat_toNat]

lemma vector_field {n : ℕ} (v : Vector UInt8 n) :
    (Vector.ofFn fun i : Fin n => (v.toList ++ m).getD i 0) = v := by
  apply Vector.ext
  intro i hi
  rw [Vector.getElem_ofFn, List.getD_append _ _ _ _ (by simpa using hi)]
  simp [hi]

end field

lemma data_field (b : Block) :
    (Vector.ofFn fun i : Fin BLOCK_DATA => b.bytes.getD (BLOCK_META + i) 0) = b.data := by
  conv_rhs => rw [← vector_field [] b.data]
  refine congrArg Vector.ofFn (funext fun i => ?_)
  rw [bytes, rest, ← List.append_assoc, List.getD_append_right, List.append_nil]
  · congr 1
    simp [leBytes_length]
  · simp [leBytes_length]

lemma ofBytes_bytes {b : Block} (hb : b.InRange) : ofBytes b.bytes = b := by
  have hdata := b.data_field
  obtain ⟨⟨filename, next, head, pad, mode, atim, mtim, ctim, size, uid, gid, blocks, blksize,
    flags, birthtim⟩, data⟩ := b
  obtain ⟨h1, h2, h3, h4⟩ := hb
  simp only [ofBytes, mk.injEq, BlockMeta.mk.injEq]
  refine ⟨⟨vector_field _ _, ?_, ?_, ?_, ?_, ?_, ?_, ?_, ?_, ?_, ?_, ?_, ?_, ?_, ?_⟩, hdata⟩
  -- every field behind the name stands behind fields of known lengths
  all_goals simp (disch := simp [leBytes_length]) only [bytes, rest, List.append_assoc,
    leAt_append, List.getD_append_right, Vector.length_toList, leBytes_length, List.length_cons,
    List.length_nil, Nat.reduceSub, Nat.reduceAdd, toInt_field, toLong_field, uint16_field,
    uint32_field, uint64_field, h1, h2, h3, h4]
  all_goals rfl

lemma toList_field {n : ℕ} {l : List UInt8} (hl : l.length = n) :
    (Vector.ofFn fun i : Fin n => l.getD i 0).toList = l := by
  apply List.ext_getElem
  · simp [hl]
  · intro i h1 h2
    simp [h2]

/-! ### A name of 256 bytes -/

/-- A block whose name is the 256 bytes of `s`; the terminator is the low byte of the link,
which was `-1`. -/
def overlong (b : Block) (s : CStr) : Block :=
  { b with dbm.filename := .ofFn fun i => s.bytes.getD i 0, dbm.next := -256 }

section overlong

variable {b : Block} {s : CStr} (hs : s.length = 256) (hn : b.dbm.next = -1)
include hs hn

lemma bytes_overlong : (b.overlong s).bytes = s.bytes ++ 0 :: b.bytes.drop (s.length + 1) := by
  have hfull : leBytes 4 (-1) = [255, 255, 255, 255] := by decide
  have hcut : leBytes 4 (-256) = [0, 255, 255, 255] := by decide
  have hdrop : b.bytes.drop (s.length + 1) = b.rest.drop 1 := by
    rw [hs, bytes, List.drop_append, List.drop_eq_nil_of_le (by simp)]
    simp
  rw [hdrop, bytes, overlong, toList_field hs, rest, rest, hn, hfull, hcut]
  rfl

lemma strcpyFilename_overlong (hb : b.InRange) : b.strcpyFilename s = b.overlong s := by
  have hnext : toInt (-256) = -256 := by decide
  have hr : (b.overlong s).InRange := by
    constructor <;> simp only [overlong, hnext, hb.st_size, hb.st_blocks, hb.st_blksize]
  calc b.strcpyFilename s = ofBytes (s.bytes ++ 0 :: b.bytes.drop (s.length + 1)) :=
        if_neg (by omega)
    _ = ofBytes (b.overlong s).bytes := congrArg ofBytes (bytes_overlong hs hn).symm
    _ = b.overlong s := ofBytes_bytes hr

lemma name_overlong : (b.overlong s).name = s := by
  exact (congrArg CStr.ofMemory (bytes_overlong hs hn)).trans (CStr.ofMemory_append s _)

end overlong

end Block

end Messaround.Aofs
