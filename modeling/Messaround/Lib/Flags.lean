import Mathlib.Data.Nat.Bitwise
import Mathlib.Data.UInt
import Mathlib.Tactic.Common

/-!
Flags in a word: what a test, a set and a clear of them do to its value.
-/

namespace Messaround.Flags

variable {x y : UInt32}

lemma and_two_pow_toNat (x : UInt32) {k : ℕ} (hk : k < 32) :
    (x &&& UInt32.ofNat (2 ^ k)).toNat = x.toNat / 2 ^ k % 2 * 2 ^ k := by
  have hlt : (2 : ℕ) ^ k < 2 ^ 32 := Nat.pow_lt_pow_right (by decide) hk
  rw [UInt32.toNat_and, UInt32.toNat_ofNat_of_lt' hlt, Nat.and_two_pow, Nat.toNat_testBit]

/-- A flag that is not set. -/
lemma and_two_pow_eq_zero (x : UInt32) {k : ℕ} (hk : k < 32) :
    x &&& UInt32.ofNat (2 ^ k) = 0 ↔ x.toNat / 2 ^ k % 2 = 0 := by
  have hpos := Nat.two_pow_pos k
  rw [← UInt32.toNat_inj, and_two_pow_toNat x hk, UInt32.toNat_zero, Nat.mul_eq_zero]
  omega

lemma or_eq_add (h : x &&& y = 0) : x ||| y = x + y := by
  rw [← UInt32.toBitVec_inj] at *
  simpa using (BitVec.add_eq_or_of_and_eq_zero _ _ (by simpa using h)).symm

lemma and_not_add_and (x y : UInt32) : (x &&& ~~~y) + (x &&& y) = x := by
  have h : x &&& ~~~y &&& (x &&& y) = 0 := by
    rw [← UInt32.toBitVec_inj]
    ext i hi
    simp
    grind
  rw [← or_eq_add h, ← UInt32.toBitVec_inj]
  ext i hi
  simp
  grind

/-- The flags cleared. -/
lemma and_not_eq_sub (x y : UInt32) : x &&& ~~~y = x - (x &&& y) :=
  eq_sub_of_add_eq (and_not_add_and x y)

end Messaround.Flags
