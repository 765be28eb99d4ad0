import Mathlib.Data.Int.Cast.Lemmas
import Mathlib.Tactic.Common

/-!
The conversions between C's integer types on a 64-bit machine, as functions on integers.

A value of a C type is an integer in the range of the type; an assignment to a narrower or
differently signed type keeps the value modulo the size of the target.
-/

namespace Messaround.CInt

abbrev INT_MAX : ℕ := 2147483647
/-- The largest signed 64-bit number. -/
abbrev OFF_MAX : ℕ := 9223372036854775807

/-- Conversion to `int`. -/
def toInt (x : Int) : Int := (x + 2147483648) % 4294967296 - 2147483648

/-- Conversion to `u_int`. -/
def toUInt (x : Int) : Int := x % 4294967296

/-- Conversion to a signed 64-bit type (`off_t`). -/
def toLong (x : Int) : Int :=
  (x + 9223372036854775808) % 18446744073709551616 - 9223372036854775808

/-- Conversion to an unsigned 64-bit type (`size_t`, `u_long`). -/
def toULong (x : Int) : Int := x % 18446744073709551616

lemma toInt_of_range {x : Int} (h : -2147483648 ≤ x) (h' : x < 2147483648) : toInt x = x := by
  unfold toInt; omega

lemma toUInt_of_range {x : Int} (h : 0 ≤ x) (h' : x < 4294967296) : toUInt x = x := by
  unfold toUInt; omega

lemma toLong_of_range {x : Int} (h : -9223372036854775808 ≤ x) (h' : x < 9223372036854775808) :
    toLong x = x := by
  unfold toLong; omega

lemma toULong_of_range {x : Int} (h : 0 ≤ x) (h' : x < 18446744073709551616) : toULong x = x := by
  unfold toULong; omega

lemma toLong_natCast {n : ℕ} (h : n < 9223372036854775808) : toLong n = n :=
  toLong_of_range (by omega) (by omega)

lemma toULong_natCast {n : ℕ} (h : n < 18446744073709551616) : toULong n = n :=
  toULong_of_range (by omega) (by omega)

/-- A negative number counts down from the size of the type. -/
lemma toULong_of_neg {x : Int} (h : -18446744073709551616 ≤ x) (h' : x < 0) :
    toULong x = x + 18446744073709551616 := by
  unfold toULong; omega

lemma toNat_toInt_le (n : ℕ) : (toInt n).toNat ≤ n := by
  unfold toInt; omega

lemma toInt_range (x : Int) : -2147483648 ≤ toInt x ∧ toInt x < 2147483648 := by
  unfold toInt; omega

lemma toULong_range (x : Int) : 0 ≤ toULong x ∧ toULong x < 18446744073709551616 := by
  unfold toULong; omega

@[simp] lemma toULong_toLong (x : Int) : toULong (toLong x) = toULong x := by
  unfold toULong toLong; omega

/-- A value below `2 ^ 63` is the same number in both 64-bit types. -/
lemma toLong_eq_toULong {x : Int} (h : toULong x < 9223372036854775808) :
    toLong x = toULong x := by
  unfold toULong toLong at *; omega

lemma toULong_sub {x y : Int} (h0 : 0 ≤ y) (h : y ≤ toULong x) :
    toULong (x - y) = toULong x - y := by
  unfold toULong at *; omega

end Messaround.CInt
