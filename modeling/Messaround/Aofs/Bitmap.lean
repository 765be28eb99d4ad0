import Mathlib.Data.List.Basic
import Mathlib.Data.Vector.Basic
import Mathlib.Tactic.Common

/-!
The bitmap routines, on a byte array of any length.

Bit `i` is bit `i % 8` of byte `i / 8`; the lemmas reduce the masks to `Nat.testBit`.
-/

namespace Messaround.Aofs

variable {n : ℕ}

/-- `(map[byte_num] >> bit_offset) & 1U` -/
def bitAt (map : Vector UInt8 n) (idx : ℕ) : ℕ :=
  ((map[idx / 8]?.getD 0 >>> UInt8.ofNat (idx % 8)) &&& 1).toNat

def findFreeBit (map : Vector UInt8 n) (numBits : ℤ) : ℤ :=
  match (List.range numBits.toNat).find? fun i => bitAt map i = 0 with
  | some i => i
  | none => -1

def setBit (map : Vector UInt8 n) (bitIdx : ℕ) : ℤ × Vector UInt8 n :=
  if bitAt map bitIdx ≠ 0 then (-1, map)
  else
    let mask : UInt8 := 1 <<< UInt8.ofNat (bitIdx % 8)
    (0, map.setIfInBounds (bitIdx / 8) (map[bitIdx / 8]?.getD 0 ||| mask))

def clearBit (map : Vector UInt8 n) (bitIdx : ℕ) : ℤ × Vector UInt8 n :=
  if bitAt map bitIdx = 0 then (-1, map)
  else
    let mask : UInt8 := ~~~(1 <<< UInt8.ofNat (bitIdx % 8))
    (0, map.setIfInBounds (bitIdx / 8) (map[bitIdx / 8]?.getD 0 &&& mask))

/-! ### One byte -/

lemma mask_toNat {a : ℕ} (ha : a < 8) : ((1 : UInt8) <<< UInt8.ofNat a).toNat = 2 ^ a := by
  have h8 : a % 256 % 8 = a := by omega
  have hlt : 2 ^ a < 2 ^ 8 := Nat.pow_lt_pow_right (by omega) ha
  simp only [UInt8.toNat_shiftLeft, UInt8.toNat_one, UInt8.toNat_ofNat', Nat.reducePow, h8,
    Nat.one_shiftLeft] at hlt ⊢
  exact Nat.mod_eq_of_lt hlt

lemma byte_bit (x : UInt8) {a : ℕ} (ha : a < 8) :
    ((x >>> UInt8.ofNat a) &&& 1).toNat = (x.toNat.testBit a).toNat := by
  have h8 : a % 256 % 8 = a := by omega
  simp only [UInt8.toNat_and, UInt8.toNat_shiftRight, UInt8.toNat_one, UInt8.toNat_ofNat',
    Nat.reducePow, h8, Nat.and_one_is_mod, Nat.shiftRight_eq_div_pow,
    Nat.testBit_eq_decide_div_mod_eq]
  rcases Nat.mod_two_eq_zero_or_one (x.toNat / 2 ^ a) with h | h <;> simp [h]

lemma byte_set (x : UInt8) {a b : ℕ} (ha : a < 8) :
    (x ||| 1 <<< UInt8.ofNat a).toNat.testBit b = (x.toNat.testBit b || decide (a = b)) := by
  rw [UInt8.toNat_or, Nat.testBit_or, mask_toNat ha, Nat.testBit_two_pow]

lemma byte_clear (x : UInt8) {a b : ℕ} (ha : a < 8) (hb : b < 8) :
    (x &&& ~~~(1 <<< UInt8.ofNat a)).toNat.testBit b =
      (x.toNat.testBit b && !decide (a = b)) := by
  have hlt : 2 ^ a < 2 ^ 8 := Nat.pow_lt_pow_right (by omega) ha
  have hnot : (~~~((1 : UInt8) <<< UInt8.ofNat a)).toNat = 2 ^ 8 - (2 ^ a + 1) := by
    rw [UInt8.toNat_not, mask_toNat ha, UInt8.size]; omega
  rw [UInt8.toNat_and, Nat.testBit_and, hnot, Nat.testBit_two_pow_sub_succ hlt,
    Nat.testBit_two_pow]
  simp [hb]

/-! ### The routines -/

/-- Bit `i` as a truth value. -/
def isSet (map : Vector UInt8 n) (i : ℕ) : Bool := (map[i / 8]?.getD 0).toNat.testBit (i % 8)

lemma bitAt_eq (map : Vector UInt8 n) (i : ℕ) : bitAt map i = (isSet map i).toNat :=
  byte_bit _ (Nat.mod_lt _ (by omega))

lemma bitAt_eq_one {map : Vector UInt8 n} {i : ℕ} : bitAt map i = 1 ↔ isSet map i = true := by
  rw [bitAt_eq]; cases isSet map i <;> simp

lemma bitAt_eq_zero {map : Vector UInt8 n} {i : ℕ} : bitAt map i = 0 ↔ isSet map i = false := by
  rw [bitAt_eq]; cases isSet map i <;> simp

lemma eq_of_isSet {map map' : Vector UInt8 n} (h : ∀ i, isSet map i = isSet map' i) :
    map = map' := by
  apply Vector.ext
  intro k hk
  refine UInt8.toNat_inj.mp (Nat.eq_of_testBit_eq fun a => ?_)
  by_cases ha : a < 8
  · have hbit := h (8 * k + a)
    have hdiv : (8 * k + a) / 8 = k := by omega
    have hmod : (8 * k + a) % 8 = a := by omega
    simpa [isSet, hdiv, hmod, hk] using hbit
  · have h8 : 2 ^ 8 ≤ 2 ^ a := Nat.pow_le_pow_right (by omega) (by omega)
    rw [Nat.testBit_lt_two_pow ((map[k].toNat_lt).trans_le h8),
      Nat.testBit_lt_two_pow ((map'[k].toNat_lt).trans_le h8)]

lemma byte_setIfInBounds (map : Vector UInt8 n) {k : ℕ} (hk : k < n) (x : UInt8) (j : ℕ) :
    (map.setIfInBounds k x)[j]?.getD 0 = if j = k then x else map[j]?.getD 0 := by
  rw [Vector.getElem?_setIfInBounds]
  by_cases hj : k = j
  · subst hj; simp [hk]
  · simp [hj, Ne.symm hj]

lemma isSet_setBit {map : Vector UInt8 n} {i : ℕ} (hi : i < 8 * n) (j : ℕ) :
    isSet (setBit map i).2 j = (decide (j = i) || isSet map j) := by
  unfold setBit
  split
  · rename_i h
    have hs : isSet map i = true := by
      rw [ne_eq, bitAt_eq_zero] at h; simpa using h
    by_cases hj : j = i
    · subst hj; simp [hs]
    · simp [hj]
  · simp only [isSet]
    rw [byte_setIfInBounds map (by omega)]
    split
    · rename_i hb
      rw [byte_set _ (Nat.mod_lt _ (by omega)), hb, Bool.or_comm]
      congr 1
      exact decide_eq_decide.mpr (by omega)
    · rename_i hb
      have hj : j ≠ i := fun h => hb (by rw [h])
      simp [hj]

lemma isSet_clearBit {map : Vector UInt8 n} {i : ℕ} (hi : i < 8 * n) (j : ℕ) :
    isSet (clearBit map i).2 j = (!decide (j = i) && isSet map j) := by
  unfold clearBit
  split
  · rename_i h
    rw [bitAt_eq_zero] at h
    by_cases hj : j = i
    · subst hj; simp [h]
    · simp [hj]
  · simp only [isSet]
    rw [byte_setIfInBounds map (by omega)]
    split
    · rename_i hb
      rw [byte_clear _ (Nat.mod_lt _ (by omega)) (Nat.mod_lt _ (by omega)), hb, Bool.and_comm]
      congr 2
      exact decide_eq_decide.mpr (by omega)
    · rename_i hb
      have hj : j ≠ i := fun h => hb (by rw [h])
      simp [hj]

lemma findFreeBit_cases (map : Vector UInt8 n) (numBits : ℤ) :
    findFreeBit map numBits = -1 ∨ ∃ k : ℕ, findFreeBit map numBits = k := by
  unfold findFreeBit
  split
  · exact Or.inr ⟨_, rfl⟩
  · exact Or.inl rfl

/-- **What `find_free_bit` finds**: the first clear bit. -/
lemma findFreeBit_eq_some {map : Vector UInt8 n} {numBits : ℤ} {i : ℕ} :
    findFreeBit map numBits = i ↔
      (i : ℤ) < numBits ∧ isSet map i = false ∧ ∀ j < i, isSet map j = true := by
  unfold findFreeBit
  rcases hf : (List.range numBits.toNat).find? fun i => bitAt map i = 0 with _ | k
  · rw [List.find?_range_eq_none] at hf
    constructor
    · intro h; simp at h
    · rintro ⟨h1, h2, -⟩
      simpa [bitAt_eq_zero, h2] using hf i (by omega)
  · rw [List.find?_range_eq_some] at hf
    obtain ⟨h1, h2, h3⟩ := hf
    simp only [bitAt_eq_zero, decide_eq_true_eq, List.mem_range] at h1 h2 h3
    constructor
    · intro h
      obtain rfl : k = i := Int.ofNat.inj h
      exact ⟨by omega, h1, fun j hj => by simpa using h3 j hj⟩
    · rintro ⟨h4, h5, h6⟩
      have h7 : ¬ k < i := fun hlt => by simp [h6 k hlt] at h1
      have h8 : ¬ i < k := fun hlt => by simpa [h5] using h3 i hlt
      have : k = i := by omega
      simp [this]

lemma findFreeBit_eq_none {map : Vector UInt8 n} {numBits : ℤ} :
    findFreeBit map numBits = -1 ↔ ∀ i : ℕ, (i : ℤ) < numBits → isSet map i = true := by
  unfold findFreeBit
  rcases hf : (List.range numBits.toNat).find? fun i => bitAt map i = 0 with _ | k
  · rw [List.find?_range_eq_none] at hf
    refine ⟨fun _ i hi => ?_, fun _ => rfl⟩
    simpa [bitAt_eq_zero] using hf i (by omega)
  · rw [List.find?_range_eq_some] at hf
    obtain ⟨h1, h2, -⟩ := hf
    simp only [bitAt_eq_zero, decide_eq_true_eq, List.mem_range] at h1 h2
    constructor
    · intro h; simp at h
    · intro h
      simp [h k (by omega)] at h1

end Messaround.Aofs
