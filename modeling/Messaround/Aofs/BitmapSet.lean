import Mathlib.Data.Finset.Max
import Mathlib.Data.Finset.Range
import Messaround.Aofs.Bitmap
import Messaround.Lib.Calls

/-!
The bitmap routines in C's own arithmetic, as operations on a finite set.

A byte of the map is promoted to an `int` before it is shifted or masked, and cut to a
`uint8_t` when it is stored. An access outside of the map is undefined, and so is a shift by a
negative number.
-/

namespace Messaround.Aofs.Bitmap

open Messaround.Calls

variable {len n : ℕ} {map map' : Vector UInt8 len}

/-! ### The routines -/

/-- The bits of an `int` or an `unsigned int`. -/
abbrev Word := BitVec 32

/-- `sizeof(uint8_t) * 8` -/
abbrev EL_SIZE : ℤ := 8

def promote (x : UInt8) : Word := x.toBitVec.setWidth 32

def cut (x : Word) : UInt8 := ⟨x.setWidth 8⟩

/-- `map[byte_num]` -/
def load (map : Vector UInt8 len) (byteNum : ℤ) : Option Word :=
  if byteNum < 0 then none else map[byteNum.toNat]?.map promote

/-- `map[byte_num] = x` -/
def store (map : Vector UInt8 len) (byteNum : ℤ) (x : Word) : Option (Vector UInt8 len) :=
  if 0 ≤ byteNum ∧ byteNum < len then some (map.setIfInBounds byteNum.toNat (cut x)) else none

/-- `x >> k` for an `int` -/
def shr (x : Word) (k : ℤ) : Option Word :=
  if 0 ≤ k ∧ k < 32 then some (x.sshiftRight k.toNat) else none

/-- `x << k` -/
def shl (x : Word) (k : ℤ) : Option Word :=
  if 0 ≤ k ∧ k < 32 then some (x <<< k.toNat) else none

def bitAt (map : Vector UInt8 len) (idx : ℤ) : Option ℤ := do
  let bitOffset := idx.tmod EL_SIZE
  let byteNum := idx.tdiv EL_SIZE
  let x ← load map byteNum
  let y ← shr x bitOffset
  return (y &&& 1).toInt

/-- The loop of `find_free_bit` at bit `i`, with `todo` bits left. -/
def freeLoop (map : Vector UInt8 len) : (todo : ℕ) → (i : ℤ) → Option ℤ
  | 0, _ => some (-1)
  | todo + 1, i => do
    let byteNum := i.tdiv EL_SIZE
    let bitOffset := i.tmod EL_SIZE
    let x ← load map byteNum
    let y ← shr x bitOffset
    let bit := (y &&& 1).toInt
    if bit = 0 then return i
    else freeLoop map todo (i + 1)

def findFreeBit (map : Vector UInt8 len) (numBits : ℤ) : Option ℤ :=
  freeLoop map numBits.toNat 0

/-- The return value and the map. -/
def setBit (map : Vector UInt8 len) (bitIdx : ℤ) : Option (ℤ × Vector UInt8 len) := do
  let bitOffset := bitIdx.tmod EL_SIZE
  let byteNum := bitIdx.tdiv EL_SIZE
  let x ← load map byteNum
  let y ← shr x bitOffset
  if y &&& 1 ≠ 0 then return (-1, map)
  else
    let mask ← shl 1 bitOffset
    let map ← store map byteNum (x ||| mask)
    return (0, map)

def clearBit (map : Vector UInt8 len) (bitIdx : ℤ) : Option (ℤ × Vector UInt8 len) := do
  let bitOffset := bitIdx.tmod EL_SIZE
  let byteNum := bitIdx.tdiv EL_SIZE
  let x ← load map byteNum
  let y ← shr x bitOffset
  if y &&& 1 = 0 then return (-1, map)
  else
    let bit ← shl 1 bitOffset
    -- an `unsigned int`, stored in an `int`
    let mask := ~~~bit
    let map ← store map byteNum (x &&& mask)
    return (0, map)

/-! ### Promotion -/

lemma toBitVec_shr (x : UInt8) {k : ℕ} (hk : k < 8) :
    (x >>> UInt8.ofNat k).toBitVec = x.toBitVec >>> k := by
  have h8 : k % 256 % 8 = k := by omega
  apply BitVec.eq_of_toNat_eq
  simp [h8]

lemma toBitVec_mask {k : ℕ} (hk : k < 8) :
    ((1 : UInt8) <<< UInt8.ofNat k).toBitVec = 1#8 <<< k := by
  have h8 : k % 256 % 8 = k := by omega
  apply BitVec.eq_of_toNat_eq
  simp [h8]

lemma setWidth_mask (k : ℕ) : ((1 : Word) <<< k).setWidth 8 = 1#8 <<< k := by
  apply BitVec.eq_of_getLsbD_eq
  intro i hi
  simp [hi]

lemma shr_promote (x : UInt8) {k : ℕ} (hk : k < 8) :
    (promote x).sshiftRight k &&& 1 = promote ((x >>> UInt8.ofNat k) &&& 1) := by
  have hmsb : (promote x).msb = false := by simp [promote, BitVec.msb_setWidth]
  rw [BitVec.sshiftRight_eq_of_msb_false hmsb]
  simp [promote, toBitVec_shr x hk]

lemma cut_or (x : UInt8) {k : ℕ} (hk : k < 8) :
    cut (promote x ||| (1 : Word) <<< k) = x ||| 1 <<< UInt8.ofNat k := by
  apply UInt8.eq_of_toBitVec_eq
  rw [UInt8.toBitVec_or, toBitVec_mask hk, ← setWidth_mask k, cut, promote, BitVec.setWidth_or,
    BitVec.setWidth_setWidth_of_le _ (by omega), BitVec.setWidth_eq]

lemma cut_and_not (x : UInt8) {k : ℕ} (hk : k < 8) :
    cut (promote x &&& ~~~((1 : Word) <<< k)) = x &&& ~~~(1 <<< UInt8.ofNat k) := by
  apply UInt8.eq_of_toBitVec_eq
  rw [UInt8.toBitVec_and, UInt8.toBitVec_not, toBitVec_mask hk, ← setWidth_mask k, cut, promote,
    BitVec.setWidth_and, BitVec.setWidth_not (by omega),
    BitVec.setWidth_setWidth_of_le _ (by omega), BitVec.setWidth_eq]

lemma toInt_promote (x : UInt8) : (promote x).toInt = x.toNat := by
  have hlt := x.toNat_lt
  rw [BitVec.toInt_eq_toNat_of_lt]
  · simp [promote]
  · simp [promote]
    omega

lemma promote_eq_zero {x : UInt8} : promote x = 0 ↔ x.toNat = 0 := by
  rw [← BitVec.toInt_inj, toInt_promote]
  simp

/-! ### The routines on bytes -/

section access

variable {i : ℕ}

lemma tmod_eq (i : ℕ) : (i : ℤ).tmod EL_SIZE = ((i % 8 : ℕ) : ℤ) := (Int.ofNat_tmod i 8).symm

lemma tdiv_eq (i : ℕ) : (i : ℤ).tdiv EL_SIZE = ((i / 8 : ℕ) : ℤ) := (Int.ofNat_tdiv i 8).symm

lemma load_eq (map : Vector UInt8 len) (hi : i < 8 * len) :
    load map ((i : ℤ).tdiv EL_SIZE) = some (promote (map[i / 8]?.getD 0)) := by
  have hlt : i / 8 < len := by omega
  rw [tdiv_eq, load, if_neg (by omega), Int.toNat_natCast, Vector.getElem?_eq_getElem hlt]
  rfl

lemma store_eq (map : Vector UInt8 len) (hi : i < 8 * len) (x : Word) :
    store map ((i : ℤ).tdiv EL_SIZE) x = some (map.setIfInBounds (i / 8) (cut x)) := by
  rw [tdiv_eq, store, if_pos (by omega), Int.toNat_natCast]

lemma shr_eq (x : Word) (i : ℕ) :
    shr x ((i : ℤ).tmod EL_SIZE) = some (x.sshiftRight (i % 8)) := by
  rw [tmod_eq, shr, if_pos (by omega), Int.toNat_natCast]

lemma shl_eq (x : Word) (i : ℕ) : shl x ((i : ℤ).tmod EL_SIZE) = some (x <<< (i % 8)) := by
  rw [tmod_eq, shl, if_pos (by omega), Int.toNat_natCast]

lemma test_eq (map : Vector UInt8 len) (i : ℕ) :
    (promote (map[i / 8]?.getD 0)).sshiftRight (i % 8) &&& 1 =
      promote ((map[i / 8]?.getD 0 >>> UInt8.ofNat (i % 8)) &&& 1) :=
  shr_promote _ (Nat.mod_lt _ (by omega))

lemma bitAt_eq (map : Vector UInt8 len) (hi : i < 8 * len) :
    bitAt map i = some ((Aofs.bitAt map i : ℕ) : ℤ) := by
  simp only [bitAt, load_eq map hi, shr_eq, Option.bind_eq_bind, Option.bind_some, test_eq,
    toInt_promote, Aofs.bitAt]
  rfl

lemma setBit_eq (map : Vector UInt8 len) (hi : i < 8 * len) :
    setBit map i = some (Aofs.setBit map i) := by
  have hmod : i % 8 < 8 := Nat.mod_lt _ (by omega)
  simp only [setBit, load_eq map hi, shr_eq, shl_eq, store_eq map hi, Option.bind_eq_bind,
    Option.bind_some, test_eq, cut_or _ hmod, ne_eq, promote_eq_zero]
  exact (apply_ite some _ _ _).symm

lemma clearBit_eq (map : Vector UInt8 len) (hi : i < 8 * len) :
    clearBit map i = some (Aofs.clearBit map i) := by
  have hmod : i % 8 < 8 := Nat.mod_lt _ (by omega)
  simp only [clearBit, load_eq map hi, shr_eq, shl_eq, store_eq map hi, Option.bind_eq_bind,
    Option.bind_some, test_eq, cut_and_not _ hmod, promote_eq_zero]
  exact (apply_ite some _ _ _).symm

lemma freeLoop_eq (map : Vector UInt8 len) {todo : ℕ} (hi : i + todo ≤ 8 * len) :
    freeLoop map todo i =
      some (match (List.range' i todo).find? fun j => Aofs.bitAt map j = 0 with
        | some j => (j : ℤ)
        | none => -1) := by
  induction todo generalizing i with
  | zero => rfl
  | succ todo ih =>
    have hbit : ((promote (map[i / 8]?.getD 0)).sshiftRight (i % 8) &&& 1).toInt =
        ((Aofs.bitAt map i : ℕ) : ℤ) := by
      rw [test_eq, toInt_promote]
      rfl
    have hnext : (i : ℤ) + 1 = ((i + 1 : ℕ) : ℤ) := rfl
    simp only [freeLoop, load_eq map (show i < 8 * len by omega), shr_eq, Option.bind_eq_bind,
      Option.bind_some, hbit, Int.natCast_eq_zero]
    rw [List.range'_succ]
    by_cases h0 : Aofs.bitAt map i = 0
    · rw [if_pos h0, List.find?_cons_of_pos (by simpa using h0)]
      rfl
    · rw [if_neg h0, List.find?_cons_of_neg (by simpa using h0), hnext]
      exact ih (by omega)

lemma findFreeBit_eq (map : Vector UInt8 len) (hn : n ≤ 8 * len) :
    findFreeBit map n = some (Aofs.findFreeBit map n) := by
  have hle : 0 + n ≤ 8 * len := by rwa [zero_add]
  rw [findFreeBit, Int.toNat_natCast]
  refine (freeLoop_eq map hle).trans ?_
  rewrite [Aofs.findFreeBit, Int.toNat_natCast, List.range_eq_range']
  rfl

end access

/-! ### The laws of the routines -/

/-- What `set_bit` (`v = 1`) and `clear_bit` (`v = 0`) do to bit `i` of the first `n` bits. -/
structure Puts (v : ℤ) (map map' : Vector UInt8 len) (i n : ℕ) (r : ℤ) : Prop where
  bit : ∀ j < n, bitAt map' (j : ℕ) = if j = i then some v else bitAt map (j : ℕ)
  result : r = 0 ∨ r = -1
  refused : r = -1 ↔ bitAt map i = some v
  unchanged : r = -1 → map' = map

/-- What holds of the first `n` bits of a map. -/
structure Laws (map : Vector UInt8 len) (n : ℕ) : Prop where
  bit : ∀ j < n, bitAt map (j : ℕ) = some 0 ∨ bitAt map (j : ℕ) = some 1
  set : ∀ i < n, ∃ r map', setBit map (i : ℕ) = some (r, map') ∧ Puts 1 map map' i n r
  clear : ∀ i < n, ∃ r map', clearBit map (i : ℕ) = some (r, map') ∧ Puts 0 map map' i n r
  clear_set : ∀ i < n, ∀ map', setBit map (i : ℕ) = some (0, map') →
    clearBit map' (i : ℕ) = some (0, map)
  set_clear : ∀ i < n, ∀ map', clearBit map (i : ℕ) = some (0, map') →
    setBit map' (i : ℕ) = some (0, map)
  found : ∀ i : ℕ, findFreeBit map n = some (i : ℤ) ↔
    i < n ∧ bitAt map i = some 0 ∧ ∀ j < i, bitAt map (j : ℕ) = some 1
  full : findFreeBit map n = some (-1) ↔ ∀ j < n, bitAt map (j : ℕ) = some 1
  defined : findFreeBit map n = some (-1) ∨ ∃ i : ℕ, findFreeBit map n = some (i : ℤ)

section laws

variable {i j : ℕ} {v : Bool} {p q : ℤ × Vector UInt8 len}

lemma bitAt_isSet (map : Vector UInt8 len) (hj : j < 8 * len) :
    bitAt map j = some ((isSet map j).toNat : ℤ) := by
  rw [bitAt_eq map hj, Aofs.bitAt_eq]

lemma bitAt_eq_some (v : Bool) (hj : j < 8 * len) :
    bitAt map j = some (v.toNat : ℤ) ↔ isSet map j = v := by
  rw [bitAt_isSet map hj, Option.some_inj]
  cases isSet map j <;> cases v <;> simp

/-- The call that gave `p` stores `v` in bit `i` of `map`, or refuses to when it is there. -/
structure Stores (v : Bool) (i : ℕ) (map : Vector UInt8 len) (p : ℤ × Vector UInt8 len) :
    Prop where
  bits : ∀ j, isSet p.2 j = if j = i then v else isSet map j
  result : p.1 = if isSet map i = v then -1 else 0

lemma stores_setBit (map : Vector UInt8 len) (hi : i < 8 * len) :
    Stores true i map (Aofs.setBit map i) := by
  refine ⟨fun j => ?_, ?_⟩
  · rw [isSet_setBit hi]
    by_cases hj : j = i <;> simp [hj]
  · rw [Aofs.setBit, Aofs.bitAt_eq]
    cases isSet map i <;> rfl

lemma stores_clearBit (map : Vector UInt8 len) (hi : i < 8 * len) :
    Stores false i map (Aofs.clearBit map i) := by
  refine ⟨fun j => ?_, ?_⟩
  · rw [isSet_clearBit hi]
    by_cases hj : j = i <;> simp [hj]
  · rw [Aofs.clearBit, Aofs.bitAt_eq]
    cases isSet map i <;> rfl

lemma Stores.unchanged (h : Stores v i map p) (hp : p.1 = -1) : p.2 = map := by
  have hv : isSet map i = v := by
    by_contra hv
    rw [h.result, if_neg hv] at hp
    omega
  refine eq_of_isSet fun j => ?_
  rw [h.bits]
  split
  · rename_i hj
    rw [hj, hv]
  · rfl

lemma Stores.undo (h : Stores v i map p) (hp : p.1 = 0) (h' : Stores (!v) i p.2 q) :
    q = (0, map) := by
  have hv : isSet map i = !v := by
    by_contra hv
    rw [h.result, if_pos (by simpa using hv)] at hp
    omega
  refine Prod.ext ?_ (eq_of_isSet fun j => ?_)
  · rw [h'.result, h.bits, if_pos rfl, if_neg (by simp)]
  · rw [h'.bits, h.bits]
    split
    · rename_i hj
      rw [hj, hv]
    · rfl

lemma Stores.puts (h : Stores v i map p) (hn : n ≤ 8 * len) (hi : i < n) :
    Puts (v.toNat : ℤ) map p.2 i n p.1 := by
  constructor
  case bit =>
    intro j hj
    rw [bitAt_isSet p.2 (hj.trans_le hn), bitAt_isSet map (hj.trans_le hn), h.bits]
    split <;> rfl
  case result =>
    rw [h.result]
    split
    · exact Or.inr rfl
    · exact Or.inl rfl
  case refused =>
    rw [bitAt_eq_some v (hi.trans_le hn), h.result]
    split
    · rename_i hv
      exact iff_of_true rfl hv
    · rename_i hv
      exact iff_of_false (by omega) hv
  case unchanged => exact h.unchanged

lemma findFreeBit_eq_some (map : Vector UInt8 len) (hn : n ≤ 8 * len) :
    findFreeBit map n = some (i : ℤ) ↔
      i < n ∧ isSet map i = false ∧ ∀ j < i, isSet map j = true := by
  rw [findFreeBit_eq map hn, Option.some_inj, Aofs.findFreeBit_eq_some, Int.ofNat_lt]

lemma findFreeBit_eq_none (map : Vector UInt8 len) (hn : n ≤ 8 * len) :
    findFreeBit map n = some (-1) ↔ ∀ i < n, isSet map i = true := by
  rw [findFreeBit_eq map hn, Option.some_inj, Aofs.findFreeBit_eq_none]
  simp only [Int.ofNat_lt]

lemma laws_of_le (map : Vector UInt8 len) (hn : n ≤ 8 * len) : Laws map n := by
  constructor
  case bit =>
    intro j hj
    rw [bitAt_isSet map (hj.trans_le hn)]
    cases isSet map j
    · exact Or.inl rfl
    · exact Or.inr rfl
  case set =>
    intro i hi
    exact ⟨_, _, setBit_eq map (hi.trans_le hn), (stores_setBit map (hi.trans_le hn)).puts hn hi⟩
  case clear =>
    intro i hi
    exact ⟨_, _, clearBit_eq map (hi.trans_le hn),
      (stores_clearBit map (hi.trans_le hn)).puts hn hi⟩
  case clear_set =>
    intro i hi map' h
    have hi' := hi.trans_le hn
    rw [setBit_eq map hi', Option.some_inj] at h
    have hs := stores_setBit map hi'
    rw [h] at hs
    rw [clearBit_eq map' hi', hs.undo rfl (stores_clearBit map' hi')]
  case set_clear =>
    intro i hi map' h
    have hi' := hi.trans_le hn
    rw [clearBit_eq map hi', Option.some_inj] at h
    have hs := stores_clearBit map hi'
    rw [h] at hs
    rw [setBit_eq map' hi', hs.undo rfl (stores_setBit map' hi')]
  case found =>
    intro i
    rw [findFreeBit_eq_some map hn]
    refine and_congr_right fun hi => and_congr ?_ (forall₂_congr fun j hj => ?_)
    · exact (bitAt_eq_some false (hi.trans_le hn)).symm
    · exact (bitAt_eq_some true ((hj.trans hi).trans_le hn)).symm
  case full =>
    rw [findFreeBit_eq_none map hn]
    exact forall₂_congr fun j hj => (bitAt_eq_some true (hj.trans_le hn)).symm
  case defined =>
    rw [findFreeBit_eq map hn]
    rcases findFreeBit_cases map n with h | ⟨k, h⟩
    · rw [h]
      exact Or.inl rfl
    · rw [h]
      exact Or.inr ⟨k, rfl⟩

end laws

/-! ### The set -/

/-- The numbers below `n` whose bits are set. -/
def members (map : Vector UInt8 len) (n : ℕ) : Finset ℕ :=
  (Finset.range n).filter fun i => bitAt map i = some 1

/-- A call of one of the routines. -/
inductive Call
  | bitAt (idx : ℕ)
  | findFreeBit (numBits : ℕ)
  | setBit (bitIdx : ℕ)
  | clearBit (bitIdx : ℕ)

namespace Call

/-- The return value of the call and the map it leaves. -/
def perform : Call → Vector UInt8 len → Option (ℤ × Vector UInt8 len)
  | .bitAt idx, map => (Bitmap.bitAt map idx).map fun r => (r, map)
  | .findFreeBit numBits, map => (Bitmap.findFreeBit map numBits).map fun r => (r, map)
  | .setBit bitIdx, map => Bitmap.setBit map bitIdx
  | .clearBit bitIdx, map => Bitmap.clearBit map bitIdx

/-- The least number below `n` that is not in the set, or `-1`. -/
def leastFree (s : Finset ℕ) (n : ℕ) : ℤ :=
  if h : (Finset.range n \ s).Nonempty then (Finset.range n \ s).min' h else -1

/-- The call on a finite set. -/
def spec : Call → Finset ℕ → ℤ × Finset ℕ
  | .bitAt idx, s => (if idx ∈ s then 1 else 0, s)
  | .findFreeBit numBits, s => (leastFree s numBits, s)
  | .setBit bitIdx, s => if bitIdx ∈ s then (-1, s) else (0, insert bitIdx s)
  | .clearBit bitIdx, s => if bitIdx ∈ s then (0, s.erase bitIdx) else (-1, s)

/-- The call is about the first `n` bits. -/
def Below (n : ℕ) : Call → Prop
  | .bitAt idx => idx < n
  | .findFreeBit numBits => numBits ≤ n
  | .setBit bitIdx => bitIdx < n
  | .clearBit bitIdx => bitIdx < n

instance (n : ℕ) : (c : Call) → Decidable (c.Below n)
  | .bitAt idx => inferInstanceAs (Decidable (idx < n))
  | .findFreeBit numBits => inferInstanceAs (Decidable (numBits ≤ n))
  | .setBit bitIdx => inferInstanceAs (Decidable (bitIdx < n))
  | .clearBit bitIdx => inferInstanceAs (Decidable (bitIdx < n))

end Call

section set

variable {i m : ℕ}

lemma mem_members (hn : n ≤ 8 * len) : i ∈ members map n ↔ i < n ∧ isSet map i = true := by
  rw [members, Finset.mem_filter, Finset.mem_range]
  exact and_congr_right fun hi => bitAt_eq_some true (hi.trans_le hn)

/-- The set that a call leaves, where the bits are those of `map` but for bit `i`. -/
lemma Stores.members {v : Bool} {p : ℤ × Vector UInt8 len} (h : Stores v i map p)
    (hn : n ≤ 8 * len) (hi : i < n) : members p.2 n =
      if v then insert i (members map n) else (members map n).erase i := by
  ext j
  rw [mem_members hn, h.bits]
  cases v
  · rw [if_neg Bool.false_ne_true, Finset.mem_erase, mem_members hn]
    by_cases hj : j = i <;> simp [hj]
  · rw [if_pos rfl, Finset.mem_insert, mem_members hn]
    by_cases hj : j = i
    · simp [hj, hi]
    · simp [hj]

lemma findFreeBit_members (hn : n ≤ 8 * len) (hm : m ≤ n) :
    findFreeBit map m = some (Call.leastFree (members map n) m) := by
  have hmem : ∀ j < m, isSet map j = true ↔ j ∈ members map n := by
    intro j hj
    rw [mem_members hn]
    exact ⟨fun h => ⟨hj.trans_le hm, h⟩, And.right⟩
  unfold Call.leastFree
  split
  · rename_i h
    obtain ⟨hlt, hfree⟩ := Finset.mem_sdiff.mp (Finset.min'_mem _ h)
    rw [Finset.mem_range] at hlt
    rw [findFreeBit_eq_some map (hm.trans hn)]
    refine ⟨hlt, ?_, fun j hj => ?_⟩
    · rw [← Bool.not_eq_true, hmem _ hlt]
      exact hfree
    · rw [hmem j (hj.trans hlt)]
      by_contra hj'
      have hjm : j ∈ Finset.range m \ members map n :=
        Finset.mem_sdiff.mpr ⟨Finset.mem_range.mpr (hj.trans hlt), hj'⟩
      exact absurd (Finset.min'_le _ j hjm) (not_le.mpr hj)
  · rename_i h
    rw [findFreeBit_eq_none map (hm.trans hn)]
    intro j hj
    rw [hmem j hj]
    by_contra hj'
    exact h ⟨j, Finset.mem_sdiff.mpr ⟨Finset.mem_range.mpr hj, hj'⟩⟩

lemma spec_setBit (hn : n ≤ 8 * len) (hi : i < n) (map : Vector UInt8 len) :
    (Call.setBit i).spec (members map n) =
      ((Aofs.setBit map i).1, members (Aofs.setBit map i).2 n) := by
  have hs := stores_setBit map (hi.trans_le hn)
  have hmem : i ∈ members map n ↔ isSet map i = true := (mem_members hn).trans (and_iff_right hi)
  rw [hs.result, hs.members hn hi, if_pos rfl, Call.spec]
  by_cases h : i ∈ members map n
  · rw [if_pos h, if_pos (hmem.mp h), Finset.insert_eq_of_mem h]
  · rw [if_neg h, if_neg fun hb => h (hmem.mpr hb)]

lemma spec_clearBit (hn : n ≤ 8 * len) (hi : i < n) (map : Vector UInt8 len) :
    (Call.clearBit i).spec (members map n) =
      ((Aofs.clearBit map i).1, members (Aofs.clearBit map i).2 n) := by
  have hs := stores_clearBit map (hi.trans_le hn)
  have hmem : i ∈ members map n ↔ isSet map i = true := (mem_members hn).trans (and_iff_right hi)
  rw [hs.result, hs.members hn hi, if_neg Bool.false_ne_true, Call.spec]
  by_cases h : i ∈ members map n
  · rw [if_pos h, if_neg (by rw [hmem.mp h]; decide)]
  · rw [if_neg h, if_pos (Bool.not_eq_true _ ▸ fun hb => h (hmem.mpr hb)),
      Finset.erase_eq_of_notMem h]

/-- **One call** is answered as on the set. -/
lemma Call.perform_refines (hn : n ≤ 8 * len) {c : Call} (hc : c.Below n)
    (map : Vector UInt8 len) : ∃ map', c.perform map = some ((c.spec (members map n)).1, map') ∧
      members map' n = (c.spec (members map n)).2 := by
  cases c with
  | bitAt idx =>
    have hmem : idx ∈ members map n ↔ isSet map idx = true :=
      (mem_members hn).trans (and_iff_right hc)
    refine ⟨map, ?_, rfl⟩
    rw [perform, spec, bitAt_isSet map (Nat.lt_of_lt_of_le hc hn)]
    simp only [hmem]
    cases isSet map idx <;> rfl
  | findFreeBit numBits =>
    refine ⟨map, ?_, rfl⟩
    rw [perform, findFreeBit_members hn hc]
    rfl
  | setBit bitIdx =>
    rw [spec_setBit hn hc]
    exact ⟨_, setBit_eq map (Nat.lt_of_lt_of_le hc hn), rfl⟩
  | clearBit bitIdx =>
    rw [spec_clearBit hn hc]
    exact ⟨_, clearBit_eq map (Nat.lt_of_lt_of_le hc hn), rfl⟩

end set

/-- **The bitmap routines refine a finite set**: a sequence of calls is answered as on the set
of the numbers whose bits are set, and the laws of the routines hold of the map it starts from
and of the one it leaves. -/
theorem refines_finset (map : Vector UInt8 len) (hn : n ≤ 8 * len) {cs : List Call}
    (hcs : ∀ c ∈ cs, c.Below n) : Laws map n ∧
      ∃ map', run Call.perform cs map = some ((runSpec Call.spec cs (members map n)).1, map') ∧
        members map' n = (runSpec Call.spec cs (members map n)).2 ∧ Laws map' n := by
  have hstep : ∀ (c : Call) (m : Vector UInt8 len) s, c.Below n → members m n = s →
      ∃ m', c.perform m = some ((c.spec s).1, m') ∧ members m' n = (c.spec s).2 := by
    rintro c m _ hc rfl
    exact Call.perform_refines hn hc m
  obtain ⟨map', hr, hm⟩ := run_refines hstep hcs rfl
  exact ⟨laws_of_le map hn, map', hr, hm, laws_of_le map' hn⟩

/-- The first free one of twelve bits is taken, and another is given back. -/
def takeAndGiveBack : List Call := [.findFreeBit 12, .setBit 9, .clearBit 3, .bitAt 9]

theorem refines_finset_twelve : Laws #v[0xff, 0x05] 12 ∧
    ∃ map', run Call.perform takeAndGiveBack #v[0xff, 0x05] =
        some ((runSpec Call.spec takeAndGiveBack (members #v[0xff, 0x05] 12)).1, map') ∧
      members map' 12 = (runSpec Call.spec takeAndGiveBack (members #v[0xff, 0x05] 12)).2 ∧
      Laws map' 12 :=
  refines_finset #v[0xff, 0x05] (by decide) (by decide)

end Messaround.Aofs.Bitmap
