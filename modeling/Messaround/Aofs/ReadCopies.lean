import Messaround.Aofs.Laws

/-!
What `aofs_read_file` puts into the caller's buffer.

The first block goes to the start of the buffer, but the blocks behind it go where they would
stand if the first one had been copied from its own start on.
-/

namespace Messaround.Aofs

open Messaround.CInt Messaround.Segment Disk

variable {d : Disk} {p : CStr} {h i : Fin BLOCK_NUM} {pre post c : List (Fin BLOCK_NUM)}

/-! ### Copies -/

/-- The buffer after one `memcpy`; `buf x` is the byte at `buf + x`. -/
def Copy.apply (buf : ℤ → UInt8) (c : Copy) : ℤ → UInt8 := fun x =>
  if c.dst ≤ x ∧ x < c.dst + c.bytes.length then c.bytes.getD (x - c.dst).toNat 0 else buf x

/-- The buffer after the copies of a read. -/
def copyAll (buf : ℤ → UInt8) (cs : List Copy) : ℤ → UInt8 := cs.foldl Copy.apply buf

lemma copyAll_cons (buf : ℤ → UInt8) (c : Copy) (cs : List Copy) :
    copyAll buf (c :: cs) = copyAll (c.apply buf) cs := rfl

lemma copyAll_append (buf : ℤ → UInt8) (cs cs' : List Copy) :
    copyAll buf (cs ++ cs') = copyAll (copyAll buf cs) cs' := List.foldl_append ..

/-- The copy of `n` bytes from `src` on. -/
def partCopy (b : Block) (dst src n : ℕ) : Copy := ⟨dst, (b.data.toList.drop src).take n⟩

lemma partCopy_apply (buf : ℤ → UInt8) (b : Block) {dst src n : ℕ} (hn : src + n ≤ BLOCK_DATA)
    (x : ℕ) : (partCopy b dst src n).apply buf x =
      if dst ≤ x ∧ x < dst + n then b.byte (src + (x - dst)) else buf x := by
  have hlen : ((b.data.toList.drop src).take n).length = n := by
    rw [List.length_take, List.length_drop, Vector.length_toList]; omega
  have hiff : ((dst : ℤ) ≤ x ∧ (x : ℤ) < dst + n) ↔ (dst ≤ x ∧ x < dst + n) := by omega
  have hsub : ((x : ℤ) - dst).toNat = x - dst := by omega
  rw [Copy.apply, partCopy]
  simp only [hlen, hiff, hsub]
  split
  · rename_i hx
    rw [List.getD_eq_getElem?_getD, List.getElem?_take_of_lt (by omega), List.getElem?_drop,
      Block.byte]
    simp
  · rfl

/-- The copies of the full blocks `c`, from iteration `k` of the loop on. -/
def fullCopies (d : Disk) (bo : ℕ) : (k : ℕ) → List (Fin BLOCK_NUM) → List Copy
  | _, [] => []
  | k, j :: c => partCopy (d.blocks j) (bo + BLOCK_DATA * k) 0 BLOCK_DATA :: fullCopies d bo (k + 1) c

lemma copyAll_fullCopies (buf : ℤ → UInt8) (bo k x : ℕ) :
    copyAll buf (fullCopies d bo k c) x =
      if bo + BLOCK_DATA * k ≤ x ∧ x < bo + BLOCK_DATA * (k + c.length) then
        d.byteAt c (x - (bo + BLOCK_DATA * k)) else buf x := by
  induction c generalizing k buf with
  | nil =>
    rw [List.length_nil, add_zero, if_neg (by omega)]
    rfl
  | cons j c ih =>
    rw [fullCopies, copyAll_cons, ih, partCopy_apply _ _ (by omega), byteAt_cons, List.length_cons]
    have hk : BLOCK_DATA * (k + 1) = BLOCK_DATA * k + BLOCK_DATA := Nat.mul_succ _ _
    have hl : BLOCK_DATA * (k + 1 + c.length) = BLOCK_DATA * (k + (c.length + 1)) := by
      congr 1; omega
    have hle : BLOCK_DATA * k + BLOCK_DATA ≤ BLOCK_DATA * (k + (c.length + 1)) := by
      rw [← hk]; exact Nat.mul_le_mul_left _ (by omega)
    rw [hk, hl]
    generalize BLOCK_DATA * (k + (c.length + 1)) = e at *
    generalize BLOCK_DATA * k = m at *
    generalize BLOCK_DATA = B at *
    by_cases h1 : bo + (m + B) ≤ x ∧ x < bo + e
    · have hsub : x - (bo + m) - B = x - (bo + (m + B)) := by omega
      rw [if_pos h1, if_pos (by omega), if_neg (by omega), hsub]
    · rw [if_neg h1]
      by_cases h2 : bo + m ≤ x ∧ x < bo + m + B
      · rw [if_pos h2, if_pos (by omega), if_pos (by omega), zero_add]
      · rw [if_neg h2, if_neg (by omega)]

/-! ### The functions -/

lemma safe_copyOut {b : Block} {src n dst : ℕ} {src' n' dst' : ℤ} {Q : Copy → Disk → Prop}
    (hs : src' = (src : ℕ)) (hn : n' = n) (hd : dst' = dst) (hfit : src + n ≤ BLOCK_DATA)
    (hQ : Q (partCopy b dst src n) d) : Safe (copyOut b src' n' dst') d Q := by
  subst hs hn hd
  rw [copyOut, if_pos ⟨Int.natCast_nonneg _, by exact_mod_cast hfit⟩]
  exact safe_pure hQ

lemma safe_seekStart {Q : Option Block → Disk → Prop}
    (hc : d.Chain (addr h) (pre ++ i :: post)) (hQ : Q (some (d.blocks i)) d) :
    Safe (seekStart pre.length (d.blocks h)) d Q := by
  induction pre generalizing h with
  | nil =>
    obtain rfl := addr_injective (seg_cons.mp hc).1
    exact safe_ret hQ
  | cons k pre ih =>
    obtain rfl := addr_injective (seg_cons.mp hc).1
    obtain ⟨k, hk, hc'⟩ := chain_next hc
    have hk' : (d.blocks h).dbm.next = addr k := hk
    rw [List.length_cons, seekStart, hk', if_neg (addr_nonneg k)]
    exact safe_bind (safe_readBlock (ih hc'))

lemma safe_seekStart_none {todo : ℕ} {Q : Option Block → Disk → Prop}
    (hc : d.Chain (addr h) c) (ht : c.length ≤ todo) (hQ : Q none d) :
    Safe (seekStart todo (d.blocks h)) d Q := by
  induction c generalizing h todo with
  | nil => exact absurd (seg_nil.mp hc) (addr_ne h)
  | cons j c ih =>
    obtain ⟨hj, hc'⟩ := seg_cons.mp hc
    obtain rfl := addr_injective hj
    obtain ⟨todo, rfl⟩ : ∃ k, todo = k + 1 := ⟨todo - 1, by rw [List.length_cons] at ht; omega⟩
    rw [seekStart]
    cases c with
    | nil =>
      have hend : (d.blocks h).dbm.next = -1 := seg_nil.mp hc'
      rw [hend, if_pos (by omega)]
      exact safe_pure hQ
    | cons k c =>
      have hk : (d.blocks h).dbm.next = addr k := (seg_cons.mp hc').1
      rw [hk, if_neg (addr_nonneg k)]
      refine safe_bind (safe_readBlock (ih ?_ (by simpa using ht)))
      rw [← hk]; exact hc'

/-- The count of the bytes read after `n` full blocks, in an `int`. -/
def countAfter (n : ℕ) (br : ℤ) : ℤ := (fun x => toInt (x + (BLOCK_DATA : ℕ)))^[n] br

lemma countAfter_eq {n br : ℕ} (h : br + n * BLOCK_DATA ≤ INT_MAX) :
    countAfter n br = (br + n * BLOCK_DATA : ℕ) := by
  induction n generalizing br with
  | zero => rw [Nat.zero_mul, add_zero]; rfl
  | succ n ih =>
    have hadd : br + (n + 1) * BLOCK_DATA = br + BLOCK_DATA + n * BLOCK_DATA := by ring
    rw [hadd] at h ⊢
    have hint : toInt ((br : ℤ) + (BLOCK_DATA : ℕ)) = (br + BLOCK_DATA : ℕ) := by
      simp only [BLOCK_DATA, INT_MAX] at h ⊢
      rw [toInt_of_range (by omega) (by omega)]
      rfl
    rw [countAfter, Function.iterate_succ_apply, hint]
    exact ih h

lemma safe_readMiddle_step {i j : Fin BLOCK_NUM} {bo todo k : ℕ} {br : ℤ} {cs : List Copy}
    {Q : Progress → Disk → Prop} (hj : d.next i = addr j)
    (h : Safe (readMiddle bo todo (k + 1) (d.blocks j) (toInt (br + (BLOCK_DATA : ℕ)))
      (cs ++ [partCopy (d.blocks j) (bo + BLOCK_DATA * k) 0 BLOCK_DATA])) d Q) :
    Safe (readMiddle bo (todo + 1) k (d.blocks i) br cs) d Q := by
  have hj' : (d.blocks i).dbm.next = addr j := hj
  rw [readMiddle, hj', if_neg (addr_nonneg j)]
  exact safe_bind (safe_readBlock (safe_bind
    (safe_copyOut Nat.cast_zero.symm rfl (by push_cast; rfl) (by omega) h)))

/-- The loop over the full blocks, as far as the links go: either all of them, or up to the
end of the links. -/
lemma safe_readMiddle_seg {a : List (Fin BLOCK_NUM)} {bo todo k : ℕ} {q br : ℤ} {cs : List Copy}
    {Q : Progress → Disk → Prop} (hc : Seg addr d.next (d.next i) a q)
    (hall : a.length = todo → ∀ j, d.next j = q →
      Q ⟨some (d.blocks j), countAfter a.length br, cs ++ fullCopies d bo k a⟩ d)
    (hend : a.length < todo →
      q < 0 ∧ Q ⟨none, countAfter a.length br, cs ++ fullCopies d bo k a⟩ d)
    (hle : a.length ≤ todo) : Safe (readMiddle bo todo k (d.blocks i) br cs) d Q := by
  induction a generalizing i todo k br cs with
  | nil =>
    rw [fullCopies, List.append_nil] at hall hend
    cases todo with
    | zero => exact safe_ret (hall rfl i (seg_nil.mp hc))
    | succ todo =>
      obtain ⟨hq, hQ⟩ := hend (Nat.succ_pos _)
      have hneg : (d.blocks i).dbm.next < 0 := (seg_nil.mp hc).trans_lt hq
      rw [readMiddle, if_pos hneg]
      exact safe_pure hQ
  | cons j a ih =>
    obtain ⟨hj, hc'⟩ := seg_cons.mp hc
    rw [List.length_cons] at hall hend hle
    obtain ⟨todo, rfl⟩ : ∃ k, todo = k + 1 := ⟨todo - 1, by omega⟩
    refine safe_readMiddle_step hj (ih hc' (fun hlen j' hj' => ?_) (fun hlt => ?_) (by omega))
    · rw [List.append_assoc]
      exact hall (by omega) j' hj'
    · rw [List.append_assoc]
      exact hend (by omega)

lemma safe_readMiddle {a b : List (Fin BLOCK_NUM)} {bo k br : ℕ} {cs : List Copy}
    {Q : Progress → Disk → Prop} (hc : d.Chain (d.next i) (a ++ b))
    (hbr : br + a.length * BLOCK_DATA ≤ INT_MAX)
    (hQ : ∀ j, d.Chain (d.next j) b →
      Q ⟨some (d.blocks j), (br + a.length * BLOCK_DATA : ℕ), cs ++ fullCopies d bo k a⟩ d) :
    Safe (readMiddle bo a.length k (d.blocks i) br cs) d Q := by
  obtain ⟨q, hq, hb⟩ := seg_append.mp hc
  rw [← countAfter_eq hbr] at hQ
  exact safe_readMiddle_seg hq (fun _ j hj => hQ j (hj ▸ hb))
    (fun hlt => absurd hlt (lt_irrefl _)) le_rfl

lemma safe_readMiddle_none {todo bo k br : ℕ} {cs : List Copy} {Q : Progress → Disk → Prop}
    (hc : d.Chain (d.next i) post) (ht : post.length < todo)
    (hbr : br + post.length * BLOCK_DATA ≤ INT_MAX)
    (hQ : Q ⟨none, (br + post.length * BLOCK_DATA : ℕ), cs ++ fullCopies d bo k post⟩ d) :
    Safe (readMiddle bo todo k (d.blocks i) br cs) d Q := by
  rw [← countAfter_eq hbr] at hQ
  exact safe_readMiddle_seg hc (fun h => absurd h ht.ne) (fun _ => ⟨by decide, hQ⟩) ht.le

/-! ### From the first block on -/

/-- The number of blocks that a range of `size` bytes, from byte `o` of its first block on,
reaches into behind that one. The code keeps it in an `int`. -/
def moreBlocks (o size : ℕ) : ℤ := toInt (toULong ((o : ℤ) + size - 1) / (BLOCK_DATA : ℕ))

lemma moreBlocks_eq {o size n : ℕ} (hlo : n * BLOCK_DATA < o + size)
    (hhi : o + size ≤ (n + 1) * BLOCK_DATA) (hn : n ≤ INT_MAX) : moreBlocks o size = n := by
  simp only [BLOCK_DATA, INT_MAX] at hlo hhi hn
  have hdiv : ((o : ℤ) + size - 1) / 3768 = n := by omega
  rw [moreBlocks, toULong_of_range (by omega) (by omega)]
  simp only [BLOCK_DATA, Nat.cast_ofNat]
  rw [hdiv, toInt_of_range (by omega) (by omega)]

lemma moreBlocks_zero {o size : ℕ} (hpos : 0 < o + size) (hle : o + size ≤ BLOCK_DATA) :
    moreBlocks o size = 0 :=
  moreBlocks_eq (by omega) (by omega) (Nat.zero_le _)

lemma moreBlocks_of_le {o size : ℕ} (hpos : 0 < o + size) (ho : o < BLOCK_DATA)
    (hs : size ≤ INT_MAX) : moreBlocks o size = ((o + size - 1) / BLOCK_DATA : ℕ) := by
  simp only [BLOCK_DATA, INT_MAX] at ho hs
  refine moreBlocks_eq ?_ ?_ ?_
  · simp only [BLOCK_DATA]
    omega
  · simp only [BLOCK_DATA]
    omega
  · simp only [BLOCK_DATA, INT_MAX]
    omega

lemma lt_of_moreBlocks {o size n : ℕ} (hpos : 0 < o + size) (hn : n ≤ moreBlocks o size) :
    n * BLOCK_DATA < o + size := by
  have hle : toULong ((o : ℤ) + size - 1) ≤ (o : ℤ) + size - 1 := by unfold toULong; omega
  have h0 := (toULong_range ((o : ℤ) + size - 1)).1
  rw [moreBlocks] at hn
  generalize toULong ((o : ℤ) + size - 1) = t at *
  have ht : toInt (t / (BLOCK_DATA : ℕ)) ≤ t / (BLOCK_DATA : ℕ) := by
    simp only [BLOCK_DATA, toInt]; omega
  simp only [BLOCK_DATA] at *
  omega

lemma toULong_left {o size n m : ℕ} (ho : o < BLOCK_DATA) (hs : size < 18446744073709551616)
    (hn : 0 < n) (hm : o + size = n * BLOCK_DATA + m) :
    toULong (o + size - (n : ℤ) * (BLOCK_DATA : ℕ)) = m := by
  have hle : BLOCK_DATA ≤ n * BLOCK_DATA := Nat.le_mul_of_pos_left _ hn
  have hsum : (o + size : ℤ) = (n : ℤ) * (BLOCK_DATA : ℕ) + m := by
    rw [← Nat.cast_add, hm, ← Nat.cast_mul, ← Nat.cast_add]
  rw [hsum, add_sub_cancel_left]
  exact toULong_natCast (by omega)

/-- An empty range from the first byte of a block on counts as one that goes on and on. -/
lemma lt_moreBlocks_zero : (BLOCK_NUM : ℤ) < moreBlocks 0 0 := by decide

/-- `aofs_read_file` from the first block to read, `cur`, and byte `o` of it on. -/
def readFrom (o size : ℕ) (cur : Block) : Code (ℤ × List Copy) := do
  let sizeF := if moreBlocks o size = 0 then (size : ℤ) else toULong (BLOCK_DATA - o)
  let sizeL := if moreBlocks o size = 0 then 0
    else toULong (size - (sizeF + (moreBlocks o size - 1) * BLOCK_DATA))
  let c ← copyOut cur o sizeF 0
  readRest o (moreBlocks o size) sizeL cur (toInt sizeF) [c]

lemma readFound_eq {size offset : ℕ} {cur : Block} (ho : offset ≤ OFF_MAX) :
    readFound size offset cur = seekStart (toInt ((offset / BLOCK_DATA : ℕ) : ℤ)).toNat cur >>=
      fun r => r.elim (pure (0, [])) (readFrom (offset % BLOCK_DATA) size) := by
  have hlt : (offset : ℤ) < 9223372036854775808 := by
    exact_mod_cast Nat.lt_succ_of_le ho
  have hq : toULong (offset : ℤ) = offset := toULong_natCast (by omega)
  have hdiv : ((offset : ℤ) / (BLOCK_DATA : ℕ)) = ((offset / BLOCK_DATA : ℕ) : ℤ) := rfl
  have hmod : toInt (offset - toInt ((offset / BLOCK_DATA : ℕ) : ℤ) * (BLOCK_DATA : ℕ)) =
      ((offset % BLOCK_DATA : ℕ) : ℤ) := by
    simp only [BLOCK_DATA, toInt]
    omega
  unfold readFound
  dsimp only
  rw [hq, hdiv, hmod]
  refine congrArg (Bind.bind _) (funext fun r => ?_)
  cases r with
  | none => rfl
  | some cur => rfl

section readFrom

variable {o size : ℕ} {Q : ℤ × List Copy → Disk → Prop}

lemma toInt_of_le {n : ℕ} (h : n ≤ INT_MAX) : toInt (n : ℤ) = n := by
  simp only [INT_MAX] at h
  exact toInt_of_range (by omega) (by omega)

/-- The range lies in the first block. -/
lemma safe_readFrom_one (hpos : 0 < o + size) (hfit : o + size ≤ BLOCK_DATA)
    (hQ : Q (size, [partCopy (d.blocks i) 0 o size]) d) :
    Safe (readFrom o size (d.blocks i)) d Q := by
  have hnum := moreBlocks_zero hpos hfit
  have hint : toInt (size : ℤ) = size :=
    toInt_of_le (le_trans (by omega) (hfit.trans (by decide)))
  have hrest : ∀ c, readRest o 0 0 (d.blocks i) size [c] = pure ((size : ℤ), [c]) := fun c => rfl
  unfold readFrom
  dsimp only
  rw [hnum, if_pos rfl, if_pos rfl, hint]
  refine safe_bind (safe_copyOut rfl rfl rfl hfit ?_)
  rw [hrest]
  exact safe_pure hQ

/-- The range counts as one in the first block, but does not fit it. -/
lemma readFrom_stuck {cur : Block} (hzero : moreBlocks o size = 0) (hfit : ¬ o + size ≤ BLOCK_DATA) :
    readFrom o size cur = .stuck := by
  unfold readFrom
  dsimp only
  rw [if_pos hzero, copyOut, if_neg (by omega)]
  rfl

/-- Behind the first block: the sizes of the copies, where there is more than one. -/
lemma readFrom_eq (ho : o < BLOCK_DATA) {cur : Block} (hnum : moreBlocks o size ≠ 0) :
    readFrom o size cur = copyOut cur o ((BLOCK_DATA - o : ℕ) : ℤ) 0 >>= fun c =>
      readRest o (moreBlocks o size)
        (toULong (o + size - moreBlocks o size * (BLOCK_DATA : ℕ))) cur
        ((BLOCK_DATA - o : ℕ) : ℤ) [c] := by
  have hF : toULong ((BLOCK_DATA : ℕ) - (o : ℤ)) = ((BLOCK_DATA - o : ℕ) : ℤ) := by
    rw [← Nat.cast_sub ho.le]
    exact toULong_natCast ((Nat.sub_le _ _).trans_lt (by decide))
  have hL : (size : ℤ) - (((BLOCK_DATA - o : ℕ) : ℤ) + (moreBlocks o size - 1) * (BLOCK_DATA : ℕ))
      = o + size - moreBlocks o size * (BLOCK_DATA : ℕ) := by
    rw [Nat.cast_sub ho.le]; ring
  unfold readFrom
  dsimp only
  rw [if_neg hnum, if_neg hnum, hF, hL, toInt_of_le ((Nat.sub_le _ _).trans (by decide))]

/-- The copies of a read of several blocks, all but the last. -/
def blockCopies (d : Disk) (o : ℕ) (i : Fin BLOCK_NUM) (c : List (Fin BLOCK_NUM)) : List Copy :=
  partCopy (d.blocks i) 0 o (BLOCK_DATA - o) :: fullCopies d o 0 c

/-- The number of blocks is negative as an `int`: only the first one is read. -/
lemma safe_readFrom_first (ho : o < BLOCK_DATA) (hnum : moreBlocks o size < 0)
    (hQ : Q ((BLOCK_DATA - o : ℕ), blockCopies d o i []) d) :
    Safe (readFrom o size (d.blocks i)) d Q := by
  rw [readFrom_eq ho (by omega)]
  refine safe_bind (safe_copyOut rfl rfl rfl (by omega) ?_)
  have htodo : (moreBlocks o size - 1).toNat = 0 := by omega
  unfold readRest
  rw [htodo]
  refine safe_bind (safe_ret ?_)
  dsimp only
  rw [if_neg (by omega)]
  exact safe_pure hQ

lemma bytesRead_le {n : ℕ} (hn : n ≤ BLOCK_NUM) : BLOCK_DATA - o + n * BLOCK_DATA ≤ INT_MAX :=
  calc BLOCK_DATA - o + n * BLOCK_DATA
      ≤ BLOCK_DATA + BLOCK_NUM * BLOCK_DATA :=
        Nat.add_le_add (Nat.sub_le _ _) (Nat.mul_le_mul_right _ hn)
    _ ≤ INT_MAX := by decide

lemma safe_readFrom_toEnd (ho : o < BLOCK_DATA) (hc : d.Chain (d.next i) post)
    (hnum : (post.length : ℤ) < moreBlocks o size)
    (hQ : Q ((BLOCK_DATA - o + post.length * BLOCK_DATA : ℕ), blockCopies d o i post) d) :
    Safe (readFrom o size (d.blocks i)) d Q := by
  rw [readFrom_eq ho (by omega)]
  refine safe_bind (safe_copyOut rfl rfl rfl (by omega) ?_)
  have hbr := bytesRead_le (o := o) hc.length_le
  unfold readRest
  refine safe_bind ?_
  by_cases hmid : post.length < (moreBlocks o size - 1).toNat
  · exact safe_readMiddle_none hc hmid hbr (safe_pure hQ)
  · have htodo : (moreBlocks o size - 1).toNat = post.length := by omega
    rw [htodo]
    rw [← List.append_nil post] at hc
    refine safe_readMiddle hc hbr fun j hj => ?_
    have hend : (d.blocks j).dbm.next = -1 := seg_nil.mp hj
    dsimp only
    rw [if_pos (by omega), hend, if_pos (by omega)]
    exact safe_pure hQ

variable {a b : List (Fin BLOCK_NUM)} {j : Fin BLOCK_NUM} {R : Prop}

/-- The range ends in the block behind `a`, if the part of it that is left fits a block. -/
lemma endsIff_readFrom_last (ho : o < BLOCK_DATA) (hs : size < 18446744073709551616)
    (hpos : 0 < o + size) (hc : d.Chain (d.next i) (a ++ j :: b))
    (hnum : moreBlocks o size = (a.length + 1 : ℕ))
    (hQ : ∀ n, 0 < n → n ≤ BLOCK_DATA → o + size = (a.length + 1) * BLOCK_DATA + n →
      (Q (size, blockCopies d o i a ++ [partCopy (d.blocks j) (o + BLOCK_DATA * (a.length + 1)) 0 n])
        d ↔ R))
    (hno : (a.length + 1) * BLOCK_DATA + BLOCK_DATA < o + size → ¬ R) :
    (readFrom o size (d.blocks i)).EndsIff exec d Q R := by
  have hlo := lt_of_moreBlocks hpos hnum.ge
  obtain ⟨n, hn0, hn⟩ : ∃ n, 0 < n ∧ o + size = (a.length + 1) * BLOCK_DATA + n :=
    ⟨o + size - (a.length + 1) * BLOCK_DATA, Nat.sub_pos_of_lt hlo,
      (Nat.add_sub_cancel' hlo.le).symm⟩
  have hlen : a.length + 1 ≤ BLOCK_NUM := le_trans (by simp) hc.length_le
  have hbr := bytesRead_le (o := o) (Nat.le_of_succ_le hlen)
  have htodo : (((a.length + 1 : ℕ) : ℤ) - 1).toNat = a.length := by omega
  rw [readFrom_eq ho (by omega), hnum, toULong_left ho hs (Nat.succ_pos _) hn]
  refine Prog.Holds.endsIff_bind (safe_copyOut rfl rfl rfl (by omega) ?_)
  unfold readRest
  rw [htodo]
  refine Prog.Holds.endsIff_bind (safe_readMiddle hc hbr fun k hk => ?_)
  have hj : (d.blocks k).dbm.next = addr j := (seg_cons.mp hk).1
  dsimp only
  rw [if_pos (by omega), hj, if_neg (addr_nonneg j)]
  refine Prog.Holds.endsIff_bind (safe_readBlock ?_)
  by_cases hfit : n ≤ BLOCK_DATA
  · refine Prog.Holds.endsIff_bind (safe_copyOut Nat.cast_zero.symm rfl (by push_cast; rfl)
      (by omega) (Prog.Holds.endsIff (safe_pure ?_)))
    have hsize : BLOCK_DATA - o + a.length * BLOCK_DATA + n = size := by
      rw [Nat.add_mul] at hn
      omega
    have hmax : size ≤ INT_MAX := by
      have hle : size ≤ (a.length + 1) * BLOCK_DATA + BLOCK_DATA := by omega
      refine hle.trans ((Nat.add_le_add_right (Nat.mul_le_mul_right _ hlen) _).trans (by decide))
    rw [← Nat.cast_add, hsize, toInt_of_le hmax]
    exact hQ n hn0 hfit hn
  · rw [copyOut, if_neg (by omega)]
    refine Prog.endsIff_stuck (hno ?_)
    rw [hn]
    exact Nat.add_lt_add_left (not_le.mp hfit) _

/-- **Reading from a block on**: what the read returns, in the four ways it can end, and that
it ends in no other one. -/
theorem endsIff_readFrom (ho : o < BLOCK_DATA) (hs : size < 18446744073709551616)
    (hc : d.Chain (d.next i) post)
    (hone : 0 < o + size → o + size ≤ BLOCK_DATA →
      (Q (size, [partCopy (d.blocks i) 0 o size]) d ↔ R))
    (hfirst : moreBlocks o size < 0 → (Q ((BLOCK_DATA - o : ℕ), blockCopies d o i []) d ↔ R))
    (hend : (post.length : ℤ) < moreBlocks o size →
      (Q ((BLOCK_DATA - o + post.length * BLOCK_DATA : ℕ), blockCopies d o i post) d ↔ R))
    (hlast : ∀ a j b n, post = a ++ j :: b → 0 < n → n ≤ BLOCK_DATA →
      o + size = (a.length + 1) * BLOCK_DATA + n →
      (Q (size, blockCopies d o i a ++ [partCopy (d.blocks j) (o + BLOCK_DATA * (a.length + 1)) 0 n])
        d ↔ R))
    (hno : ∀ m : ℕ, moreBlocks o size = m → m ≤ post.length → (m + 1) * BLOCK_DATA < o + size →
      ¬ R) : (readFrom o size (d.blocks i)).EndsIff exec d Q R := by
  have hempty : 0 < o + size ∨ (post.length : ℤ) < moreBlocks o size := by
    rcases Nat.eq_zero_or_pos (o + size) with h0 | hpos
    · obtain ⟨rfl, rfl⟩ : o = 0 ∧ size = 0 := by omega
      have := lt_moreBlocks_zero
      have := hc.length_le
      omega
    · exact Or.inl hpos
  rcases lt_or_ge (post.length : ℤ) (moreBlocks o size) with hlt | hge
  · exact Prog.Holds.endsIff (safe_readFrom_toEnd ho hc hlt (hend hlt))
  have hpos := hempty.resolve_right (not_lt.mpr hge)
  rcases lt_trichotomy (moreBlocks o size) 0 with hneg | hzero | hmore
  · exact Prog.Holds.endsIff (safe_readFrom_first ho hneg (hfirst hneg))
  · by_cases hfit : o + size ≤ BLOCK_DATA
    · exact Prog.Holds.endsIff (safe_readFrom_one hpos hfit (hone hpos hfit))
    · rw [readFrom_stuck hzero hfit]
      exact Prog.endsIff_stuck (hno 0 hzero (Nat.zero_le _) (by omega))
  · obtain ⟨m, hm⟩ : ∃ m : ℕ, moreBlocks o size = (m + 1 : ℕ) :=
      ⟨(moreBlocks o size - 1).toNat, by omega⟩
    obtain ⟨a, j, b, hsplit, ha⟩ := exists_split (show m < post.length by omega)
    rw [hsplit] at hc
    refine endsIff_readFrom_last ho hs hpos hc (by rw [ha, hm])
      (fun n => hlast _ _ _ n hsplit) fun hbig => hno (m + 1) hm (by omega) ?_
    rw [Nat.succ_mul (m + 1), ← ha]
    exact hbig

end readFrom

/-! ### Reads end -/

lemma ends_readFrom {o size : ℕ} (ho : o < BLOCK_DATA) (hs : size ≤ INT_MAX)
    (hc : d.Chain (d.next i) post) : Ends (readFrom o size (d.blocks i)) d fun _ _ => True := by
  have hs' : size < 18446744073709551616 := hs.trans_lt (by decide)
  refine (endsIff_readFrom ho hs' hc (fun _ _ => Iff.rfl) (fun _ => Iff.rfl) (fun _ => Iff.rfl)
    (fun _ _ _ _ _ _ _ _ => Iff.rfl) fun m hm _ hlt _ => ?_).iff.mpr trivial
  -- the number of blocks does not wrap, so what is left fits the last one
  have hpos : 0 < o + size := (Nat.zero_le _).trans_lt hlt
  have hlast := moreBlocks_of_le hpos ho hs
  obtain rfl : m = (o + size - 1) / BLOCK_DATA := Int.ofNat_inj.mp (hm.symm.trans hlast)
  simp only [BLOCK_DATA] at hlt
  omega

lemma ends_readFound {c : List (Fin BLOCK_NUM)} {size offset : ℕ} (hc : d.Chain (addr h) c)
    (hs : size ≤ INT_MAX) (ho : offset ≤ OFF_MAX) :
    Ends (readFound size offset (d.blocks h)) d fun _ _ => True := by
  rw [readFound_eq ho]
  rcases le_or_gt c.length (toInt ((offset / BLOCK_DATA : ℕ) : ℤ)).toNat with hle | hlt
  · exact Prog.Ends.bind (safe_seekStart_none hc hle (safe_pure trivial).ends).ends
  · obtain ⟨pre, i, post, rfl, hk⟩ := exists_split hlt
    obtain ⟨r, -, hr⟩ := seg_append.mp hc
    rw [← hk]
    exact Prog.Ends.bind (safe_seekStart hc
      (ends_readFrom (Nat.mod_lt _ (by decide)) hs (seg_cons.mp hr).2)).ends

/-- **`aofs_read_file` ends** where the size is an `int`. -/
theorem ends_aofsReadFile {size offset : ℕ} (hl : d.Linked) (hp : p.length ≤ MAX_FILENAME)
    (hs : size ≤ INT_MAX) (ho : offset ≤ OFF_MAX) :
    Ends (aofsReadFile p size offset) d fun _ _ => True := by
  unfold aofsReadFile
  refine Prog.Ends.bind (safe_newBlock fun b => Prog.Ends.bind
    (safe_aofsFindFileHead (fun g hg => ?_) fun _ => ?_).ends).ends
  · dsimp only
    rw [if_neg (addr_ne g)]
    refine Prog.Ends.bind (safe_time fun t => Prog.Ends.bind (safe_writeBlock ?_).ends).ends
    have hf := (lookup_eq_some.mp hg).1
    have hr := accessed_rewrites hl hf hp t
    have hhead := hr.isHead hl (List.ne_nil_of_mem (hl.mem_chain hf.1))
    have hends := ends_readFound ((hr.linked hl).ends g hhead) hs ho
    rw [accessed, put_blocks_self] at hends
    exact hends
  · exact (safe_pure trivial).ends

end Messaround.Aofs
