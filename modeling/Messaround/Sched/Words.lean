import Messaround.Sched.Runq

/-!
The words of a run queue's status and the scans over them.

The widths are those of machine/runq.h on amd64. A scan finds the slot that the routine of
its name finds in the bits by slot: the first one set, or the first one set from a slot on and
around.
-/

namespace Messaround.Sched.Words

abbrev RQB_LEN : ℕ := 1
abbrev RQB_L2BPW : ℕ := 6
abbrev RQB_BPW : ℕ := 64

abbrev Word := BitVec RQB_BPW

def RQB_WORD (pri : UInt8) : ℕ := pri.toNat >>> RQB_L2BPW

/-- The number of the lowest bit set, as `bsfq` finds it. -/
def RQB_FFS (word : Word) : ℕ := word.ctz.toNat

/-- `(rqb_word_t)-1` -/
def minusOne : Word := BitVec.allOnes RQB_BPW

/-- The loop over the words, of which the first one here is word `i`. -/
def findbitLoop : (i : ℕ) → List Word → Option ℕ
  | _, [] => none
  | i, word :: words =>
    if word ≠ 0 then some (RQB_FFS word + i <<< RQB_L2BPW) else findbitLoop (i + 1) words

def runq_findbit (rqb_bits : Vector Word RQB_LEN) : Option ℕ := findbitLoop 0 rqb_bits.toList

/-- The loop of `runq_findbit_from`: the slot found, or the mask at its end. -/
def findbitFromLoop : (i : ℕ) → (mask : Word) → List Word → ℕ ⊕ Word
  | _, mask, [] => .inr mask
  | i, mask, word :: words =>
    let mask := word &&& mask
    if mask = 0 then findbitFromLoop (i + 1) minusOne words
    else .inl (RQB_FFS mask + i <<< RQB_L2BPW)

def runq_findbit_from (rqb_bits : Vector Word RQB_LEN) (pri : UInt8) : Option ℕ :=
  let mask := minusOne <<< (pri.toNat &&& (RQB_BPW - 1))
  match findbitFromLoop (RQB_WORD pri) mask (rqb_bits.toList.drop (RQB_WORD pri)) with
  | .inl pri => some pri
  | .inr mask =>
    if pri = 0 then none
    else (findbitFromLoop 0 mask rqb_bits.toList).elim some fun _ => none

/-! ### Bits -/

lemma ffs_eq (word : Word) :
    (if word = 0 then none else some (RQB_FFS word)) =
      ((List.finRange RQ_NQS).find? fun i : Fin RQ_NQS => word.getLsbD i).map Fin.val := by
  split
  next h0 =>
    rw [find_slot_eq_none.mpr fun i => by rw [h0]; exact BitVec.getLsbD_zero]
    rfl
  next h0 =>
    have hset : word.getLsbD word.ctz.toNat = true := BitVec.getLsbD_true_ctz_of_ne_zero h0
    have hlt : word.ctz.toNat < RQ_NQS := BitVec.lt_of_getLsbD hset
    have hfirst : ((List.finRange RQ_NQS).find? fun i : Fin RQ_NQS => word.getLsbD i) = some ⟨word.ctz.toNat, hlt⟩ :=
      find_slot_eq_some.mpr ⟨hset, fun j hj => BitVec.getLsbD_false_of_lt_ctz hj⟩
    rw [hfirst]
    rfl

/-- `-1` moved up by `k` leaves out the slots below `k`. -/
lemma getLsbD_mask (word : Word) (k : ℕ) (i : Fin RQ_NQS) :
    (word &&& (minusOne <<< k)).getLsbD i = (decide (k ≤ i.val) && word.getLsbD i) := by
  have hi : i.val < RQB_BPW := i.isLt
  rw [BitVec.getLsbD_and, BitVec.getLsbD_shiftLeft, minusOne, BitVec.getLsbD_allOnes,
    Bool.and_comm]
  congr 1
  by_cases hk : k ≤ i.val
  · simp [hi, hk, Nat.not_lt.mpr hk, (Nat.sub_le _ _).trans_lt hi]
  · simp [hk, Nat.lt_of_not_le hk]

/-! ### Scans -/

variable {T : Type} {rqb_bits : Vector Word RQB_LEN} {rq : Runq T}

/-- The bits of the words are the bits of the slots. -/
def Shows (rqb_bits : Vector Word RQB_LEN) (rq : Runq T) : Prop :=
  ∀ i : Fin RQ_NQS, (rqb_bits[0]).getLsbD i = rq.rq_status i

lemma toList_words (rqb_bits : Vector Word RQB_LEN) : rqb_bits.toList = [rqb_bits[0]] := by
  apply List.ext_getElem
  · simp
  · intro i h1 h2
    have h0 : i = 0 := by simpa using h2
    simp [h0]

lemma findbitFromLoop_one (mask word : Word) : findbitFromLoop 0 mask [word] =
    if word &&& mask = 0 then .inr minusOne else .inl (RQB_FFS (word &&& mask)) := by
  simp only [findbitFromLoop, Nat.zero_shiftLeft, Nat.add_zero]

/-- **The scan of the words** finds the first slot whose bit is set. -/
theorem runq_findbit_eq (h : Shows rqb_bits rq) :
    runq_findbit rqb_bits = (Sched.runq_findbit rq).map Fin.val := by
  have hslots : ((List.finRange RQ_NQS).find? fun i : Fin RQ_NQS => (rqb_bits[0]).getLsbD i) = Sched.runq_findbit rq :=
    find_slot_congr h
  rw [← hslots, ← ffs_eq, runq_findbit, toList_words, findbitLoop, findbitLoop]
  simp

lemma ffs_mask_eq (h : Shows rqb_bits rq) (k : ℕ) :
    (if rqb_bits[0] &&& minusOne <<< k = 0 then none
      else some (RQB_FFS (rqb_bits[0] &&& minusOne <<< k))) =
      ((List.finRange RQ_NQS).find? fun i => decide (k ≤ i.val) && rq.rq_status i).map Fin.val := by
  rw [ffs_eq]
  refine congrArg (Option.map Fin.val) (find_slot_congr fun i => ?_)
  rw [getLsbD_mask, h i]

/-- **The scan from a slot on** goes around once, and keeps a mask that it never came to use. -/
theorem runq_findbit_from_eq (h : Shows rqb_bits rq) (pri : UInt8) :
    runq_findbit_from rqb_bits pri = (Sched.runq_findbit_from rq pri).map Fin.val := by
  have hk : pri.toNat &&& (RQB_BPW - 1) = pri.toNat % RQ_NQS := Nat.and_two_pow_sub_one_eq_mod _ 6
  have hword : RQB_WORD pri = pri.toNat / RQ_NQS := Nat.shiftRight_eq_div_pow _ 6
  have hscan := ffs_mask_eq h (pri.toNat % RQ_NQS)
  unfold runq_findbit_from Sched.runq_findbit_from
  simp only [hk, hword, toList_words]
  by_cases hp : pri.toNat < RQ_NQS
  · rw [if_pos hp, Nat.div_eq_of_lt hp, List.drop_zero, findbitFromLoop_one]
    rw [Nat.mod_eq_of_lt hp] at hscan ⊢
    cases hf : (List.finRange RQ_NQS).find? fun i => decide (pri.toNat ≤ i.val) && rq.rq_status i with
    | some i =>
      rw [hf] at hscan
      split at hscan
      · cases hscan
      · rw [if_neg ‹_›]
        exact hscan
    | none =>
      rw [hf] at hscan
      split at hscan
      · rw [if_pos ‹_›]
        by_cases h0 : pri = 0
        · simp [h0]
        · have hall := ffs_mask_eq h 0
          have hbits : ((List.finRange RQ_NQS).find? fun i => decide (0 ≤ i.val) && rq.rq_status i) =
              Sched.runq_findbit rq := find_slot_congr fun i => by simp
          rw [hbits, BitVec.shiftLeft_zero] at hall
          simp only [if_neg h0, findbitFromLoop_one]
          rw [← hall]
          split <;> rfl
      · cases hscan
  · have hpos := Nat.div_pos (Nat.le_of_not_lt hp) (by decide : 0 < RQ_NQS)
    have hdrop : List.drop (pri.toNat / RQ_NQS) [rqb_bits[0]] = [] := List.drop_eq_nil_of_le hpos
    have h0 : pri ≠ 0 := by rintro rfl; exact hp (by decide)
    rw [if_neg hp, hdrop]
    simp only [findbitFromLoop, if_neg h0, Nat.zero_shiftLeft, Nat.add_zero]
    refine Eq.trans ?_ hscan
    split <;> rfl

end Messaround.Sched.Words
