import Mathlib.Data.Nat.Sqrt
import Mathlib.Data.UInt
import Mathlib.Tactic.Linarith
import Mathlib.Tactic.Ring
import Messaround.Lib.CInt

/-!
The laundry thread, `vm_pageout_laundry_worker` of vm/vm_pageout.c, and its square root.

A round reads counters, tunables and the request of the page daemon anew, whatever they have
become. The sleeps and the return of the thread to its queue's lock are left out.
-/

namespace Messaround.Pager

open Messaround.CInt

/-! ### The square root -/

/-- The first loop: the highest power of four that is not above `num`. -/
def isqrtBit (num bit : UInt32) : UInt32 :=
  if bit > num then isqrtBit num (bit >>> 2) else bit
termination_by bit.toNat
decreasing_by
  rename_i h
  rw [gt_iff_lt, UInt32.lt_iff_toNat_lt] at h
  simp [Nat.shiftRight_eq_div_pow]
  omega

/-- The second loop. -/
def isqrtLoop (num root bit : UInt32) : UInt32 :=
  if bit = 0 then root
  else
    let tmp := root + bit
    let root := root >>> 1
    if num ≥ tmp then isqrtLoop (num - tmp) (root + bit) (bit >>> 2)
    else isqrtLoop num root (bit >>> 2)
termination_by bit.toNat
decreasing_by
  all_goals
    rename_i h _
    rw [← UInt32.toNat_inj, UInt32.toNat_zero] at h
    simp [Nat.shiftRight_eq_div_pow]
    omega

def isqrt (num : UInt32) : UInt32 := isqrtLoop num 0 (isqrtBit num ((1 : UInt32) <<< 30))

/-- With `k` binary digits to come, `2 ^ k * q` is the part of the root that is known. -/
structure RootDigits (n k q : ℕ) (num root : UInt32) : Prop where
  root : root.toNat = q * 4 ^ k
  num : num.toNat + (2 ^ k * q) ^ 2 = n
  above : n < (2 ^ k * (q + 1)) ^ 2
  room : 2 ^ k * (q + 1) ≤ 2 ^ 16

variable {n k q : ℕ} {num root bit : UInt32}

lemma shift_four (h : bit.toNat = 4 ^ (k + 1)) : (bit >>> 2).toNat = 4 ^ k := by
  simp [Nat.shiftRight_eq_div_pow, h, pow_succ]

lemma four_pow (k : ℕ) : (4 : ℕ) ^ k = 2 ^ k * 2 ^ k := by
  rw [← mul_pow]
  rfl

lemma RootDigits.half (h : RootDigits n (k + 1) q num root) :
    (root >>> 1).toNat = 2 * q * 4 ^ k := by
  have hroot := h.root
  rw [pow_succ, ← mul_assoc] at hroot
  simp only [UInt32.toNat_shiftRight, Nat.shiftRight_eq_div_pow, hroot]
  change q * 4 ^ k * 4 / 2 = _
  rw [mul_assoc 2]
  omega

lemma RootDigits.tmp (h : RootDigits n (k + 1) q num root) (hbit : bit.toNat = 4 ^ k) :
    (root + bit).toNat = (4 * q + 1) * 4 ^ k := by
  have hroom := h.room
  have hlt : (4 * q + 1) * 4 ^ k < 2 ^ 32 := by
    rw [pow_succ] at hroom
    rw [four_pow]
    nlinarith [Nat.two_pow_pos k]
  rw [UInt32.toNat_add, h.root, hbit, ← Nat.mod_eq_of_lt hlt]
  congr 1
  ring

lemma RootDigits.one (h : RootDigits n (k + 1) q num root) (hbit : bit.toNat = 4 ^ k)
    (hle : root + bit ≤ num) :
    RootDigits n k (2 * q + 1) (num - (root + bit)) ((root >>> 1) + bit) := by
  have htmp := h.tmp hbit
  have hsub := UInt32.toNat_sub_of_le _ _ hle
  rw [UInt32.le_iff_toNat_le, htmp] at hle
  rw [htmp] at hsub
  constructor
  · have hlt : 2 * q * 4 ^ k + 4 ^ k < 2 ^ 32 := by nlinarith [num.toNat_lt]
    rw [UInt32.toNat_add, h.half, hbit, Nat.mod_eq_of_lt hlt]
    ring
  · have hsum : num.toNat = (num - (root + bit)).toNat + (4 * q + 1) * 4 ^ k := by omega
    rw [← h.num, hsum, four_pow, pow_succ 2 k]
    ring
  · calc n < (2 ^ (k + 1) * (q + 1)) ^ 2 := h.above
      _ = (2 ^ k * (2 * q + 1 + 1)) ^ 2 := by ring
  · calc 2 ^ k * (2 * q + 1 + 1) = 2 ^ (k + 1) * (q + 1) := by ring
      _ ≤ 2 ^ 16 := h.room

lemma RootDigits.zero (h : RootDigits n (k + 1) q num root) (hbit : bit.toNat = 4 ^ k)
    (hlt : ¬root + bit ≤ num) : RootDigits n k (2 * q) num (root >>> 1) := by
  rw [UInt32.le_iff_toNat_le, h.tmp hbit, not_le] at hlt
  have hsame : 2 ^ (k + 1) * q = 2 ^ k * (2 * q) := by ring
  refine ⟨h.half, by rw [← h.num, hsame], ?_, ?_⟩
  · calc n = num.toNat + (2 ^ k * (2 * q)) ^ 2 := by rw [← h.num, hsame]
      _ < (4 * q + 1) * 4 ^ k + (2 ^ k * (2 * q)) ^ 2 := by omega
      _ = (2 ^ k * (2 * q + 1)) ^ 2 := by
        rw [four_pow]
        ring
  · calc 2 ^ k * (2 * q + 1) ≤ 2 ^ k * (2 * q + 2) := Nat.mul_le_mul_left _ (by omega)
      _ = 2 ^ (k + 1) * (q + 1) := by ring
      _ ≤ 2 ^ 16 := h.room

lemma RootDigits.done (h : RootDigits n 0 q num root) : root.toNat = Nat.sqrt n := by
  have hroot := h.root
  have hnum := h.num
  have habove := h.above
  rw [pow_zero, one_mul] at hnum habove
  rw [hroot, pow_zero, mul_one]
  exact Nat.eq_sqrt'.mpr ⟨by omega, habove⟩

lemma isqrtLoop_zero : isqrtLoop num root 0 = root := by
  rw [isqrtLoop, if_pos rfl]

/-- The digits one after another, by induction on their number. -/
lemma isqrtLoop_eq (h : RootDigits n (k + 1) q num root) (hbit : bit.toNat = 4 ^ k) :
    (isqrtLoop num root bit).toNat = Nat.sqrt n := by
  have hne : bit ≠ 0 := by
    rw [ne_eq, ← UInt32.toNat_inj, hbit]
    exact (Nat.pow_pos (by decide)).ne'
  induction k generalizing q num root bit with
  | zero =>
    have hlast : bit >>> 2 = 0 := by
      rw [← UInt32.toNat_inj]
      simp [Nat.shiftRight_eq_div_pow, hbit]
    rw [isqrtLoop, if_neg hne]
    simp only [hlast, isqrtLoop_zero, ge_iff_le]
    split
    case isTrue hle => exact (h.one hbit hle).done
    case isFalse hlt => exact (h.zero hbit hlt).done
  | succ k ih =>
    have hshift := shift_four hbit
    have hne' : bit >>> 2 ≠ 0 := by
      rw [ne_eq, ← UInt32.toNat_inj, hshift]
      exact (Nat.pow_pos (by decide)).ne'
    rw [isqrtLoop, if_neg hne]
    simp only [ge_iff_le]
    split
    case isTrue hle => exact ih (h.one hbit hle) hshift hne'
    case isFalse hlt => exact ih (h.zero hbit hlt) hshift hne'

lemma isqrtBit_eq (hbit : bit.toNat = 4 ^ k) (hlt : num.toNat < 4 ^ (k + 1)) :
    (isqrtBit num bit = 0 ∧ num = 0) ∨
    ∃ j ≤ k, (isqrtBit num bit).toNat = 4 ^ j ∧ num.toNat < 4 ^ (j + 1) := by
  induction k generalizing bit with
  | zero =>
    rw [isqrtBit]
    split
    case isTrue h =>
      have hzero : bit >>> 2 = 0 := by
        rw [← UInt32.toNat_inj]
        simp [Nat.shiftRight_eq_div_pow, hbit]
      rw [gt_iff_lt, UInt32.lt_iff_toNat_lt, hbit] at h
      have hnum : num = 0 := by
        rw [← UInt32.toNat_inj, UInt32.toNat_zero]
        omega
      refine .inl ⟨?_, hnum⟩
      rw [hzero, isqrtBit, if_neg (by simp)]
    case isFalse h => exact .inr ⟨0, le_rfl, hbit, hlt⟩
  | succ k ih =>
    rw [isqrtBit]
    split
    case isTrue h =>
      rw [gt_iff_lt, UInt32.lt_iff_toNat_lt, hbit] at h
      refine (ih (shift_four hbit) h).imp_right fun ⟨j, hj, hres⟩ => ⟨j, by omega, hres⟩
    case isFalse h => exact .inr ⟨k + 1, le_rfl, hbit, hlt⟩

/-- **The square root** is exact, rounded down, for every `u_int`. -/
theorem isqrt_eq_sqrt (num : UInt32) : (isqrt num).toNat = Nat.sqrt num.toNat := by
  have hfirst : ((1 : UInt32) <<< 30).toNat = 4 ^ 15 := by decide
  rw [isqrt]
  rcases isqrtBit_eq hfirst num.toNat_lt with ⟨hbit, rfl⟩ | ⟨k, hk, hbit, hlt⟩
  · rw [hbit, isqrtLoop_zero]
    rfl
  · refine isqrtLoop_eq (q := 0) (k := k) ⟨by simp, by simp, ?_, ?_⟩ hbit
    · rwa [zero_add, mul_one, ← pow_mul, mul_comm, pow_mul]
    · rw [zero_add, mul_one]
      exact Nat.pow_le_pow_right (by decide) (by omega)

/-! ### The worker -/

abbrev VM_LAUNDER_RATE : ℤ := 10
abbrev VM_INACT_SCAN_RATE : ℤ := 2
abbrev PAGE_SIZE : UInt32 := 4096

inductive LaundryRequest
  | VM_LAUNDRY_IDLE
  | VM_LAUNDRY_BACKGROUND
  | VM_LAUNDRY_SHORTFALL
  deriving DecidableEq

inductive LaundryFault
  /-- An assertion at the head of the loop. -/
  | negative
  | divideByZero
  /-- `last_target` is read before it is set. -/
  | uninitialised
  deriving DecidableEq

/-- What a round reads, in the order of the reads; a field with two values is read twice. -/
structure LaundryRound where
  v_pdwakeups : UInt32
  vm_laundry_target : ℤ
  v_inactive_count : UInt32
  v_free_count : UInt32
  v_laundry_count : UInt32
  vm_background_launder_target : UInt32
  vm_background_launder_max : UInt32
  vm_background_launder_rate : UInt32
  /-- The pages that a call launders, of those it is asked to. -/
  vm_pageout_launder : ℤ → Bool → ℤ
  /-- The request as the thread finds it when it goes on. -/
  vm_laundry_request : LaundryRequest
  vm_laundry_target' : ℤ
  vm_pageout_deficit : ℤ

/-- The variables of the worker; `none` is one that has not been set. -/
structure LaundryWorker where
  shortfall : ℤ
  in_shortfall : Bool
  shortfall_cycle : ℤ
  target : ℤ
  last_launder : UInt32
  last_target : Option ℤ
  deriving DecidableEq

def laundryInit : LaundryWorker := ⟨0, false, 0, 0, 0, none⟩

/-- Before `dolaundry` of a laundering to meet a shortage. -/
def launderShortfall (r : LaundryRound) (w : LaundryWorker) :
    Except LaundryFault (LaundryWorker × ℤ) :=
  if w.shortfall_cycle = 0 then .error .divideByZero
  else .ok ({ w with last_launder := r.v_pdwakeups, shortfall_cycle := w.shortfall_cycle - 1 },
    w.target.tdiv w.shortfall_cycle)

/-- The target of `trybackground`, which a laundering may begin with. -/
def backgroundTarget (r : LaundryRound) (w : LaundryWorker) : ℤ :=
  let wakeups := r.v_pdwakeups
  let nclean := (r.v_inactive_count + r.v_free_count).toUInt64
  let ndirty := r.v_laundry_count.toUInt64
  if w.target = 0 ∧ wakeups ≠ w.last_launder ∧
      ndirty * (isqrt (wakeups - w.last_launder)).toUInt64 ≥ nclean
  then toInt r.vm_background_launder_target.toNat
  else w.target

/-- `trybackground`. -/
def tryBackground (r : LaundryRound) (w : LaundryWorker) :
    Except LaundryFault (LaundryWorker × ℤ) :=
  let wakeups := r.v_pdwakeups
  let target := backgroundTarget r w
  let launder : ℤ :=
    (toInt (r.vm_background_launder_rate * PAGE_SIZE / 1024).toNat).tdiv VM_LAUNDER_RATE
  if target > 0 then
    if wakeups ≠ w.last_launder then
      .ok ({ w with target, last_launder := wakeups, last_target := some target },
        if launder > target then target else launder)
    else match w.last_target with
      | none => .error .uninitialised
      | some last_target =>
        let target := if toUInt (last_target - target) ≥
            (r.vm_background_launder_max * PAGE_SIZE / 1024).toNat then 0 else target
        .ok ({ w with target }, if launder > target then target else launder)
  else .ok ({ w with target }, 0)

/-- The round up to `dolaundry`, with the number of pages to launder. -/
def laundryDecide (r : LaundryRound) (w : LaundryWorker) :
    Except LaundryFault (LaundryWorker × ℤ) :=
  if w.target < 0 ∨ w.shortfall_cycle < 0 then .error .negative
  else if w.shortfall > 0 then
    launderShortfall r { w with in_shortfall := true,
                                shortfall_cycle := VM_LAUNDER_RATE.tdiv VM_INACT_SCAN_RATE,
                                target := w.shortfall }
  else if !w.in_shortfall then tryBackground r w
  else if w.shortfall_cycle = 0 ∨ r.vm_laundry_target ≤ 0 then
    tryBackground r { w with in_shortfall := false, target := 0 }
  else launderShortfall r w

/-- `dolaundry`. -/
def dolaundry (r : LaundryRound) (w : LaundryWorker) (launder : ℤ) : LaundryWorker :=
  if launder > 0 then
    let laundered := r.vm_pageout_launder launder w.in_shortfall
    { w with target := toInt (w.target - min (toUInt laundered) (toUInt w.target)) }
  else w

/-- The end of the round, with what becomes of the request. -/
def laundryRequest (r : LaundryRound) (w : LaundryWorker) : LaundryWorker × LaundryRequest :=
  let w := if r.vm_laundry_request = .VM_LAUNDRY_SHORTFALL ∧
      (!w.in_shortfall ∨ w.shortfall_cycle = 0)
    then { w with shortfall := toInt (r.vm_laundry_target' + r.vm_pageout_deficit), target := 0 }
    else { w with shortfall := 0 }
  (w, if w.target = 0 then .VM_LAUNDRY_IDLE else r.vm_laundry_request)

def vm_pageout_laundry_worker (r : LaundryRound) (w : LaundryWorker) :
    Except LaundryFault (LaundryWorker × LaundryRequest) := do
  let (w, launder) ← laundryDecide r w
  return laundryRequest r (dolaundry r w launder)

/-! ### What every run keeps -/

/-- The tunable target is not negative as an `int`. -/
def LaundryRound.Ok (r : LaundryRound) : Prop := r.vm_background_launder_target.toNat < 2 ^ 31

structure LaundryWorker.Sound (w : LaundryWorker) : Prop where
  shortfall : w.shortfall < 2 ^ 31
  cycle : 0 ≤ w.shortfall_cycle
  nonneg : 0 ≤ w.target
  target : w.target < 2 ^ 31
  background : w.in_shortfall = false → 0 < w.target → w.last_target.isSome

variable {w w' : LaundryWorker} {r : LaundryRound} {launder : ℤ}

lemma zero_lt_intMax : (0 : ℤ) < 2 ^ 31 := by decide

lemma laundryInit_sound : laundryInit.Sound :=
  ⟨by decide, le_rfl, le_rfl, by decide, fun _ h => absurd h (lt_irrefl 0)⟩

lemma LaundryWorker.Sound.start (h : w.Sound) (hr : r.Ok) :
    0 ≤ backgroundTarget r w ∧ backgroundTarget r w < 2 ^ 31 ∧
      (0 < backgroundTarget r w → r.v_pdwakeups ≠ w.last_launder ∨ 0 < w.target) := by
  have hint : toInt r.vm_background_launder_target.toNat =
      r.vm_background_launder_target.toNat := by
    unfold LaundryRound.Ok at hr
    exact toInt_of_range (by omega) (by omega)
  unfold LaundryRound.Ok at hr
  unfold backgroundTarget
  dsimp only
  split
  case isTrue hc => exact ⟨by omega, by omega, fun _ => .inl hc.2.1⟩
  case isFalse => exact ⟨h.nonneg, h.target, .inr⟩

lemma LaundryWorker.Sound.tryBackground (h : w.Sound) (hr : r.Ok) (hin : w.in_shortfall = false) :
    ∃ w' launder, tryBackground r w = .ok (w', launder) ∧ w'.Sound ∧ launder ≤ w'.target := by
  have hcap : ∀ a b : ℤ, (if a > b then b else a) ≤ b := fun a b => by
    split <;> omega
  unfold Pager.tryBackground
  obtain ⟨hnonneg, hlt, hstart⟩ := h.start hr
  dsimp only
  generalize backgroundTarget r w = target at *
  split
  case isFalse hpos =>
    exact ⟨_, _, rfl, ⟨h.shortfall, h.cycle, hnonneg, hlt, fun _ hp => absurd hp hpos⟩, hnonneg⟩
  case isTrue hpos =>
    split
    case isTrue hwake =>
      exact ⟨_, _, rfl, ⟨h.shortfall, h.cycle, hnonneg, hlt, fun _ _ => rfl⟩, hcap _ _⟩
    case isFalse hwake =>
      have hold : 0 < w.target := (hstart hpos).resolve_left hwake
      have hset := h.background hin hold
      split
      case h_1 hnone => simp [hnone] at hset
      case h_2 l hl =>
        refine ⟨_, _, rfl, ⟨h.shortfall, h.cycle, ?_, ?_, fun _ _ => hset⟩, hcap _ _⟩
        · dsimp only
          split <;> omega
        · dsimp only
          split <;> omega

lemma LaundryWorker.Sound.launderShortfall (h : w.Sound) (hin : w.in_shortfall = true)
    (hcycle : w.shortfall_cycle ≠ 0) :
    ∃ w' launder, launderShortfall r w = .ok (w', launder) ∧ w'.Sound ∧ launder ≤ w'.target := by
  have hnonneg := h.cycle
  refine ⟨_, _, if_neg hcycle, ⟨h.shortfall, ?_, h.nonneg, h.target, ?_⟩, ?_⟩
  · dsimp only
    omega
  · exact fun hfalse => absurd (hin.symm.trans hfalse) (by decide)
  · rw [Int.tdiv_eq_ediv_of_nonneg h.nonneg]
    exact Int.ediv_le_self _ h.nonneg

lemma LaundryWorker.Sound.decide (h : w.Sound) (hr : r.Ok) :
    ∃ w' launder, laundryDecide r w = .ok (w', launder) ∧ w'.Sound ∧ launder ≤ w'.target := by
  have hcycle := h.cycle
  have hnonneg := h.nonneg
  have hshort := h.shortfall
  unfold laundryDecide
  rw [if_neg (by omega)]
  split
  case isTrue hpos =>
    have hrate : VM_LAUNDER_RATE.tdiv VM_INACT_SCAN_RATE = 5 := rfl
    rw [hrate]
    exact LaundryWorker.Sound.launderShortfall ⟨h.shortfall, (show (0 : ℤ) ≤ 5 by decide), le_of_lt hpos,
      h.shortfall, nofun⟩ rfl (show (5 : ℤ) ≠ 0 by decide)
  case isFalse =>
    split
    case isTrue hin => exact h.tryBackground hr (by simpa using hin)
    case isFalse hin =>
      have hin : w.in_shortfall = true := by simpa using hin
      split
      case isTrue =>
        exact LaundryWorker.Sound.tryBackground ⟨h.shortfall, h.cycle, le_rfl, zero_lt_intMax,
          fun _ hp => absurd hp (lt_irrefl 0)⟩ hr rfl
      case isFalse hgo => exact h.launderShortfall hin fun hzero => hgo (.inl hzero)

lemma dolaundry_target (h : w.Sound) (launder : ℤ) : (dolaundry r w launder).target =
    if launder > 0 then
      w.target - min (toUInt (r.vm_pageout_launder launder w.in_shortfall)) w.target
    else w.target := by
  have hnonneg := h.nonneg
  have hlt := h.target
  unfold dolaundry
  split
  · have hmin : 0 ≤ min (toUInt (r.vm_pageout_launder launder w.in_shortfall)) w.target := by
      unfold toUInt
      omega
    dsimp only
    rw [toUInt_of_range hnonneg (by omega)]
    exact toInt_of_range (by omega) (by omega)
  · rfl

lemma LaundryWorker.Sound.dolaundry (h : w.Sound) (launder : ℤ) :
    (dolaundry r w launder).Sound ∧ (dolaundry r w launder).target ≤ w.target := by
  have htarget := dolaundry_target (r := r) h launder
  have hnonneg := h.nonneg
  have hlt := h.target
  have hsame : (Pager.dolaundry r w launder).shortfall = w.shortfall ∧
      (Pager.dolaundry r w launder).shortfall_cycle = w.shortfall_cycle ∧
      (Pager.dolaundry r w launder).in_shortfall = w.in_shortfall ∧
      (Pager.dolaundry r w launder).last_target = w.last_target := by
    unfold Pager.dolaundry
    split <;> exact ⟨rfl, rfl, rfl, rfl⟩
  obtain ⟨hs, hc, hi, hl⟩ := hsame
  have hle : 0 ≤ (Pager.dolaundry r w launder).target ∧
      (Pager.dolaundry r w launder).target ≤ w.target := by
    rw [htarget]
    unfold toUInt
    split <;> omega
  refine ⟨⟨hs ▸ h.shortfall, hc ▸ h.cycle, hle.1, by omega, fun hf hp => ?_⟩, hle.2⟩
  rw [hl]
  exact h.background (hi ▸ hf) (by omega)

lemma LaundryWorker.Sound.request (h : w.Sound) : (laundryRequest r w).1.Sound := by
  have hrange := toInt_range (r.vm_laundry_target' + r.vm_pageout_deficit)
  unfold laundryRequest
  dsimp only
  split
  · exact ⟨hrange.2, h.cycle, le_rfl, zero_lt_intMax, fun _ hp => absurd hp (lt_irrefl 0)⟩
  · exact ⟨zero_lt_intMax, h.cycle, h.nonneg, h.target, h.background⟩

/-- The states of the worker at the head of its loop, when the rounds meet `G`. -/
inductive LaundryReached (G : LaundryRound → Prop) : LaundryWorker → Prop
  | init : LaundryReached G laundryInit
  | round {w w' : LaundryWorker} {r : LaundryRound} {request : LaundryRequest}
    (h : LaundryReached G w) (hr : G r) (hw : vm_pageout_laundry_worker r w = .ok (w', request)) :
    LaundryReached G w'

lemma LaundryReached.sound (h : LaundryReached LaundryRound.Ok w) : w.Sound := by
  induction h with
  | init => exact laundryInit_sound
  | @round w w' r request _ hr hw ih =>
    obtain ⟨w₁, launder, hdecide, hsound, -⟩ := ih.decide hr
    unfold vm_pageout_laundry_worker at hw
    rw [hdecide] at hw
    have hw : laundryRequest r (dolaundry r w₁ launder) = (w', request) := Except.ok.inj hw
    have := (hsound.dolaundry (r := r) launder).1.request (r := r)
    rwa [hw] at this

/-- Seven pages are short, and a call launders what it is asked to. -/
def shortRound (request : LaundryRequest) : LaundryRound :=
  ⟨0, 7, 100, 100, 100, 10, 20480, 4096, fun n _ => n, request, 7, 0⟩

lemma shortRound_ok (request : LaundryRequest) : (shortRound request).Ok :=
  show (10 : UInt32).toNat < 2 ^ 31 by decide

/-- **The laundry thread** never faults, whatever it reads but for a tunable target from 2 ^ 31 on:
no assertion fails, no division is by zero, no variable is read before it is set; and it asks for
no more pages than its target. -/
theorem laundry_proceeds (h : LaundryReached LaundryRound.Ok w) (hr : r.Ok) :
    ∃ w₁ launder w' request, laundryDecide r w = .ok (w₁, launder) ∧
      vm_pageout_laundry_worker r w = .ok (w', request) ∧
      launder ≤ w₁.target ∧ w₁.target < 2 ^ 31 ∧ 0 ≤ w'.target ∧ w'.target ≤ w₁.target := by
  obtain ⟨w₁, launder, hdecide, hsound, hle⟩ := h.sound.decide hr
  obtain ⟨hsound', hle'⟩ := hsound.dolaundry (r := r) launder
  have hnonneg := hsound'.nonneg
  refine ⟨w₁, launder, (laundryRequest r (dolaundry r w₁ launder)).1,
    (laundryRequest r (dolaundry r w₁ launder)).2, hdecide, ?_, hle, hsound.target, ?_, ?_⟩
  · unfold vm_pageout_laundry_worker
    rw [hdecide]
    rfl
  · exact (hsound'.request (r := r)).nonneg
  · unfold laundryRequest
    dsimp only
    split <;> simp only <;> omega

theorem laundry_proceeds_short : ∃ w' request,
    vm_pageout_laundry_worker (shortRound .VM_LAUNDRY_SHORTFALL) laundryInit = .ok (w', request) ∧
      0 ≤ w'.target := by
  obtain ⟨-, -, w', request, -, hw, -, -, h, -⟩ :=
    laundry_proceeds .init (shortRound_ok .VM_LAUNDRY_SHORTFALL)
  exact ⟨w', request, hw, h⟩

/-! ### A shortage -/

/-- The pages that a round launders. -/
def laundered (r : LaundryRound) (w : LaundryWorker) (launder : ℤ) : ℤ :=
  if launder > 0 then r.vm_pageout_launder launder w.in_shortfall else 0

/-- Rounds one after another, with the pages that they launder. -/
def laundryRun : List LaundryRound → LaundryWorker → Except LaundryFault (LaundryWorker × ℤ)
  | [], w => .ok (w, 0)
  | r :: rs, w => do
    let (w₁, launder) ← laundryDecide r w
    let (w', pages) ← laundryRun rs (laundryRequest r (dolaundry r w₁ launder)).1
    return (w', laundered r w₁ launder + pages)

/-- The shortage lasts, and the calls launder what they are asked to. -/
structure LaundryRound.Short (r : LaundryRound) : Prop where
  lasts : 0 < r.vm_laundry_target
  launders : ∀ n b, 0 < n → n < 2 ^ 31 →
    n ≤ r.vm_pageout_launder n b ∧ r.vm_pageout_launder n b < 2 ^ 31

lemma launderShortfall_round {k : ℕ} (h : w.Sound) (hr : r.Short) (hin : w.in_shortfall = true)
    (hcycle : w.shortfall_cycle = k + 1) :
    ∃ w₁ launder w', launderShortfall r w = .ok (w₁, launder) ∧
      (laundryRequest r (dolaundry r w₁ launder)).1 = w' ∧ w'.Sound ∧
      w.target ≤ laundered r w₁ launder + w'.target ∧ (k = 0 → w'.target = 0) ∧
      (k ≠ 0 → w'.in_shortfall = true ∧ w'.shortfall = 0 ∧ w'.shortfall_cycle = k) := by
  obtain ⟨w₁, launder, heq, hsound, -⟩ := h.launderShortfall (r := r) hin (by omega)
  refine ⟨w₁, launder, _, heq, rfl, (hsound.dolaundry launder).1.request, ?_⟩
  have hw₁ : w₁.target = w.target ∧ w₁.in_shortfall = true ∧ w₁.shortfall_cycle = k ∧
      launder = w.target / (k + 1) := by
    rw [launderShortfall, if_neg (by omega)] at heq
    cases heq
    refine ⟨rfl, hin, ?_, ?_⟩
    · dsimp only
      omega
    · rw [← hcycle, Int.tdiv_eq_ediv_of_nonneg h.nonneg]
  obtain ⟨htarget, hin₁, hcycle₁, rfl⟩ := hw₁
  have hnonneg := h.nonneg
  have hdone := dolaundry_target (r := r) hsound (w.target / (k + 1))
  have hkept : (dolaundry r w₁ (w.target / (k + 1))).in_shortfall = true ∧
      (dolaundry r w₁ (w.target / (k + 1))).shortfall_cycle = k := by
    unfold dolaundry
    split <;> exact ⟨hin₁, hcycle₁⟩
  generalize dolaundry r w₁ (w.target / (k + 1)) = w₂ at hdone hkept ⊢
  -- in the last round all that is left of the target is asked for
  have hpages : w.target ≤ laundered r w₁ (w.target / (k + 1)) + w₂.target ∧
      (k = 0 → w₂.target = 0) := by
    rw [hdone, laundered]
    split
    case isTrue hpos =>
      have htop := h.target
      have hself : w.target / (k + 1) ≤ w.target := Int.ediv_le_self _ hnonneg
      obtain ⟨hle, hlt⟩ := hr.launders _ w₁.in_shortfall hpos (by omega)
      rw [toUInt_of_range (by omega) (by omega), htarget]
      refine ⟨by omega, fun hk => ?_⟩
      subst hk
      simp only [Nat.cast_zero, zero_add, Int.ediv_one] at hle ⊢
      omega
    case isFalse hpos =>
      refine ⟨by omega, fun hk => ?_⟩
      subst hk
      simp only [Nat.cast_zero, zero_add, Int.ediv_one] at hpos
      omega
  obtain ⟨hle, hzero⟩ := hpages
  unfold laundryRequest
  dsimp only
  rcases eq_or_ne k 0 with hk | hk
  · have htarget₂ := hzero hk
    refine ⟨?_, fun _ => ?_, fun hne => absurd hk hne⟩ <;> split <;> dsimp only <;> omega
  · -- the request is known already, and the next round goes on with the shortage
    have hgo : ¬(r.vm_laundry_request = .VM_LAUNDRY_SHORTFALL ∧
        ((!w₂.in_shortfall) = true ∨ w₂.shortfall_cycle = 0)) := by
      rintro ⟨-, hbad⟩
      rw [hkept.1, hkept.2] at hbad
      simp at hbad
      exact hk hbad
    rw [if_neg hgo]
    exact ⟨hle, fun hne => absurd hne hk, fun _ => ⟨hkept.1, rfl, hkept.2⟩⟩

lemma laundryRun_cons {rs : List LaundryRound} {w₁ w₂ w' : LaundryWorker} {pages : ℤ}
    (hdecide : laundryDecide r w = .ok (w₁, launder))
    (hrequest : (laundryRequest r (dolaundry r w₁ launder)).1 = w₂)
    (hrun : laundryRun rs w₂ = .ok (w', pages)) :
    laundryRun (r :: rs) w = .ok (w', laundered r w₁ launder + pages) := by
  rw [laundryRun, hdecide]
  change (laundryRun rs (laundryRequest r (dolaundry r w₁ launder)).1 >>= _) = _
  rw [hrequest, hrun]
  rfl

lemma laundryDecide_short (h : w.Sound) (hr : r.Short) (hin : w.in_shortfall = true)
    (hshort : w.shortfall = 0) (hcycle : w.shortfall_cycle ≠ 0) :
    laundryDecide r w = launderShortfall r w := by
  have hnonneg := h.nonneg
  have hcycle' := h.cycle
  have hlasts := hr.lasts
  rw [laundryDecide, if_neg (by omega), if_neg (by omega), if_neg (by simp [hin]),
    if_neg (by omega)]

/-- The rounds of a shortage that are to come, by induction on their number. -/
lemma laundryRun_short {k : ℕ} {rs : List LaundryRound} (h : w.Sound) (hlen : rs.length = k)
    (hrs : ∀ r ∈ rs, r.Short) (hin : k ≠ 0 → w.in_shortfall = true ∧ w.shortfall = 0 ∧
      w.shortfall_cycle = k) (hzero : k = 0 → w.target = 0) :
    ∃ w' pages, laundryRun rs w = .ok (w', pages) ∧ w'.target = 0 ∧ w.target ≤ pages := by
  induction k generalizing rs w with
  | zero =>
    obtain rfl := List.length_eq_zero_iff.mp hlen
    exact ⟨w, 0, rfl, hzero rfl, (hzero rfl).le⟩
  | succ k ih =>
    obtain ⟨r, rs, rfl⟩ := List.exists_cons_of_length_eq_add_one hlen
    obtain ⟨hin, hshort, hcycle⟩ := hin (Nat.succ_ne_zero k)
    push_cast at hcycle
    have hr := hrs r List.mem_cons_self
    have hdecide := laundryDecide_short h hr hin hshort (by omega)
    obtain ⟨w₁, launder, w₂, heq, hrequest, hsound, hle, hlast, hnext⟩ :=
      launderShortfall_round h hr hin hcycle
    obtain ⟨w', pages, hrun, htarget, hpages⟩ := ih hsound (by simpa using hlen)
      (fun r' hr' => hrs r' (List.mem_cons_of_mem _ hr')) hnext hlast
    exact ⟨w', _, laundryRun_cons (hdecide.trans heq) hrequest hrun, htarget, by omega⟩

lemma laundryDecide_cycle {w₁ : LaundryWorker} (hdecide : laundryDecide r w = .ok (w₁, launder)) :
    0 ≤ w₁.shortfall_cycle := by
  have hlaunder : ∀ w : LaundryWorker, 0 ≤ w.shortfall_cycle →
      launderShortfall r w = .ok (w₁, launder) → 0 ≤ w₁.shortfall_cycle := fun w hw heq => by
    unfold launderShortfall at heq
    split at heq
    · contradiction
    · cases heq
      dsimp only
      omega
  have htry : ∀ w : LaundryWorker, 0 ≤ w.shortfall_cycle →
      tryBackground r w = .ok (w₁, launder) → 0 ≤ w₁.shortfall_cycle := fun w hw heq => by
    unfold tryBackground at heq
    dsimp only at heq
    split at heq
    · split at heq
      · cases heq
        exact hw
      · split at heq
        · contradiction
        · cases heq
          exact hw
    · cases heq
      exact hw
  unfold laundryDecide at hdecide
  split at hdecide
  · contradiction
  next hneg =>
    have hcycle : 0 ≤ w.shortfall_cycle := by omega
    split at hdecide
    · exact hlaunder _ (by decide : (0 : ℤ) ≤ 5) hdecide
    · split at hdecide
      · exact htry _ hcycle hdecide
      · split at hdecide
        · exact htry { w with in_shortfall := false, target := 0 } hcycle hdecide
        · exact hlaunder _ hcycle hdecide

/-- A round that finds a shortage leaves no target behind, whatever it read. -/
lemma LaundryReached.sound_of_short {G : LaundryRound → Prop} (h : LaundryReached G w)
    (hw : 0 < w.shortfall) : w.Sound := by
  cases h with
  | init => exact laundryInit_sound
  | @round w₀ w r request _ _ heq =>
    unfold vm_pageout_laundry_worker at heq
    cases hdecide : laundryDecide r w₀ with
    | error e => simp [hdecide, bind, Except.bind] at heq
    | ok res =>
      obtain ⟨w₁, launder⟩ := res
      rw [hdecide] at heq
      have hcycle : 0 ≤ (dolaundry r w₁ launder).shortfall_cycle := by
        have := laundryDecide_cycle hdecide
        unfold dolaundry
        split <;> exact this
      have heq : (laundryRequest r (dolaundry r w₁ launder)).1 = w :=
        congrArg Prod.fst (Except.ok.inj heq)
      have hrange := toInt_range (r.vm_laundry_target' + r.vm_pageout_deficit)
      subst heq
      unfold laundryRequest at hw ⊢
      dsimp only at hw ⊢
      split at hw
      next hshort =>
        rw [if_pos hshort]
        exact ⟨hrange.2, hcycle, le_rfl, zero_lt_intMax, fun _ hp => absurd hp (lt_irrefl 0)⟩
      next => exact absurd hw (lt_irrefl 0)

/-- **A shortage is laundered in time**: while it lasts and the calls launder what they are asked
to, as many pages as were short have been laundered after `VM_LAUNDER_RATE / VM_INACT_SCAN_RATE`
rounds, whatever is requested in the meantime. -/
theorem shortfall_laundered {G : LaundryRound → Prop} {rs : List LaundryRound}
    (h : LaundryReached G w) (hw : 0 < w.shortfall) (hlen : rs.length = 5)
    (hrs : ∀ r ∈ rs, r.Short) :
    ∃ w' pages, laundryRun rs w = .ok (w', pages) ∧ w'.target = 0 ∧ w.shortfall ≤ pages := by
  have hs := h.sound_of_short hw
  obtain ⟨r, rs, rfl⟩ := List.exists_cons_of_length_eq_add_one hlen
  have hr := hrs r List.mem_cons_self
  have hrate : VM_LAUNDER_RATE.tdiv VM_INACT_SCAN_RATE = 5 := rfl
  have hnonneg := hs.nonneg
  have hcycle := hs.cycle
  have hdecide : laundryDecide r w = launderShortfall r
      { w with in_shortfall := true, shortfall_cycle := 5, target := w.shortfall } := by
    rw [laundryDecide, if_neg (by omega), if_pos hw, hrate]
  have hsound : LaundryWorker.Sound
      { w with in_shortfall := true, shortfall_cycle := 5, target := w.shortfall } :=
    ⟨hs.shortfall, show (0 : ℤ) ≤ 5 by decide, hw.le, hs.shortfall, nofun⟩
  obtain ⟨w₁, launder, w₂, heq, hrequest, hsound₂, hle, hlast, hnext⟩ :=
    launderShortfall_round (k := 4) hsound hr rfl rfl
  obtain ⟨w', pages, hrun, htarget, hpages⟩ := laundryRun_short hsound₂ (by simpa using hlen)
    (fun r' hr' => hrs r' (List.mem_cons_of_mem _ hr')) hnext hlast
  refine ⟨w', _, laundryRun_cons (hdecide.trans heq) hrequest hrun, htarget, ?_⟩
  dsimp only at hle
  omega

theorem shortfall_laundered_short : ∃ w' pages,
    laundryRun (List.replicate 5 (shortRound .VM_LAUNDRY_BACKGROUND))
      ⟨7, false, 0, 0, 0, none⟩ = .ok (w', pages) ∧ w'.target = 0 ∧ 7 ≤ pages := by
  have hround : vm_pageout_laundry_worker (shortRound .VM_LAUNDRY_SHORTFALL) laundryInit =
      .ok (⟨7, false, 0, 0, 0, none⟩, .VM_LAUNDRY_IDLE) := rfl
  have hw : LaundryReached (fun _ => True) ⟨7, false, 0, 0, 0, none⟩ := .round .init trivial hround
  refine shortfall_laundered hw (by decide) rfl fun r hr => ?_
  obtain rfl := List.eq_of_mem_replicate hr
  exact ⟨by decide, fun n _ _ hlt => ⟨le_rfl, hlt⟩⟩

end Messaround.Pager
