import Mathlib.Algebra.Order.Ring.Int
import Mathlib.Tactic.Linarith
import Messaround.Lib.CInt
import Messaround.Sched.Ule

/-!
What the scheduler remembers of a thread: the time it slept and ran, and the ticks of the last
seconds, with the priorities that kern/sched_ule.c computes from them.

A value of type `int` or `u_int` is an integer, taken back into the range of its type where the
arithmetic of the source could leave it.
-/

namespace Messaround.Sched

open CInt

abbrev SCHED_TICK_SECS : ℤ := 10
/-- `1 << SCHED_TICK_SHIFT`. -/
abbrev SCHED_TICK_ONE : ℤ := 1024
abbrev SCHED_INTERACT_MAX : ℤ := 100
abbrev SCHED_INTERACT_HALF : ℤ := SCHED_INTERACT_MAX / 2
abbrev SCHED_SLICE_DEFAULT_DIVISOR : ℤ := 10
abbrev SCHED_SLICE_MIN_DIVISOR : ℤ := 6
abbrev SCHED_PRI_NHALF : ℤ := (SCHED_PRI_NRESV : ℤ) / 2
abbrev SCHED_PRI_MIN : ℤ := PRI_MIN_BATCH + SCHED_PRI_NHALF
abbrev SCHED_PRI_MAX : ℤ := PRI_MAX_BATCH - SCHED_PRI_NHALF
abbrev SCHED_PRI_RANGE : ℤ := SCHED_PRI_MAX - SCHED_PRI_MIN + 1
abbrev PRI_MIN_INTERACT : ℤ := PRI_MIN_TIMESHARE
abbrev PRI_MAX_INTERACT : ℤ := PRI_MIN_TIMESHARE + PRI_INTERACT_RANGE - 1

abbrev PRI_FIFO_BIT : UInt8 := 8
abbrev PRI_TIMESHARE : UInt8 := 3

def PRI_BASE (class_ : UInt8) : UInt8 := class_ &&& ~~~PRI_FIFO_BIT

/-- The rates of the two clocks, of which `stathz` may be 0. The bound on `hz` is that of a
`ts_ticks` of eleven seconds. -/
structure ClockRates where
  hz : ℤ
  stathz : ℤ
  hz_ge : 2 ≤ hz
  hz_le : hz ≤ 190650
  stathz_nonneg : 0 ≤ stathz
  stathz_le : stathz ≤ INT_MAX

/-! ### What `sched_initticks` computes -/

section initticks

variable (r : ClockRates)

def ClockRates.realstathz : ℤ := if r.stathz ≠ 0 then r.stathz else r.hz

def ClockRates.sched_slice : ℤ := r.realstathz / SCHED_SLICE_DEFAULT_DIVISOR

def ClockRates.sched_slice_min : ℤ := r.sched_slice / SCHED_SLICE_MIN_DIVISOR

def ClockRates.tickincr : ℤ :=
  let incr := r.hz * SCHED_TICK_ONE / r.realstathz
  if incr = 0 then 1 else incr

def ClockRates.SCHED_TICK_TARG : ℤ := r.hz * SCHED_TICK_SECS

def ClockRates.SCHED_TICK_MAX : ℤ := r.SCHED_TICK_TARG + r.hz

def ClockRates.SCHED_SLP_RUN_MAX : ℤ := r.hz * 5 * SCHED_TICK_ONE

def ClockRates.SCHED_SLP_RUN_FORK : ℤ := r.hz / 2 * SCHED_TICK_ONE

end initticks

/-- A `struct td_sched`, and what these routines read of the thread itself. -/
structure SchedThread where
  ts_slice : ℤ
  ts_slptime : ℤ
  ts_runtime : ℤ
  ts_ltick : ℤ
  ts_ftick : ℤ
  ts_ticks : ℤ
  td_slptick : ℤ
  td_pri_class : UInt8
  td_base_user_pri : ℤ
  td_lend_user_pri : ℤ
  td_user_pri : ℤ
  deriving DecidableEq

inductive ClockFault
  | divideByZero
  /-- A `KASSERT` that fails. -/
  | assertion
  deriving DecidableEq

/-! ### Interactivity -/

def sched_interact_score (sched_interact : ℤ) (ts : SchedThread) : ℤ :=
  if sched_interact ≤ SCHED_INTERACT_HALF ∧ ts.ts_runtime ≥ ts.ts_slptime then
    SCHED_INTERACT_HALF
  else if ts.ts_runtime > ts.ts_slptime then
    let div := max 1 (ts.ts_runtime / SCHED_INTERACT_HALF)
    toInt (SCHED_INTERACT_HALF + (SCHED_INTERACT_HALF - ts.ts_slptime / div))
  else if ts.ts_slptime > ts.ts_runtime then
    let div := max 1 (ts.ts_slptime / SCHED_INTERACT_HALF)
    ts.ts_runtime / div
  else if ts.ts_runtime ≠ 0 then SCHED_INTERACT_HALF
  else 0

def sched_interact_update (r : ClockRates) (ts : SchedThread) : SchedThread :=
  let sum := toUInt (ts.ts_runtime + ts.ts_slptime)
  if sum < r.SCHED_SLP_RUN_MAX then ts
  else if sum > r.SCHED_SLP_RUN_MAX * 2 then
    if ts.ts_runtime > ts.ts_slptime then
      { ts with ts_runtime := r.SCHED_SLP_RUN_MAX, ts_slptime := 1 }
    else { ts with ts_slptime := r.SCHED_SLP_RUN_MAX, ts_runtime := 1 }
  else if sum > r.SCHED_SLP_RUN_MAX / 5 * 6 then
    { ts with ts_runtime := ts.ts_runtime / 2, ts_slptime := ts.ts_slptime / 2 }
  else { ts with ts_runtime := ts.ts_runtime / 5 * 4, ts_slptime := ts.ts_slptime / 5 * 4 }

/-- The sum is an `int` here; a `ratio` of 0 would divide by zero. -/
def sched_interact_fork (r : ClockRates) (ts : SchedThread) : Except ClockFault SchedThread :=
  let sum := toInt (ts.ts_runtime + ts.ts_slptime)
  if sum > r.SCHED_SLP_RUN_FORK then
    if r.SCHED_SLP_RUN_FORK = 0 then .error .divideByZero
    else
      let ratio := sum.tdiv r.SCHED_SLP_RUN_FORK
      if ratio = 0 then .error .divideByZero
      else .ok { ts with
        ts_runtime := ts.ts_runtime / toUInt ratio
        ts_slptime := ts.ts_slptime / toUInt ratio }
  else .ok ts

/-! ### The ticks of the last seconds -/

/-- The part of `sched_pctcpu_update` that forgets what is too old. -/
def slideWindow (r : ClockRates) (t : ℤ) (ts : SchedThread) : Except ClockFault SchedThread :=
  if toUInt (t - ts.ts_ltick) ≥ r.SCHED_TICK_TARG then
    .ok { ts with ts_ticks := 0, ts_ftick := toInt (t - r.SCHED_TICK_TARG) }
  else if toInt (t - ts.ts_ftick) ≥ r.SCHED_TICK_MAX then
    if toInt (ts.ts_ltick - ts.ts_ftick) = 0 then .error .divideByZero
    else .ok { ts with
      ts_ticks := toInt (ts.ts_ticks.tdiv (toInt (ts.ts_ltick - ts.ts_ftick)) *
        toInt (ts.ts_ltick - toInt (t - r.SCHED_TICK_TARG)))
      ts_ftick := toInt (t - r.SCHED_TICK_TARG) }
  else .ok ts

/-- The ticks since the last update, for a thread that was running. -/
def chargeTicks (t : ℤ) (run : Bool) (ts : SchedThread) : SchedThread :=
  if run then
    { ts with ts_ticks := toInt (ts.ts_ticks + toInt (toInt (t - ts.ts_ltick) * SCHED_TICK_ONE)) }
  else ts

def sched_pctcpu_update (r : ClockRates) (ticks : ℤ) (ts : SchedThread) (run : Bool) :
    Except ClockFault SchedThread :=
  (slideWindow r ticks ts).map fun ts => { chargeTicks ticks run ts with ts_ltick := ticks }

/-! ### Priorities -/

def SCHED_TICK_HZ (ts : SchedThread) : ℤ := ts.ts_ticks / SCHED_TICK_ONE

/-- The maximum is that of two `u_int`. -/
def SCHED_TICK_TOTAL (r : ClockRates) (ts : SchedThread) : ℤ :=
  max (toUInt (ts.ts_ltick - ts.ts_ftick)) r.hz

/-- The macro on two `u_int`. -/
def roundup (x y : ℤ) : ℤ := toUInt (toUInt (x + (y - 1)) / y * y)

def SCHED_PRI_TICKS (r : ClockRates) (ts : SchedThread) : Except ClockFault ℤ :=
  let perPri := roundup (SCHED_TICK_TOTAL r ts) SCHED_PRI_RANGE / SCHED_PRI_RANGE
  if perPri = 0 then .error .divideByZero else .ok (toUInt (SCHED_TICK_HZ ts) / perPri)

def sched_user_prio (td : SchedThread) (prio : ℤ) : SchedThread :=
  if td.td_lend_user_pri ≤ prio then { td with td_base_user_pri := prio }
  else { td with td_base_user_pri := prio, td_user_pri := prio }

/-- The priority of a thread that counts as interactive. -/
def interactPri (sched_interact score : ℤ) : ℤ :=
  PRI_MIN_INTERACT + (PRI_MAX_INTERACT - PRI_MIN_INTERACT + 1).tdiv sched_interact * score

/-- The part of a batch priority that comes from the ticks. -/
def batchTicks (r : ClockRates) (td : SchedThread) : Except ClockFault ℤ :=
  if td.ts_ticks ≠ 0 then (SCHED_PRI_TICKS r td).map fun n => min n (SCHED_PRI_RANGE - 1)
  else .ok 0

def sched_priority (r : ClockRates) (sched_interact p_nice : ℤ) (td : SchedThread) :
    Except ClockFault SchedThread :=
  if PRI_BASE td.td_pri_class ≠ PRI_TIMESHARE then .ok td
  else
    let score := max 0 (sched_interact_score sched_interact td + p_nice)
    if score < sched_interact then
      let pri := interactPri sched_interact score
      if PRI_MIN_INTERACT ≤ pri ∧ pri ≤ PRI_MAX_INTERACT then .ok (sched_user_prio td pri)
      else .error .assertion
    else do
      let pri := SCHED_PRI_MIN + (← batchTicks r td) + p_nice
      if PRI_MIN_BATCH ≤ pri ∧ pri ≤ PRI_MAX_BATCH then .ok (sched_user_prio td pri)
      else .error .assertion

/-! ### Slices -/

def tdq_slice (r : ClockRates) (tdq_sysload : ℤ) : ℤ :=
  let load := tdq_sysload - 1
  if load ≥ SCHED_SLICE_MIN_DIVISOR then r.sched_slice_min
  else if load ≤ 1 then r.sched_slice
  else r.sched_slice / load

/-- The count of a slice in `sched_clock`, and whether the thread is to be rescheduled. -/
def countSlice (r : ClockRates) (tdq_sysload : ℤ) (idle : Bool) (ts : SchedThread) :
    SchedThread × Bool :=
  if idle then (ts, false)
  else
    let ts := { ts with ts_slice := toInt (ts.ts_slice + 1) }
    if ts.ts_slice ≥ tdq_slice r tdq_sysload then ({ ts with ts_slice := 0 }, true)
    else (ts, false)

/-! ### What each step keeps -/

section kept

variable {r : ClockRates} {ts ts' : SchedThread} {t : ℤ} {run : Bool}

lemma ClockRates.realstathz_pos (r : ClockRates) : 1 ≤ r.realstathz := by
  have h1 := r.hz_ge
  have h2 := r.stathz_nonneg
  unfold realstathz
  split <;> omega

lemma ClockRates.realstathz_le (r : ClockRates) : r.realstathz ≤ INT_MAX := by
  have h1 := r.hz_le
  have h2 := r.stathz_le
  unfold realstathz INT_MAX at *
  split <;> omega

lemma ClockRates.tickincr_range (r : ClockRates) :
    1 ≤ r.tickincr ∧ r.tickincr ≤ r.hz * SCHED_TICK_ONE := by
  have hz := r.hz_ge
  have hnum : 0 ≤ r.hz * SCHED_TICK_ONE := by unfold SCHED_TICK_ONE; omega
  have hdiv := Int.ediv_nonneg hnum (by have := r.realstathz_pos; omega : 0 ≤ r.realstathz)
  have hle := Int.ediv_le_self r.realstathz hnum
  unfold tickincr
  dsimp only
  split
  · unfold SCHED_TICK_ONE
    omega
  · omega

lemma ClockRates.slp_run_max_le (r : ClockRates) : r.SCHED_SLP_RUN_MAX ≤ 976128000 := by
  have hz := r.hz_le
  unfold SCHED_SLP_RUN_MAX SCHED_TICK_ONE
  omega

lemma ClockRates.sched_slice_range (r : ClockRates) :
    0 ≤ r.sched_slice_min ∧ r.sched_slice_min ≤ r.sched_slice ∧ r.sched_slice < INT_MAX := by
  have h1 := r.realstathz_pos
  have h2 := r.realstathz_le
  unfold sched_slice_min sched_slice SCHED_SLICE_DEFAULT_DIVISOR SCHED_SLICE_MIN_DIVISOR
  omega

lemma tdq_slice_range (r : ClockRates) (tdq_sysload : ℤ) :
    r.sched_slice_min ≤ tdq_slice r tdq_sysload ∧ tdq_slice r tdq_sysload ≤ r.sched_slice := by
  obtain ⟨hmin, hle, -⟩ := r.sched_slice_range
  unfold tdq_slice SCHED_SLICE_MIN_DIVISOR
  dsimp only
  split
  · exact ⟨le_refl _, hle⟩
  · split
    · exact ⟨hle, le_refl _⟩
    · next h1 h2 =>
      have hload : tdq_sysload = 3 ∨ tdq_sysload = 4 ∨ tdq_sysload = 5 ∨ tdq_sysload = 6 := by omega
      unfold ClockRates.sched_slice_min SCHED_SLICE_MIN_DIVISOR at hmin hle ⊢
      rcases hload with rfl | rfl | rfl | rfl <;> omega

/-- The ticks between the first one that is remembered and the last update. -/
def SchedThread.window (ts : SchedThread) : ℤ := toInt (ts.ts_ltick - ts.ts_ftick)

/-- The two times of the history are of type `u_int`. -/
def SchedThread.InRange (ts : SchedThread) : Prop :=
  (0 ≤ ts.ts_slptime ∧ ts.ts_slptime < 4294967296) ∧ 0 ≤ ts.ts_runtime ∧ ts.ts_runtime < 4294967296

/-- The history of a thread. `slept` and `timely` say whether the run has kept the bounds on
the time a thread sleeps and on the time it runs between two updates. -/
structure SchedThread.Kept (r : ClockRates) (slept timely : Prop) (ts : SchedThread) : Prop where
  slice : 0 ≤ ts.ts_slice ∧ ts.ts_slice ≤ r.sched_slice
  range : ts.InRange
  window : 0 ≤ ts.window ∧ ts.window < r.SCHED_TICK_MAX
  history : slept → ts.ts_runtime + ts.ts_slptime ≤ r.SCHED_SLP_RUN_MAX + 1
  charged : timely → 0 ≤ ts.ts_ticks ∧ ts.ts_ticks ≤ ts.window * SCHED_TICK_ONE

/-- **The limit on the history**: an update leaves at most one unit more than the maximum,
unless the sum has overflowed. Nothing else of the thread changes. -/
lemma interact_update_range (h : ts.InRange) :
    ∃ slp ran, sched_interact_update r ts = { ts with ts_slptime := slp, ts_runtime := ran } ∧
      ((0 ≤ slp ∧ slp < 4294967296) ∧ 0 ≤ ran ∧ ran < 4294967296) ∧
      (ts.ts_runtime + ts.ts_slptime < 4294967296 → ran + slp ≤ r.SCHED_SLP_RUN_MAX + 1) := by
  have hz := r.hz_ge
  have hz' := r.hz_le
  unfold SchedThread.InRange at h
  unfold sched_interact_update ClockRates.SCHED_SLP_RUN_MAX SCHED_TICK_ONE toUInt
  dsimp only
  split
  · exact ⟨_, _, rfl, h, fun _ => by omega⟩
  · split
    · split
      · exact ⟨_, _, rfl, ⟨by omega, by omega⟩, fun _ => by omega⟩
      · exact ⟨_, _, rfl, ⟨by omega, by omega⟩, fun _ => by omega⟩
    · split
      · exact ⟨_, _, rfl, ⟨by omega, by omega⟩, fun _ => by omega⟩
      · exact ⟨_, _, rfl, ⟨by omega, by omega⟩, fun _ => by omega⟩

lemma SchedThread.Kept.interact_update {slept timely : Prop} (hk : ts.Kept r slept timely)
    {slp ran : ℤ} (hslp : 0 ≤ slp ∧ slp < 4294967296) (hran : 0 ≤ ran ∧ ran < 4294967296)
    (hsum : slept → ran + slp < 4294967296) :
    (sched_interact_update r { ts with ts_slptime := slp, ts_runtime := ran }).Kept r slept
      timely := by
  have hin : SchedThread.InRange { ts with ts_slptime := slp, ts_runtime := ran } := ⟨hslp, hran⟩
  obtain ⟨slp', ran', heq, hrange, hbound⟩ := interact_update_range (r := r) hin
  rw [heq]
  exact ⟨hk.slice, hrange, hk.window, fun hs => hbound (hsum hs), hk.charged⟩

/-- `incr` is one tick, or what a child has run. -/
lemma SchedThread.Kept.charge {slept timely : Prop} (hk : ts.Kept r slept timely) {incr : ℤ}
    (h0 : 0 ≤ incr) (hincr : slept → incr ≤ r.SCHED_SLP_RUN_MAX + 1) :
    (sched_interact_update r
      { ts with ts_runtime := toUInt (ts.ts_runtime + incr) }).Kept r slept timely := by
  have hmax : r.SCHED_SLP_RUN_MAX ≤ 976128000 := r.slp_run_max_le
  obtain ⟨hs, hr0, hr1⟩ := hk.range
  have hu : 0 ≤ toUInt (ts.ts_runtime + incr) ∧ toUInt (ts.ts_runtime + incr) < 4294967296 := by
    unfold toUInt
    omega
  refine hk.interact_update hs hu fun hslept => ?_
  have h1 := hk.history hslept
  have h2 := hincr hslept
  rw [toUInt_of_range (by omega) (by omega)]
  omega

lemma SchedThread.Kept.credit {slept timely : Prop} (hk : ts.Kept r slept timely) {slp : ℤ}
    (h0 : 0 ≤ slp) (hslp : slept → slp + r.SCHED_SLP_RUN_MAX + 1 < 4294967296) :
    (sched_interact_update r
      { ts with ts_slptime := toUInt (ts.ts_slptime + slp) }).Kept r slept timely := by
  obtain ⟨⟨hs0, hs1⟩, hr⟩ := hk.range
  have hu : 0 ≤ toUInt (ts.ts_slptime + slp) ∧ toUInt (ts.ts_slptime + slp) < 4294967296 := by
    unfold toUInt
    omega
  refine hk.interact_update hu hr fun hslept => ?_
  have h1 := hk.history hslept
  have h2 := hslp hslept
  rw [toUInt_of_range (by omega) (by omega)]
  omega

/-- Both parts of a sum divided by the number of times that `bound` goes into it. -/
lemma scaled_lt {a b bound : ℤ} (hb : 0 < bound) (hle : bound ≤ a + b) :
    a / ((a + b) / bound) + b / ((a + b) / bound) < 2 * bound := by
  set q := (a + b) / bound
  have hq : 1 ≤ q := Int.le_ediv_of_mul_le hb (by omega)
  have h1 : a / q * q ≤ a := Int.ediv_mul_le a (by omega)
  have h2 : b / q * q ≤ b := Int.ediv_mul_le b (by omega)
  have h3 : a + b < (q + 1) * bound := Int.lt_ediv_add_one_mul_self (a + b) hb
  by_contra hge
  have h4 : 2 * bound * q ≤ (a / q + b / q) * q := mul_le_mul_of_nonneg_right (by omega) (by omega)
  have h5 : bound ≤ q * bound := le_mul_of_one_le_left hb.le hq
  linarith only [h1, h2, h3, h4, h5]

lemma interact_fork_kept {slept timely : Prop} (hk : ts.Kept r slept timely) :
    ∃ ts', sched_interact_fork r ts = .ok ts' ∧ ts'.Kept r slept timely ∧
      (slept → ts'.ts_runtime + ts'.ts_slptime < 2 * r.SCHED_SLP_RUN_FORK) := by
  have hz := r.hz_ge
  have hz' := r.hz_le
  obtain ⟨⟨hs0, hs1⟩, hr0, hr1⟩ := hk.range
  have hF : 0 < r.SCHED_SLP_RUN_FORK := by
    unfold ClockRates.SCHED_SLP_RUN_FORK SCHED_TICK_ONE
    omega
  have hM := r.slp_run_max_le
  unfold sched_interact_fork
  dsimp only
  split
  next hgt =>
    rw [if_neg hF.ne']
    set sum := toInt (ts.ts_runtime + ts.ts_slptime)
    have hratio : sum.tdiv r.SCHED_SLP_RUN_FORK = sum / r.SCHED_SLP_RUN_FORK :=
      Int.tdiv_eq_ediv_of_nonneg (by omega)
    have hpos : 1 ≤ sum / r.SCHED_SLP_RUN_FORK := Int.le_ediv_of_mul_le hF (by omega)
    have hlt : sum / r.SCHED_SLP_RUN_FORK ≤ sum := Int.ediv_le_self _ (by omega)
    have hint := (toInt_range (ts.ts_runtime + ts.ts_slptime)).2
    rw [hratio, if_neg (by omega), toUInt_of_range (by omega) (by omega)]
    have hran : 0 ≤ ts.ts_runtime / (sum / r.SCHED_SLP_RUN_FORK) ∧
        ts.ts_runtime / (sum / r.SCHED_SLP_RUN_FORK) ≤ ts.ts_runtime :=
      ⟨Int.ediv_nonneg hr0 (by omega), Int.ediv_le_self _ hr0⟩
    have hslp : 0 ≤ ts.ts_slptime / (sum / r.SCHED_SLP_RUN_FORK) ∧
        ts.ts_slptime / (sum / r.SCHED_SLP_RUN_FORK) ≤ ts.ts_slptime :=
      ⟨Int.ediv_nonneg hs0 (by omega), Int.ediv_le_self _ hs0⟩
    refine ⟨_, rfl, ⟨hk.slice, ⟨⟨hslp.1, by dsimp only; omega⟩, hran.1, by dsimp only; omega⟩,
      hk.window, fun hs => ?_, hk.charged⟩, fun hs => ?_⟩
    · have := hk.history hs
      dsimp only
      omega
    · have hsum : sum = ts.ts_runtime + ts.ts_slptime :=
        toInt_of_range (by omega) (by have := hk.history hs; omega)
      dsimp only
      rw [hsum]
      exact scaled_lt hF (by omega)
  next hle =>
    refine ⟨ts, rfl, hk, fun hs => ?_⟩
    have hsum : toInt (ts.ts_runtime + ts.ts_slptime) = ts.ts_runtime + ts.ts_slptime :=
      toInt_of_range (by omega) (by have := hk.history hs; omega)
    omega

/-- The ticks kept are those of the window up to the last update, of which the part before the
new window is forgotten. -/
lemma slideWindow_kept {slept timely : Prop} (hk : ts.Kept r slept timely) (t : ℤ) :
    ∃ n f, slideWindow r t ts = .ok { ts with ts_ticks := n, ts_ftick := f } ∧
      (0 ≤ toInt (t - f) ∧ toInt (t - f) < r.SCHED_TICK_MAX) ∧
      (toUInt (t - ts.ts_ltick) ≥ r.SCHED_TICK_TARG → n = 0 ∧ toInt (t - f) = r.SCHED_TICK_TARG) ∧
      (toUInt (t - ts.ts_ltick) < r.SCHED_TICK_TARG → timely →
        0 ≤ n ∧ n ≤ (toInt (t - f) - toUInt (t - ts.ts_ltick)) * SCHED_TICK_ONE) := by
  have hz := r.hz_ge
  have hz' := r.hz_le
  have hw := hk.window
  have hc := hk.charged
  unfold SchedThread.window ClockRates.SCHED_TICK_MAX ClockRates.SCHED_TICK_TARG at *
  unfold SCHED_TICK_SECS SCHED_TICK_ONE at *
  have hfull : toInt (t - toInt (t - r.hz * 10)) = r.hz * 10 := by
    unfold toInt
    omega
  unfold slideWindow ClockRates.SCHED_TICK_MAX ClockRates.SCHED_TICK_TARG SCHED_TICK_SECS
  split
  next hold =>
    exact ⟨0, toInt (t - r.hz * 10), rfl, by omega, fun _ => ⟨rfl, hfull⟩, fun hlt => by omega⟩
  next hnew =>
    split
    next hlong =>
      set w := toInt (ts.ts_ltick - ts.ts_ftick) with hwdef
      set g := toUInt (t - ts.ts_ltick) with hgdef
      have hspan : toInt (t - ts.ts_ftick) = w + g := by
        unfold toInt toUInt at *
        omega
      have hrest : toInt (ts.ts_ltick - toInt (t - r.hz * 10)) = r.hz * 10 - g := by
        unfold toInt toUInt at *
        omega
      have hg0 : 0 ≤ g := Int.emod_nonneg _ (by omega)
      rw [if_neg (by omega), hrest]
      refine ⟨_, _, rfl, by omega, fun hge => absurd hge hnew, fun _ ht => ?_⟩
      obtain ⟨h0, hle⟩ := hc ht
      -- at most one tick in full for every tick of the window
      have hq0 : 0 ≤ ts.ts_ticks.tdiv w := Int.tdiv_nonneg h0 hw.1
      have hq : ts.ts_ticks.tdiv w ≤ 1024 := by
        rw [Int.tdiv_eq_ediv_of_nonneg h0]
        exact Int.ediv_le_of_le_mul (by omega) (by omega)
      have hn0 : 0 ≤ ts.ts_ticks.tdiv w * (r.hz * 10 - g) := mul_nonneg hq0 (by omega)
      have hn : ts.ts_ticks.tdiv w * (r.hz * 10 - g) ≤ 1024 * (r.hz * 10 - g) :=
        mul_le_mul_of_nonneg_right hq (by omega)
      rw [toInt_of_range (by omega) (by omega), hfull]
      exact ⟨hn0, by omega⟩
    next hshort =>
      have hspan : toInt (t - ts.ts_ftick) =
          toInt (ts.ts_ltick - ts.ts_ftick) + toUInt (t - ts.ts_ltick) := by
        unfold toInt toUInt at *
        omega
      have hg0 : 0 ≤ toUInt (t - ts.ts_ltick) := Int.emod_nonneg _ (by omega)
      refine ⟨ts.ts_ticks, ts.ts_ftick, rfl, by omega, fun hge => absurd hge hnew, fun _ ht => ?_⟩
      have := hc ht
      omega

/-- **The ticks of a thread**: an update divides by no zero, and a thread that is updated often
enough while it runs is charged at most the time that has passed. -/
lemma pctcpu_update_kept {slept timely : Prop} (hk : ts.Kept r slept timely) (t : ℤ) (run : Bool)
    (hcharge : timely → run = true → toUInt (t - ts.ts_ltick) ≤ r.SCHED_TICK_TARG) :
    ∃ n f, sched_pctcpu_update r t ts run =
        .ok { ts with ts_ticks := n, ts_ftick := f, ts_ltick := t } ∧
      SchedThread.Kept r slept timely { ts with ts_ticks := n, ts_ftick := f, ts_ltick := t } := by
  have hz := r.hz_ge
  have hz' := r.hz_le
  obtain ⟨n, f, heq, hw, hold, hnew⟩ := slideWindow_kept hk t
  have hg0 : 0 ≤ toUInt (t - ts.ts_ltick) := Int.emod_nonneg _ (by omega)
  unfold sched_pctcpu_update
  rw [heq]
  have hkept : ∀ n', (timely → 0 ≤ n' ∧ n' ≤ toInt (t - f) * SCHED_TICK_ONE) →
      SchedThread.Kept r slept timely { ts with ts_ticks := n', ts_ftick := f, ts_ltick := t } :=
    fun n' hn' => ⟨hk.slice, hk.range, hw, hk.history, hn'⟩
  cases run with
  | false =>
    refine ⟨n, f, rfl, hkept n fun ht => ?_⟩
    unfold SCHED_TICK_ONE at *
    rcases lt_or_ge (toUInt (t - ts.ts_ltick)) r.SCHED_TICK_TARG with hlt | hge
    · have := hnew hlt ht
      omega
    · have := hold hge
      omega
  | true =>
    refine ⟨_, f, rfl, hkept _ fun ht => ?_⟩
    have hgap := hcharge ht rfl
    unfold ClockRates.SCHED_TICK_MAX ClockRates.SCHED_TICK_TARG at *
    unfold SCHED_TICK_SECS SCHED_TICK_ONE at *
    have hint : toInt (t - ts.ts_ltick) = toUInt (t - ts.ts_ltick) := by
      unfold toInt toUInt at *
      omega
    simp only [chargeTicks, SCHED_TICK_ONE, if_true]
    rw [hint, toInt_of_range (x := toUInt (t - ts.ts_ltick) * 1024) (by omega) (by omega)]
    rcases lt_or_ge (toUInt (t - ts.ts_ltick)) (r.hz * 10) with hlt | hge
    · have := hnew hlt ht
      rw [toInt_of_range (by omega) (by omega)]
      omega
    · have := hold hge
      rw [toInt_of_range (by omega) (by omega)]
      omega

lemma countSlice_kept {slept timely : Prop} (hk : ts.Kept r slept timely) (tdq_sysload : ℤ)
    (idle : Bool) :
    (countSlice r tdq_sysload idle ts).1.Kept r slept timely ∧
      (idle = false → (countSlice r tdq_sysload idle ts).2 = false →
        ts.ts_slice + 1 < tdq_slice r tdq_sysload ∧
          (countSlice r tdq_sysload idle ts).1.ts_slice = ts.ts_slice + 1) := by
  obtain ⟨h0, hmin, hmax⟩ := r.sched_slice_range
  obtain ⟨-, hle⟩ := tdq_slice_range r tdq_sysload
  obtain ⟨hs0, hs1⟩ := hk.slice
  have hint : toInt (ts.ts_slice + 1) = ts.ts_slice + 1 := by
    unfold INT_MAX at hmax
    exact toInt_of_range (by omega) (by omega)
  unfold countSlice
  dsimp only
  rw [hint]
  split
  next hidle => exact ⟨hk, fun hn => absurd hidle (by simp [hn])⟩
  next =>
    split
    next => exact ⟨⟨⟨le_refl 0, by dsimp only; omega⟩, hk.range, hk.window, hk.history, hk.charged⟩,
      by simp⟩
    next hlt =>
      exact ⟨⟨⟨by dsimp only; omega, by dsimp only; omega⟩, hk.range, hk.window, hk.history,
        hk.charged⟩, fun _ _ => ⟨by omega, rfl⟩⟩

/-! ### The score and the priority -/

lemma interact_half_eq : SCHED_INTERACT_HALF = 50 := rfl

lemma interact_max_eq : SCHED_INTERACT_MAX = 100 := rfl

/-- The lesser time over a fiftieth of the larger one: rounding lets the quotient pass fifty
while the larger time is short. -/
lemma quotient_range {lesser larger : ℤ} (h0 : 0 ≤ lesser) (hlt : lesser < larger) :
    0 ≤ lesser / max 1 (larger / SCHED_INTERACT_HALF) ∧
      lesser / max 1 (larger / SCHED_INTERACT_HALF) ≤ 98 ∧
      (2450 ≤ larger → lesser / max 1 (larger / SCHED_INTERACT_HALF) ≤ SCHED_INTERACT_HALF) := by
  unfold SCHED_INTERACT_HALF SCHED_INTERACT_MAX
  refine ⟨Int.ediv_nonneg h0 (by omega), Int.ediv_le_of_le_mul (by omega) (by omega), fun hl => ?_⟩
  exact Int.lt_add_one_iff.mp (Int.ediv_lt_of_lt_mul (by omega) (by omega))

lemma quotient_mono {lesser larger lesser' larger' : ℤ} (h0 : 0 ≤ lesser') (h : lesser' ≤ lesser)
    (h' : larger ≤ larger') :
    lesser' / max 1 (larger' / SCHED_INTERACT_HALF) ≤
      lesser / max 1 (larger / SCHED_INTERACT_HALF) := by
  set d := max 1 (larger / SCHED_INTERACT_HALF)
  set d' := max 1 (larger' / SCHED_INTERACT_HALF)
  have hd : 1 ≤ d := le_max_left _ _
  have hd' : d ≤ d' := max_le_max (le_refl 1) (Int.ediv_le_ediv (by decide) h')
  refine Int.le_ediv_of_mul_le (by omega) ?_
  calc lesser' / d' * d
    _ ≤ lesser' / d' * d' :=
        mul_le_mul_of_nonneg_left hd' (Int.ediv_nonneg h0 (by omega))
    _ ≤ lesser' := Int.ediv_mul_le _ (by omega)
    _ ≤ lesser := h

/-- The score once the test that spares its computation has failed. -/
lemma interact_score_cases (sched_interact : ℤ) (h : ts.InRange) :
    (ts.ts_slptime ≤ ts.ts_runtime ∧ sched_interact ≤ SCHED_INTERACT_HALF ∧
      sched_interact_score sched_interact ts = SCHED_INTERACT_HALF) ∨
    (ts.ts_slptime < ts.ts_runtime ∧ SCHED_INTERACT_HALF < sched_interact ∧
      sched_interact_score sched_interact ts = SCHED_INTERACT_MAX -
        ts.ts_slptime / max 1 (ts.ts_runtime / SCHED_INTERACT_HALF)) ∨
    (ts.ts_runtime < ts.ts_slptime ∧ sched_interact_score sched_interact ts =
      ts.ts_runtime / max 1 (ts.ts_slptime / SCHED_INTERACT_HALF)) ∨
    (ts.ts_runtime = ts.ts_slptime ∧ SCHED_INTERACT_HALF < sched_interact ∧
      sched_interact_score sched_interact ts =
        if ts.ts_runtime ≠ 0 then SCHED_INTERACT_HALF else 0) := by
  obtain ⟨⟨hs0, hs1⟩, hr0, hr1⟩ := h
  have hH := interact_half_eq
  have hM := interact_max_eq
  unfold sched_interact_score
  dsimp only
  split
  next hspare => exact .inl ⟨hspare.2, hspare.1, rfl⟩
  next hspare =>
    split
    next hgt =>
      have hq := quotient_range hs0 hgt
      refine .inr (.inl ⟨hgt, by omega, ?_⟩)
      rw [toInt_of_range (by omega) (by omega)]
      omega
    next hle =>
      split
      next hlt => exact .inr (.inr (.inl ⟨hlt, rfl⟩))
      next hge => exact .inr (.inr (.inr ⟨by omega, by omega, rfl⟩))

/-- **More sleep, better score**: among histories of some length the score does not rise with
the time slept nor fall with the time run. -/
lemma interact_score_mono (sched_interact : ℤ) (h : ts.InRange) (h' : ts'.InRange)
    (hslp : ts.ts_slptime ≤ ts'.ts_slptime) (hrun : ts'.ts_runtime ≤ ts.ts_runtime)
    (hlong : 2450 ≤ max ts.ts_runtime ts.ts_slptime)
    (hlong' : 2450 ≤ max ts'.ts_runtime ts'.ts_slptime) :
    sched_interact_score sched_interact ts' ≤ sched_interact_score sched_interact ts := by
  have hH := interact_half_eq
  have hM := interact_max_eq
  have hs := h.1.1
  have hr := h.2.1
  have hr' := h'.2.1
  have hs' := h'.1.1
  rcases interact_score_cases sched_interact h' with
    ⟨hle', hsi', he'⟩ | ⟨hlt', hsi', he'⟩ | ⟨hlt', he'⟩ | ⟨heq', hsi', he'⟩ <;>
  rcases interact_score_cases sched_interact h with
    ⟨hle, hsi, he⟩ | ⟨hlt, hsi, he⟩ | ⟨hlt, he⟩ | ⟨heq, hsi, he⟩
  all_goals rw [he, he']
  -- the order of the times excludes a pair of cases, or one of the scores is a half
  all_goals try omega
  · have := quotient_mono hs hslp hrun
    omega
  · have := (quotient_range hr' hlt').2.2 (by omega)
    omega
  · have h1 := (quotient_range hr' hlt').2.2 (by omega)
    have h2 := (quotient_range hs hlt).2.2 (by omega)
    omega
  · exact quotient_mono hr' hrun hslp
  · have h1 := (quotient_range hr' hlt').2.2 (by omega)
    rw [if_pos (by omega)]
    exact h1
  · have h2 := (quotient_range hs hlt).2.2 (by omega)
    split <;> omega

lemma batchTicks_ok (hw : 0 ≤ ts.window ∧ ts.window < r.SCHED_TICK_MAX) :
    ∃ n, batchTicks r ts = .ok n ∧ 0 ≤ n ∧ n ≤ SCHED_PRI_RANGE - 1 := by
  have hz := r.hz_ge
  have hz' := r.hz_le
  have hrange : SCHED_PRI_RANGE = 32 := rfl
  unfold batchTicks
  split
  · have hper : 1 ≤ roundup (SCHED_TICK_TOTAL r ts) SCHED_PRI_RANGE / SCHED_PRI_RANGE := by
      unfold SchedThread.window ClockRates.SCHED_TICK_MAX ClockRates.SCHED_TICK_TARG at hw
      unfold SCHED_TICK_SECS at hw
      unfold roundup SCHED_TICK_TOTAL
      rw [hrange]
      have hsame : toUInt (ts.ts_ltick - ts.ts_ftick) = toInt (ts.ts_ltick - ts.ts_ftick) := by
        unfold toInt toUInt at *
        omega
      rw [hsame]
      set total := max (toInt (ts.ts_ltick - ts.ts_ftick)) r.hz with htotal
      have htot : 2 ≤ total ∧ total < r.hz * 11 := by omega
      rw [toUInt_of_range (x := total + (32 - 1)) (by omega) (by omega),
        toUInt_of_range (by omega) (by omega)]
      omega
    unfold SCHED_PRI_TICKS
    dsimp only
    rw [if_neg (by omega)]
    have hq : 0 ≤ toUInt (SCHED_TICK_HZ ts) /
        (roundup (SCHED_TICK_TOTAL r ts) SCHED_PRI_RANGE / SCHED_PRI_RANGE) :=
      Int.ediv_nonneg (Int.emod_nonneg _ (by omega)) (by omega)
    exact ⟨_, rfl, le_min hq (by omega), min_le_right _ _⟩
  · exact ⟨0, rfl, le_refl 0, by omega⟩

lemma interactPri_range {sched_interact score : ℤ} (h0 : 0 ≤ score) (hlt : score < sched_interact) :
    PRI_MIN_INTERACT ≤ interactPri sched_interact score ∧
      interactPri sched_interact score ≤ PRI_MAX_INTERACT := by
  have hwidth : PRI_MAX_INTERACT - PRI_MIN_INTERACT + 1 = 32 := rfl
  have hmin : PRI_MIN_INTERACT = 120 := rfl
  unfold interactPri
  rw [hwidth, Int.tdiv_eq_ediv_of_nonneg (by omega)]
  have hq : 0 ≤ 32 / sched_interact := Int.ediv_nonneg (by omega) (by omega)
  have h1 : 0 ≤ 32 / sched_interact * score := mul_nonneg hq h0
  refine ⟨by omega, ?_⟩
  rcases eq_or_lt_of_le hq with hzero | hpos
  · rw [← hzero]
    omega
  · have h2 : 32 / sched_interact * score ≤ 32 / sched_interact * (sched_interact - 1) :=
      mul_le_mul_of_nonneg_left (by omega) hq
    have h3 : 32 / sched_interact * sched_interact ≤ 32 := Int.ediv_mul_le 32 (by omega)
    rw [mul_sub, mul_one] at h2
    omega

lemma interactPri_mono {sched_interact score score' : ℤ} (h0 : 0 ≤ score) (hle : score ≤ score')
    (hlt : score' < sched_interact) :
    interactPri sched_interact score ≤ interactPri sched_interact score' := by
  unfold interactPri
  have hq : 0 ≤ (PRI_MAX_INTERACT - PRI_MIN_INTERACT + 1).tdiv sched_interact :=
    Int.tdiv_nonneg (by decide) (by omega)
  have := mul_le_mul_of_nonneg_left hle hq
  omega

/-- The priority that a thread gets, the ticks taken as `n`. -/
def threadPri (sched_interact p_nice n : ℤ) (td : SchedThread) : ℤ :=
  let score := max 0 (sched_interact_score sched_interact td + p_nice)
  if score < sched_interact then interactPri sched_interact score else SCHED_PRI_MIN + n + p_nice

lemma threadPri_range (sched_interact : ℤ) (ts : SchedThread) {p_nice n : ℤ}
    (hn : 0 ≤ n ∧ n ≤ SCHED_PRI_RANGE - 1)
    (hnice : PRIO_MIN ≤ p_nice ∧ p_nice ≤ PRIO_MAX) :
    PRI_MIN_TIMESHARE ≤ threadPri sched_interact p_nice n ts ∧
      threadPri sched_interact p_nice n ts ≤ PRI_MAX_TIMESHARE ∧
      (threadPri sched_interact p_nice n ts ≤ PRI_MAX_INTERACT ↔
        max 0 (sched_interact_score sched_interact ts + p_nice) < sched_interact) := by
  have h1 : SCHED_PRI_RANGE = 32 := rfl
  have h2 : SCHED_PRI_MIN = 172 := rfl
  have h3 : PRI_MIN_INTERACT = 120 := rfl
  have h4 : PRI_MAX_INTERACT = 151 := rfl
  have h5 : (PRI_MIN_TIMESHARE : ℤ) = 120 := rfl
  have h6 : (PRI_MAX_TIMESHARE : ℤ) = 223 := rfl
  have h7 : PRIO_MIN = -20 := rfl
  have h8 : PRIO_MAX = 20 := rfl
  unfold threadPri
  dsimp only
  split
  next hlt =>
    obtain ⟨hmin, hmax⟩ := interactPri_range (le_max_left _ _) hlt
    exact ⟨by omega, by omega, iff_of_true hmax hlt⟩
  next hge => exact ⟨by omega, by omega, iff_of_false (by omega) hge⟩

lemma threadPri_mono {sched_interact p_nice n : ℤ} (hn : 0 ≤ n ∧ n ≤ SCHED_PRI_RANGE - 1)
    (hnice : PRIO_MIN ≤ p_nice ∧ p_nice ≤ PRIO_MAX)
    (hscore : sched_interact_score sched_interact ts' ≤ sched_interact_score sched_interact ts) :
    threadPri sched_interact p_nice n ts' ≤ threadPri sched_interact p_nice n ts := by
  have hle : max 0 (sched_interact_score sched_interact ts' + p_nice) ≤
      max 0 (sched_interact_score sched_interact ts + p_nice) := by omega
  by_cases hlt : max 0 (sched_interact_score sched_interact ts + p_nice) < sched_interact
  · unfold threadPri
    dsimp only
    rw [if_pos hlt, if_pos (hle.trans_lt hlt)]
    exact interactPri_mono (le_max_left _ _) hle hlt
  · by_cases hlt' : max 0 (sched_interact_score sched_interact ts' + p_nice) < sched_interact
    · -- an interactive priority is better than a batch one
      have h1 := (threadPri_range sched_interact ts' hn hnice).2.2.mpr hlt'
      have h2 := mt (threadPri_range sched_interact ts hn hnice).2.2.mp hlt
      exact h1.trans (le_of_not_ge h2)
    · unfold threadPri
      dsimp only
      rw [if_neg hlt, if_neg hlt']

/-- **The assertions on priorities hold**: with a nice value in its range and any threshold, a
timeshare thread gets a priority, and the priority is an interactive one exactly if the score
stays below the threshold. -/
lemma sched_priority_ok (hw : 0 ≤ ts.window ∧ ts.window < r.SCHED_TICK_MAX) {p_nice : ℤ}
    (hnice : PRIO_MIN ≤ p_nice ∧ p_nice ≤ PRIO_MAX) (sched_interact : ℤ) :
    ∃ n, batchTicks r ts = .ok n ∧ (0 ≤ n ∧ n ≤ SCHED_PRI_RANGE - 1) ∧
      sched_priority r sched_interact p_nice ts = .ok (if PRI_BASE ts.td_pri_class ≠ PRI_TIMESHARE
        then ts else sched_user_prio ts (threadPri sched_interact p_nice n ts)) := by
  obtain ⟨n, hbatch, hn⟩ := batchTicks_ok hw
  refine ⟨n, hbatch, hn, ?_⟩
  have h1 : SCHED_PRI_RANGE = 32 := rfl
  have h2 : SCHED_PRI_MIN = 172 := rfl
  have h3 : (PRI_MIN_BATCH : ℤ) = 152 := rfl
  have h4 : (PRI_MAX_BATCH : ℤ) = 223 := rfl
  have h7 : PRIO_MIN = -20 := rfl
  have h8 : PRIO_MAX = 20 := rfl
  unfold sched_priority threadPri
  dsimp only
  split
  · rfl
  · split
    next hlt => rw [if_pos (interactPri_range (le_max_left _ _) hlt)]
    next =>
      simp only [hbatch, bind, Except.bind]
      rw [if_pos (by omega)]

end kept

end Messaround.Sched
