import Mathlib.Data.Finset.Erase
import Mathlib.Data.Finset.Insert
import Messaround.Sched.History

/-!
The histories of all threads in any order of ticks, switches, sleeps, forks, exits and changes of
the nice values.
-/

namespace Messaround.Sched

open CInt
open Function (update)

/-- The clock, the threshold that a sysctl sets, and the threads with their processes. -/
structure History (T P : Type) where
  ticks : ℤ
  sched_interact : ℤ
  td_proc : T → P
  p_nice : P → ℤ
  thread : T → SchedThread

abbrev FSCALE : ℤ := 2048

section routines

variable {T P : Type} [DecidableEq T] [DecidableEq P] (r : ClockRates) (h : History T P)

def History.setThread (td : T) (ts : SchedThread) : History T P :=
  { h with thread := update h.thread td ts }

def schedinit (td : T) : History T P :=
  h.setThread td { h.thread td with ts_ltick := h.ticks, ts_ftick := h.ticks, ts_slice := 0 }

def priorityOf (td : T) (ts : SchedThread) : Except ClockFault SchedThread :=
  sched_priority r h.sched_interact (h.p_nice (h.td_proc td)) ts

/-- The run time `incr` for a thread, and its priority after that. -/
def chargeRun (td : T) (incr : ℤ) (ts : SchedThread) : Except ClockFault SchedThread :=
  priorityOf r h td
    (sched_interact_update r { ts with ts_runtime := toUInt (ts.ts_runtime + incr) })

/-- The part of `sched_clock` about the thread that runs; the flag is `TDF_SLICEEND`. -/
def sched_clock (td : T) (tdq_sysload : ℤ) (idle : Bool) :
    Except ClockFault (History T P × Bool) := do
  let ts ← sched_pctcpu_update r h.ticks (h.thread td) true
  if ts.td_pri_class &&& PRI_FIFO_BIT ≠ 0 then return (h.setThread td ts, false)
  else
    let ts ← if PRI_BASE ts.td_pri_class = PRI_TIMESHARE then chargeRun r h td r.tickincr ts
      else .ok ts
    return (h.setThread td (countSlice r tdq_sysload idle ts).1,
      (countSlice r tdq_sysload idle ts).2)

/-- What `sched_switch` records of the thread that stops and of the one that goes on. -/
def switchTicks (td newtd : T) : Except ClockFault (History T P) := do
  let ts ← sched_pctcpu_update r h.ticks (h.thread td) true
  let h := h.setThread td ts
  if td = newtd then return h
  else
    let ts ← sched_pctcpu_update r h.ticks (h.thread newtd) false
    return h.setThread newtd ts

def sched_sleep (td : T) : History T P :=
  h.setThread td { h.thread td with td_slptick := h.ticks }

/-- `(ticks - slptick) << SCHED_TICK_SHIFT`, as a `u_int`. -/
def sleepCredit (ticks slptick : ℤ) : ℤ := toUInt (toInt (toInt (ticks - slptick) * SCHED_TICK_ONE))

/-- What `sched_wakeup` does before it adds the thread to a queue. -/
def wakeThread (td : T) : Except ClockFault SchedThread :=
  let slptick := (h.thread td).td_slptick
  let ts := { h.thread td with td_slptick := 0 }
  if slptick ≠ 0 ∧ slptick ≠ h.ticks then
    sched_pctcpu_update r h.ticks (sched_interact_update r
      { ts with ts_slptime := toUInt (ts.ts_slptime + sleepCredit h.ticks slptick) }) false
  else .ok ts

/-- The priority that `sched_add` computes before it picks a queue. -/
def addPriority (td : T) : Except ClockFault (History T P) := do
  let ts ← priorityOf r h td (h.thread td)
  return h.setThread td ts

def sched_wakeup (td : T) : Except ClockFault (History T P) := do
  let ts ← wakeThread r h td
  addPriority r (h.setThread td { ts with ts_slice := 0 }) td

/-- The child's history, inherited from `ts`. -/
def sched_fork_thread (ts ts2 : SchedThread) (tdq_sysload : ℤ) : SchedThread :=
  { ts2 with
    ts_ticks := ts.ts_ticks
    ts_ltick := ts.ts_ltick
    ts_ftick := ts.ts_ftick
    ts_slptime := ts.ts_slptime
    ts_runtime := ts.ts_runtime
    ts_slice := toInt (tdq_slice r tdq_sysload - r.sched_slice_min) }

def sched_fork (td child : T) (tdq_sysload : ℤ) : Except ClockFault (History T P) := do
  let ts ← sched_pctcpu_update r h.ticks (h.thread td) true
  let ts2 ← sched_interact_fork r (sched_fork_thread r ts (h.thread child) tdq_sysload)
  let ts2 ← priorityOf r h child ts2
  let ts ← chargeRun r h td r.tickincr ts
  return (h.setThread td ts).setThread child ts2

def sched_exit_thread (td child : T) : Except ClockFault (History T P) := do
  let ts ← chargeRun r h td (h.thread child).ts_runtime (h.thread td)
  return h.setThread td ts

/-- `tds` are the threads of the process. -/
def sched_nice (p : P) (nice : ℤ) (tds : List T) : Except ClockFault (History T P) :=
  tds.foldlM (fun h td => addPriority r h td) { h with p_nice := update h.p_nice p nice }

/-- The percentage is a multiple of `1 / FSCALE`. -/
def sched_pctcpu (td : T) (running : Bool) : Except ClockFault (History T P × ℤ) := do
  let ts ← sched_pctcpu_update r h.ticks (h.thread td) running
  let rtick := min (toUInt ((SCHED_TICK_HZ ts).tdiv SCHED_TICK_SECS)) r.hz
  return (h.setThread td ts, if ts.ts_ticks ≠ 0 then FSCALE * (FSCALE * rtick / r.hz) / FSCALE else 0)

def sched_class (td : T) (class_ : UInt8) : History T P :=
  h.setThread td { h.thread td with td_pri_class := class_ }

end routines

/-- What can happen to the histories; `hardclock` advances `ticks`, and `sysctl` sets
`kern.sched.interact`. -/
inductive HistoryEvent (T P : Type)
  | hardclock
  | sched_clock (td : T) (tdq_sysload : ℤ) (idle : Bool)
  | sched_switch (td newtd : T)
  | sched_sleep (td : T)
  | sched_wakeup (td : T)
  | sched_add (td : T)
  | sched_fork (td child : T) (tdq_sysload : ℤ)
  | sched_exit_thread (td child : T)
  | sched_nice (p : P) (nice : ℤ) (tds : List T)
  | sched_pctcpu (td : T) (running : Bool)
  | sched_class (td : T) (class_ : UInt8)
  | sysctl (sched_interact : ℤ)

section runs

variable {T P : Type} [DecidableEq T] [DecidableEq P]

def HistoryEvent.exec (r : ClockRates) (h : History T P) :
    HistoryEvent T P → Except ClockFault (History T P)
  | hardclock => .ok { h with ticks := toInt (h.ticks + 1) }
  | .sched_clock td tdq_sysload idle => (Sched.sched_clock r h td tdq_sysload idle).map Prod.fst
  | sched_switch td newtd => switchTicks r h td newtd
  | .sched_sleep td => .ok (Sched.sched_sleep h td)
  | .sched_wakeup td => Sched.sched_wakeup r h td
  | sched_add td => addPriority r h td
  | .sched_fork td child tdq_sysload => Sched.sched_fork r h td child tdq_sysload
  | .sched_exit_thread td child => Sched.sched_exit_thread r h td child
  | .sched_nice p nice tds => Sched.sched_nice r h p nice tds
  | .sched_pctcpu td running => (Sched.sched_pctcpu r h td running).map Prod.fst
  | .sched_class td class_ => .ok (Sched.sched_class h td class_)
  | sysctl sched_interact => .ok { h with sched_interact }

/-- The threads whose history an event goes by. -/
def HistoryEvent.threads : HistoryEvent T P → List T
  | hardclock => []
  | .sched_clock td _ _ | .sched_sleep td | .sched_wakeup td | sched_add td | .sched_fork td _ _
  | .sched_pctcpu td _ | .sched_class td _ => [td]
  | sched_switch td newtd => [td, newtd]
  | .sched_exit_thread td child => [td, child]
  | .sched_nice _ _ tds => tds
  | sysctl _ => []

/-- The threads that have a history after an event. -/
def HistoryEvent.live (S : Finset T) : HistoryEvent T P → Finset T
  | .sched_fork _ child _ => insert child S
  | .sched_exit_thread _ child => S.erase child
  | _ => S

/-- What the callers see to: the threads exist, and a nice value is one of the range. -/
def HistoryEvent.Legal (S : Finset T) (e : HistoryEvent T P) : Prop :=
  (∀ td ∈ e.threads, td ∈ S) ∧
    match e with
    | .sched_fork td child _ => td ≠ child
    | .sched_nice _ nice _ => PRIO_MIN ≤ nice ∧ nice ≤ PRIO_MAX
    | _ => True

/-- The threads that an event charges with the ticks since their last update. -/
def HistoryEvent.runs : HistoryEvent T P → List T
  | .sched_clock td _ _ | sched_switch td _ | .sched_fork td _ _ | .sched_pctcpu td true => [td]
  | _ => []

/-- No thread runs for more than `SCHED_TICK_TARG` ticks without an update. -/
def Timely (r : ClockRates) (e : HistoryEvent T P) (h : History T P) : Prop :=
  ∀ td ∈ e.runs, toUInt (h.ticks - (h.thread td).ts_ltick) ≤ r.SCHED_TICK_TARG

/-- What a thread is given for its sleep does not make the sum of its history overflow. -/
def Slept (r : ClockRates) (e : HistoryEvent T P) (h : History T P) : Prop :=
  match e with
  | .sched_wakeup td => sleepCredit h.ticks (h.thread td).td_slptick + r.SCHED_SLP_RUN_MAX + 1 <
      4294967296
  | _ => True

/-- The runs from the first thread on in which every event meets `G`; `S` are the threads. -/
inductive HistoryReached (r : ClockRates) (G : HistoryEvent T P → History T P → Prop) :
    History T P → Finset T → Prop
  | schedinit {h : History T P} {td : T}
      (hzero : (h.thread td).ts_slptime = 0 ∧ (h.thread td).ts_runtime = 0 ∧
        (h.thread td).ts_ticks = 0)
      (hnice : ∀ p, PRIO_MIN ≤ h.p_nice p ∧ h.p_nice p ≤ PRIO_MAX) :
      HistoryReached r G (schedinit h td) {td}
  | exec {h h' : History T P} {S : Finset T} (e : HistoryEvent T P) (hr : HistoryReached r G h S)
      (hl : e.Legal S) (hg : G e h) (he : e.exec r h = .ok h') : HistoryReached r G h' (e.live S)

end runs

/-! ### What every event keeps -/

variable {T P : Type} {r : ClockRates} {slept timely : Prop} {h h' : History T P} {S : Finset T}
variable {td : T} {ts : SchedThread}

structure HistoryKept (r : ClockRates) (slept timely : Prop) (h : History T P) (S : Finset T) :
    Prop where
  threads : ∀ td ∈ S, (h.thread td).Kept r slept timely
  nice : ∀ p, PRIO_MIN ≤ h.p_nice p ∧ h.p_nice p ≤ PRIO_MAX

section keep

variable [DecidableEq T]

lemma HistoryKept.setThread (hk : HistoryKept r slept timely h S) (hts : ts.Kept r slept timely) :
    HistoryKept r slept timely (h.setThread td ts) (insert td S) := by
  refine ⟨fun t ht => ?_, hk.nice⟩
  rcases eq_or_ne t td with rfl | hne
  · simpa [History.setThread] using hts
  · simpa [History.setThread, hne] using hk.threads t (Finset.mem_of_mem_insert_of_ne ht hne)

lemma HistoryKept.setOld (hk : HistoryKept r slept timely h S) (htd : td ∈ S)
    (hts : ts.Kept r slept timely) : HistoryKept r slept timely (h.setThread td ts) S := by
  have hset : HistoryKept r slept timely (h.setThread td ts) (insert td S) := hk.setThread hts
  rwa [Finset.insert_eq_of_mem htd] at hset

lemma sched_user_prio_kept (hk : ts.Kept r slept timely) (prio : ℤ) :
    (sched_user_prio ts prio).Kept r slept timely := by
  unfold sched_user_prio
  split
  · exact ⟨hk.slice, hk.range, hk.window, hk.history, hk.charged⟩
  · exact ⟨hk.slice, hk.range, hk.window, hk.history, hk.charged⟩

omit [DecidableEq T] in
lemma priorityOf_kept (hnice : ∀ p, PRIO_MIN ≤ h.p_nice p ∧ h.p_nice p ≤ PRIO_MAX) (td : T)
    (hk : ts.Kept r slept timely) :
    ∃ ts', priorityOf r h td ts = .ok ts' ∧ ts'.Kept r slept timely ∧
      ts'.ts_slice = ts.ts_slice ∧ ts'.td_pri_class = ts.td_pri_class ∧
      ts'.ts_runtime + ts'.ts_slptime = ts.ts_runtime + ts.ts_slptime := by
  obtain ⟨n, -, -, heq⟩ := sched_priority_ok hk.window (hnice (h.td_proc td)) h.sched_interact
  refine ⟨_, heq, ?_, ?_⟩
  · split
    · exact hk
    · exact sched_user_prio_kept hk _
  · unfold sched_user_prio
    split
    · exact ⟨rfl, rfl, rfl⟩
    · split
      · exact ⟨rfl, rfl, rfl⟩
      · exact ⟨rfl, rfl, rfl⟩

lemma interact_update_frame (ts : SchedThread) :
    (sched_interact_update r ts).ts_slice = ts.ts_slice ∧
      (sched_interact_update r ts).td_pri_class = ts.td_pri_class := by
  unfold sched_interact_update
  dsimp only
  split
  · exact ⟨rfl, rfl⟩
  · repeat' split
    all_goals exact ⟨rfl, rfl⟩

omit [DecidableEq T] in
lemma chargeRun_kept (hnice : ∀ p, PRIO_MIN ≤ h.p_nice p ∧ h.p_nice p ≤ PRIO_MAX) (td : T)
    (hk : ts.Kept r slept timely) {incr : ℤ} (h0 : 0 ≤ incr)
    (hincr : slept → incr ≤ r.SCHED_SLP_RUN_MAX + 1) :
    ∃ ts', chargeRun r h td incr ts = .ok ts' ∧ ts'.Kept r slept timely ∧
      ts'.ts_slice = ts.ts_slice ∧ ts'.td_pri_class = ts.td_pri_class := by
  obtain ⟨ts', heq, hk', hslice, hclass, -⟩ := priorityOf_kept hnice td (hk.charge h0 hincr)
  obtain ⟨hslice₀, hclass₀⟩ := interact_update_frame
    (r := r) { ts with ts_runtime := toUInt (ts.ts_runtime + incr) }
  exact ⟨ts', heq, hk', hslice.trans hslice₀, hclass.trans hclass₀⟩

lemma ClockRates.tickincr_le (r : ClockRates) :
    0 ≤ r.tickincr ∧ r.tickincr ≤ r.SCHED_SLP_RUN_MAX + 1 := by
  have hz := r.hz_ge
  have hincr := r.tickincr_range
  unfold SCHED_SLP_RUN_MAX SCHED_TICK_ONE at *
  omega

lemma addPriority_kept (hk : HistoryKept r slept timely h S) (htd : td ∈ S) :
    ∃ h', addPriority r h td = .ok h' ∧ HistoryKept r slept timely h' S := by
  obtain ⟨ts, heq, hts, -⟩ := priorityOf_kept hk.nice td (hk.threads td htd)
  refine ⟨_, ?_, hk.setOld htd hts⟩
  simp only [addPriority, heq, bind, Except.bind, pure, Except.pure]

lemma countSlice_class (tdq_sysload : ℤ) (idle : Bool) (ts : SchedThread) :
    (countSlice r tdq_sysload idle ts).1.td_pri_class = ts.td_pri_class := by
  unfold countSlice
  dsimp only
  repeat' split
  all_goals rfl

lemma sched_clock_kept (hk : HistoryKept r slept timely h S) (htd : td ∈ S)
    (htime : timely → toUInt (h.ticks - (h.thread td).ts_ltick) ≤ r.SCHED_TICK_TARG)
    (tdq_sysload : ℤ) (idle : Bool) :
    ∃ res, sched_clock r h td tdq_sysload idle = .ok res ∧
      HistoryKept r slept timely res.1 S ∧
      (res.1.thread td).td_pri_class = (h.thread td).td_pri_class ∧
      ((h.thread td).td_pri_class &&& PRI_FIFO_BIT = 0 → idle = false → res.2 = false →
        (h.thread td).ts_slice + 1 < tdq_slice r tdq_sysload ∧
          (res.1.thread td).ts_slice = (h.thread td).ts_slice + 1) := by
  obtain ⟨n, f, hpct, hts⟩ := pctcpu_update_kept (hk.threads td htd) h.ticks true
    fun ht _ => htime ht
  obtain ⟨h0, hincr⟩ := r.tickincr_le
  obtain ⟨ts', hcharge, hts', hslice, hclass⟩ := chargeRun_kept hk.nice td hts h0 fun _ => hincr
  unfold sched_clock
  rw [hpct]
  simp only [bind, Except.bind, pure, Except.pure]
  split
  next hfifo =>
    refine ⟨_, rfl, hk.setOld htd hts, ?_, fun hno => absurd hno hfifo⟩
    simp [History.setThread]
  next =>
    split
    · rw [hcharge]
      obtain ⟨hts'', hcount⟩ := countSlice_kept hts' tdq_sysload idle
      refine ⟨_, rfl, hk.setOld htd hts'', ?_, fun _ hidle hgo => ?_⟩
      · simp only [History.setThread, Function.update_self, countSlice_class, hclass]
      · obtain ⟨hlt, hnext⟩ := hcount hidle hgo
        simp only [History.setThread, Function.update_self]
        rw [hnext, hslice]
        exact ⟨hslice ▸ hlt, rfl⟩
    · obtain ⟨hts'', hcount⟩ := countSlice_kept hts tdq_sysload idle
      refine ⟨_, rfl, hk.setOld htd hts'', ?_, fun _ hidle hgo => ?_⟩
      · simp only [History.setThread, Function.update_self, countSlice_class]
      · simp only [History.setThread, Function.update_self]
        exact hcount hidle hgo

lemma switchTicks_kept (hk : HistoryKept r slept timely h S) {newtd : T} (htd : td ∈ S)
    (hnew : newtd ∈ S)
    (htime : timely → toUInt (h.ticks - (h.thread td).ts_ltick) ≤ r.SCHED_TICK_TARG) :
    ∃ h', switchTicks r h td newtd = .ok h' ∧ HistoryKept r slept timely h' S := by
  obtain ⟨n, f, hpct, hts⟩ := pctcpu_update_kept (hk.threads td htd) h.ticks true
    fun ht _ => htime ht
  have hk₁ := hk.setOld htd hts
  obtain ⟨n', f', hpct', hts'⟩ := pctcpu_update_kept (hk₁.threads newtd hnew) h.ticks false
    fun _ hrun => absurd hrun (by simp)
  unfold switchTicks
  rw [hpct]
  simp only [bind, Except.bind, pure, Except.pure]
  split
  · exact ⟨_, rfl, hk₁⟩
  · rw [show (h.setThread td _).ticks = h.ticks from rfl, hpct']
    exact ⟨_, rfl, hk₁.setOld hnew hts'⟩

lemma sleepCredit_nonneg (ticks slptick : ℤ) : 0 ≤ sleepCredit ticks slptick :=
  Int.emod_nonneg _ (by omega)

omit [DecidableEq T] in
lemma wakeThread_kept (hk : HistoryKept r slept timely h S) (htd : td ∈ S)
    (hslp : slept → Slept r (.sched_wakeup td) h) :
    ∃ ts, wakeThread r h td = .ok ts ∧ ts.Kept r slept timely := by
  obtain ⟨hs, hr, hw, hh, hc⟩ := hk.threads td htd
  have hts : SchedThread.Kept r slept timely { h.thread td with td_slptick := 0 } :=
    ⟨hs, hr, hw, hh, hc⟩
  unfold wakeThread
  dsimp only
  split
  · have hcredit := hts.credit (sleepCredit_nonneg h.ticks (h.thread td).td_slptick) hslp
    obtain ⟨n, f, heq, hk'⟩ := pctcpu_update_kept hcredit h.ticks false
      fun _ hrun => absurd hrun (by simp)
    exact ⟨_, heq, hk'⟩
  · exact ⟨_, rfl, hts⟩

lemma sched_wakeup_kept (hk : HistoryKept r slept timely h S) (htd : td ∈ S)
    (hslp : slept → Slept r (.sched_wakeup td) h) :
    ∃ h', sched_wakeup r h td = .ok h' ∧ HistoryKept r slept timely h' S := by
  obtain ⟨ts, heq, -, hr, hw, hh, hc⟩ := wakeThread_kept hk htd hslp
  obtain ⟨h0, hmin, -⟩ := r.sched_slice_range
  have hts : SchedThread.Kept r slept timely { ts with ts_slice := 0 } :=
    ⟨⟨le_refl 0, h0.trans hmin⟩, hr, hw, hh, hc⟩
  obtain ⟨h', hadd, hk'⟩ := addPriority_kept (hk.setOld htd hts) htd
  refine ⟨h', ?_, hk'⟩
  unfold sched_wakeup
  rw [heq]
  exact hadd

lemma sched_fork_kept (hk : HistoryKept r slept timely h S) (child : T) (htd : td ∈ S)
    (htime : timely → toUInt (h.ticks - (h.thread td).ts_ltick) ≤ r.SCHED_TICK_TARG)
    (tdq_sysload : ℤ) :
    ∃ h', sched_fork r h td child tdq_sysload = .ok h' ∧
      HistoryKept r slept timely h' (insert child S) ∧
      (slept → (h'.thread child).ts_runtime + (h'.thread child).ts_slptime <
        2 * r.SCHED_SLP_RUN_FORK) := by
  obtain ⟨n, f, hpct, hts⟩ := pctcpu_update_kept (hk.threads td htd) h.ticks true
    fun ht _ => htime ht
  obtain ⟨h0, hincr⟩ := r.tickincr_le
  obtain ⟨ts', hcharge, hts', -⟩ := chargeRun_kept hk.nice td hts h0 fun _ => hincr
  have hinherit : (sched_fork_thread r
      { h.thread td with ts_ticks := n, ts_ftick := f, ts_ltick := h.ticks } (h.thread child)
      tdq_sysload).Kept r slept timely := by
    obtain ⟨hs0, hs1, hs2⟩ := r.sched_slice_range
    obtain ⟨hl, hu⟩ := tdq_slice_range r tdq_sysload
    unfold INT_MAX at hs2
    refine ⟨?_, hts.range, hts.window, hts.history, hts.charged⟩
    unfold sched_fork_thread
    dsimp only
    rw [toInt_of_range (by omega) (by omega)]
    omega
  obtain ⟨ts2, hfork, hts2, hsum⟩ := interact_fork_kept hinherit
  obtain ⟨ts2', hpri, hts2', -, -, hsum'⟩ := priorityOf_kept hk.nice child hts2
  unfold sched_fork
  rw [hpct]
  simp only [bind, Except.bind, pure, Except.pure, hfork, hpri, hcharge]
  refine ⟨_, rfl, (hk.setOld htd hts').setThread hts2', fun hslept => ?_⟩
  simp only [History.setThread, Function.update_self]
  exact hsum' ▸ hsum hslept

lemma sched_exit_thread_kept (hk : HistoryKept r slept timely h S) {child : T} (htd : td ∈ S)
    (hchild : child ∈ S) :
    ∃ h', sched_exit_thread r h td child = .ok h' ∧ HistoryKept r slept timely h' S := by
  have hc := hk.threads child hchild
  obtain ⟨⟨hs0, -⟩, hr0, -⟩ := hc.range
  obtain ⟨ts, heq, hts, -⟩ := chargeRun_kept hk.nice td (hk.threads td htd) hr0
    fun hslept => by have := hc.history hslept; omega
  unfold sched_exit_thread
  rw [heq]
  exact ⟨_, rfl, hk.setOld htd hts⟩

lemma sched_pctcpu_kept (hk : HistoryKept r slept timely h S) (htd : td ∈ S) (running : Bool)
    (htime : timely → running = true →
      toUInt (h.ticks - (h.thread td).ts_ltick) ≤ r.SCHED_TICK_TARG) :
    ∃ res, sched_pctcpu r h td running = .ok res ∧ HistoryKept r slept timely res.1 S ∧
      0 ≤ res.2 ∧ res.2 ≤ FSCALE := by
  obtain ⟨n, f, hpct, hts⟩ := pctcpu_update_kept (hk.threads td htd) h.ticks running htime
  have hz := r.hz_ge
  unfold sched_pctcpu
  rw [hpct]
  refine ⟨_, rfl, hk.setOld htd hts, ?_⟩
  dsimp only
  set rtick := min (toUInt ((SCHED_TICK_HZ _).tdiv SCHED_TICK_SECS)) r.hz
  have h0 : 0 ≤ rtick := le_min (Int.emod_nonneg _ (by omega)) (by omega)
  have hle : rtick ≤ r.hz := min_le_right _ _
  have hq0 : 0 ≤ FSCALE * rtick / r.hz :=
    Int.ediv_nonneg (mul_nonneg (by decide) h0) (by omega)
  have hq : FSCALE * rtick / r.hz ≤ FSCALE :=
    Int.ediv_le_of_le_mul (by omega) (mul_le_mul_of_nonneg_left hle (by decide))
  unfold FSCALE at *
  split <;> omega

variable [DecidableEq P] {G : HistoryEvent T P → History T P → Prop} {e : HistoryEvent T P}

lemma sched_nice_kept (hk : HistoryKept r slept timely h S) {p : P} {nice : ℤ}
    (hnice : PRIO_MIN ≤ nice ∧ nice ≤ PRIO_MAX) {tds : List T} (htds : ∀ td ∈ tds, td ∈ S) :
    ∃ h', sched_nice r h p nice tds = .ok h' ∧ HistoryKept r slept timely h' S := by
  have hk₁ : HistoryKept r slept timely { h with p_nice := update h.p_nice p nice } S := by
    refine ⟨hk.threads, fun q => ?_⟩
    rcases eq_or_ne q p with rfl | hne
    · simpa using hnice
    · simpa [hne] using hk.nice q
  unfold sched_nice
  generalize ({ h with p_nice := update h.p_nice p nice } : History T P) = h₁ at hk₁
  induction tds generalizing h₁ with
  | nil => exact ⟨h₁, rfl, hk₁⟩
  | cons td tds ih =>
    obtain ⟨h₂, heq, hk₂⟩ := addPriority_kept hk₁ (htds td List.mem_cons_self)
    rw [List.foldlM_cons, heq]
    exact ih (fun t ht => htds t (List.mem_cons_of_mem td ht)) h₂ hk₂

/-- **Every legal event goes through**, and the histories are kept. -/
lemma exec_kept (hk : HistoryKept r slept timely h S) (hl : e.Legal S)
    (hslept : slept → Slept r e h) (htimely : timely → Timely r e h) :
    ∃ h', e.exec r h = .ok h' ∧ HistoryKept r slept timely h' (e.live S) := by
  obtain ⟨hmem, hl⟩ := hl
  have hfirst := fun td (ht : td ∈ e.runs) htime => htimely htime td ht
  cases e with
  | hardclock => exact ⟨_, rfl, hk.threads, hk.nice⟩
  | sched_clock td tdq_sysload idle =>
    obtain ⟨res, heq, hk', -, -⟩ := sched_clock_kept hk (hmem td (by simp [HistoryEvent.threads]))
      (hfirst td (by simp [HistoryEvent.runs])) tdq_sysload idle
    exact ⟨res.1, by simp [HistoryEvent.exec, heq, Except.map], hk'⟩
  | sched_switch td newtd =>
    exact switchTicks_kept hk (hmem td (by simp [HistoryEvent.threads]))
      (hmem newtd (by simp [HistoryEvent.threads])) (hfirst td (by simp [HistoryEvent.runs]))
  | sched_sleep td =>
    obtain ⟨hs, hr, hw, hh, hc⟩ := hk.threads td (hmem td (by simp [HistoryEvent.threads]))
    exact ⟨_, rfl, hk.setOld (hmem td (by simp [HistoryEvent.threads])) ⟨hs, hr, hw, hh, hc⟩⟩
  | sched_wakeup td =>
    exact sched_wakeup_kept hk (hmem td (by simp [HistoryEvent.threads])) hslept
  | sched_add td => exact addPriority_kept hk (hmem td (by simp [HistoryEvent.threads]))
  | sched_fork td child tdq_sysload =>
    obtain ⟨h', heq, hk', -⟩ := sched_fork_kept hk child
      (hmem td (by simp [HistoryEvent.threads])) (hfirst td (by simp [HistoryEvent.runs]))
      tdq_sysload
    exact ⟨h', heq, hk'⟩
  | sched_exit_thread td child =>
    obtain ⟨h', heq, hk'⟩ := sched_exit_thread_kept hk
      (hmem td (by simp [HistoryEvent.threads])) (hmem child (by simp [HistoryEvent.threads]))
    exact ⟨h', heq, fun t ht => hk'.threads t (Finset.mem_of_mem_erase ht), hk'.nice⟩
  | sched_nice p nice tds => exact sched_nice_kept hk hl hmem
  | sched_pctcpu td running =>
    obtain ⟨res, heq, hk', -⟩ := sched_pctcpu_kept hk (hmem td (by simp [HistoryEvent.threads]))
      running fun htime hrun => hfirst td (by simp [HistoryEvent.runs, hrun]) htime
    exact ⟨res.1, by simp [HistoryEvent.exec, heq, Except.map], hk'⟩
  | sched_class td class_ =>
    obtain ⟨hs, hr, hw, hh, hc⟩ := hk.threads td (hmem td (by simp [HistoryEvent.threads]))
    exact ⟨_, rfl, hk.setOld (hmem td (by simp [HistoryEvent.threads])) ⟨hs, hr, hw, hh, hc⟩⟩
  | sysctl sched_interact => exact ⟨_, rfl, hk.threads, hk.nice⟩

/-- **Every run**: what the events meet, the histories rely on. -/
lemma HistoryReached.kept (hr : HistoryReached r G h S)
    (hslept : slept → ∀ e h, G e h → Slept r e h)
    (htimely : timely → ∀ e h, G e h → Timely r e h) : HistoryKept r slept timely h S := by
  induction hr with
  | @schedinit h td hzero hnice =>
    refine ⟨fun t ht => ?_, hnice⟩
    obtain ⟨hs, hr, ht0⟩ := hzero
    obtain ⟨h0, hmin, -⟩ := r.sched_slice_range
    have hz := r.hz_ge
    obtain rfl := Finset.mem_singleton.mp ht
    have hw : toInt (h.ticks - h.ticks) = 0 := by simp [toInt]
    simp only [Sched.schedinit, History.setThread, Function.update_self]
    refine ⟨⟨le_refl 0, h0.trans hmin⟩, ?_, ?_, fun _ => ?_, fun _ => ?_⟩
    · simp [SchedThread.InRange, hs, hr]
    · simp only [SchedThread.window, hw, ClockRates.SCHED_TICK_MAX, ClockRates.SCHED_TICK_TARG,
        SCHED_TICK_SECS]
      omega
    · simp only [hs, hr, ClockRates.SCHED_SLP_RUN_MAX, SCHED_TICK_ONE]
      omega
    · simp only [SchedThread.window, hw, ht0]
      omega
  | exec e _ hl hg he ih =>
    obtain ⟨h₁, heq, hk⟩ := exec_kept ih hl (fun hs => hslept hs _ _ hg)
      fun ht => htimely ht _ _ hg
    exact Except.ok.inj (heq.symm.trans he) ▸ hk

/-- **The limit on the history holds in every run**: unless a sleep is so long that the sum
overflows, the time that a thread has slept and run stays within one unit of the maximum, and a
child starts with less than twice what a fork is to hand on. -/
theorem history_bounded (hr : HistoryReached r (Slept r) h S) (htd : td ∈ S) :
    0 ≤ (h.thread td).ts_runtime ∧ 0 ≤ (h.thread td).ts_slptime ∧
    (h.thread td).ts_runtime + (h.thread td).ts_slptime ≤ r.SCHED_SLP_RUN_MAX + 1 ∧
    ∀ child tdq_sysload, ∃ h', sched_fork r h td child tdq_sysload = .ok h' ∧
      (h'.thread child).ts_runtime + (h'.thread child).ts_slptime < 2 * r.SCHED_SLP_RUN_FORK := by
  have hk : HistoryKept r True False h S := hr.kept (fun _ _ _ hs => hs) False.elim
  obtain ⟨⟨hs0, -⟩, hr0, -⟩ := (hk.threads td htd).range
  refine ⟨hr0, hs0, (hk.threads td htd).history trivial, fun child tdq_sysload => ?_⟩
  obtain ⟨h', heq, -, hsum⟩ := sched_fork_kept hk child htd False.elim tdq_sysload
  exact ⟨h', heq, hsum trivial⟩

/-- **No division by zero and no failed assertion**: in every run the ticks of a thread are
those of at most eleven seconds, every event goes through, and the share of the processor that
is reported is between nothing and all of it. -/
theorem history_proceeds (hr : HistoryReached r G h S) :
    (∀ td ∈ S, 0 ≤ (h.thread td).window ∧ (h.thread td).window < r.SCHED_TICK_MAX) ∧
    (∀ e : HistoryEvent T P, e.Legal S → ∃ h', e.exec r h = .ok h') ∧
    ∀ td ∈ S, ∀ running, ∃ h' pctcpu, sched_pctcpu r h td running = .ok (h', pctcpu) ∧
      0 ≤ pctcpu ∧ pctcpu ≤ FSCALE := by
  have hk : HistoryKept r False False h S := hr.kept False.elim False.elim
  refine ⟨fun td htd => (hk.threads td htd).window, fun e hl => ?_, fun td htd running => ?_⟩
  · obtain ⟨h', heq, -⟩ := exec_kept hk hl False.elim False.elim
    exact ⟨h', heq⟩
  · obtain ⟨⟨h', pctcpu⟩, heq, -, hpct⟩ := sched_pctcpu_kept hk htd running False.elim
    exact ⟨h', pctcpu, heq, hpct⟩

/-- **A thread is charged at most the time that has passed**, whatever it inherited, forgot or
was switched out for, if no thread runs for ten seconds without an update. -/
theorem history_charged (hr : HistoryReached r (Timely r) h S) (htd : td ∈ S) :
    0 ≤ (h.thread td).ts_ticks ∧
      (h.thread td).ts_ticks ≤ (h.thread td).window * SCHED_TICK_ONE := by
  have hk : HistoryKept r False True h S := hr.kept False.elim fun _ _ _ ht => ht
  exact (hk.threads td htd).charged trivial

/-- **The priority of a timeshare thread** in every state of every run: it is one of the
timeshare range, and an interactive one exactly if the score and the nice value stay below the
threshold; had the thread slept longer and run less, it would be no worse. -/
theorem history_priority (hr : HistoryReached r G h S) (htd : td ∈ S)
    (hclass : PRI_BASE (h.thread td).td_pri_class = PRI_TIMESHARE) :
    ∃ ts, priorityOf r h td (h.thread td) = .ok ts ∧
      PRI_MIN_TIMESHARE ≤ ts.td_base_user_pri ∧ ts.td_base_user_pri ≤ PRI_MAX_TIMESHARE ∧
      (ts.td_base_user_pri ≤ PRI_MAX_INTERACT ↔
        max 0 (sched_interact_score h.sched_interact (h.thread td) + h.p_nice (h.td_proc td)) <
          h.sched_interact) ∧
      ∀ slp ran, (h.thread td).ts_slptime ≤ slp → slp < 4294967296 → 0 ≤ ran →
        ran ≤ (h.thread td).ts_runtime → 2450 ≤ max ran slp →
        2450 ≤ max (h.thread td).ts_runtime (h.thread td).ts_slptime →
        ∃ ts', priorityOf r h td { h.thread td with ts_slptime := slp, ts_runtime := ran } =
          .ok ts' ∧ ts'.td_base_user_pri ≤ ts.td_base_user_pri := by
  have hk : HistoryKept r False False h S := hr.kept False.elim False.elim
  have hts := hk.threads td htd
  have hnice := hk.nice (h.td_proc td)
  have hbase : ∀ ts prio, (sched_user_prio ts prio).td_base_user_pri = prio := fun ts prio => by
    unfold sched_user_prio
    split <;> rfl
  obtain ⟨n, hbatch, hn, heq⟩ := sched_priority_ok hts.window hnice h.sched_interact
  obtain ⟨hmin, hmax, hiff⟩ := threadPri_range h.sched_interact (h.thread td) hn hnice
  rw [if_neg (not_not.mpr hclass)] at heq
  refine ⟨_, heq, ?_, ?_, ?_, fun slp ran hslp hslp' hran0 hran hlong hlong' => ?_⟩
  · exact (hbase _ _).symm ▸ hmin
  · exact (hbase _ _).symm ▸ hmax
  · rw [hbase]
    exact hiff
  · set ts₁ : SchedThread := { h.thread td with ts_slptime := slp, ts_runtime := ran }
    obtain ⟨⟨hs0, hs1⟩, hr0, hr1⟩ := id hts.range
    have hin : ts₁.InRange := ⟨⟨hs0.trans hslp, hslp'⟩, hran0, hran.trans_lt hr1⟩
    have hwin : 0 ≤ ts₁.window ∧ ts₁.window < r.SCHED_TICK_MAX := hts.window
    obtain ⟨n', hbatch', -, heq'⟩ := sched_priority_ok hwin hnice h.sched_interact
    obtain rfl : n' = n := Except.ok.inj (hbatch'.symm.trans hbatch)
    rw [if_neg (not_not.mpr hclass)] at heq'
    refine ⟨_, heq', ?_⟩
    rw [hbase, hbase]
    exact threadPri_mono hn hnice
      (interact_score_mono h.sched_interact hts.range hin hslp hran hlong' hlong)

/-- **A slice ends**: a thread that keeps its processor, is not the idle one and has no FIFO class
is told to give it up at one of the first `max 1 sched_slice` ticks, whatever the load is at each. -/
theorem slice_ends {σ : ℕ → History T P} {S : ℕ → Finset T} {load : ℕ → ℤ} {flag : ℕ → Bool}
    (hr : ∀ n, HistoryReached r G (σ n) (S n)) (htd : ∀ n, td ∈ S n)
    (hfifo : ∀ n, ((σ n).thread td).td_pri_class &&& PRI_FIFO_BIT = 0)
    (hclock : ∀ n, ∃ h', sched_clock r (σ n) td (load n) false = .ok (h', flag n) ∧
      ((σ (n + 1)).thread td).ts_slice = (h'.thread td).ts_slice) :
    ∃ n : ℕ, (n : ℤ) < max 1 r.sched_slice ∧ flag n = true := by
  by_contra hnever
  push Not at hnever
  have hstep : ∀ n : ℕ, (n : ℤ) < max 1 r.sched_slice →
      ((σ n).thread td).ts_slice + 1 < r.sched_slice ∧
        ((σ (n + 1)).thread td).ts_slice = ((σ n).thread td).ts_slice + 1 := fun n hn => by
    have hk : HistoryKept r False False (σ n) (S n) := (hr n).kept False.elim False.elim
    obtain ⟨h', heq, hnext⟩ := hclock n
    obtain ⟨res, heq', -, -, hgo⟩ := sched_clock_kept hk (htd n) False.elim (load n) false
    obtain rfl := Except.ok.inj (heq'.symm.trans heq)
    obtain ⟨hlt, hslice⟩ := hgo (hfifo n) rfl (by simpa using hnever n hn)
    exact ⟨hlt.trans_le (tdq_slice_range r (load n)).2, hnext.trans hslice⟩
  have hcount : ∀ n : ℕ, (n : ℤ) ≤ max 1 r.sched_slice →
      (n : ℤ) ≤ ((σ n).thread td).ts_slice := fun n => by
    induction n with
    | zero =>
      have hk : HistoryKept r False False (σ 0) (S 0) := (hr 0).kept False.elim False.elim
      exact fun _ => (hk.threads td (htd 0)).slice.1
    | succ n ih =>
      intro hn
      have h1 := ih (by omega)
      have h2 := (hstep n (by omega)).2
      omega
  have hpos : 1 ≤ max 1 r.sched_slice := le_max_left _ _
  obtain ⟨last, hlast⟩ : ∃ last : ℕ, (last : ℤ) = max 1 r.sched_slice - 1 :=
    ⟨(max 1 r.sched_slice - 1).toNat, by omega⟩
  have h1 := hcount last (by omega)
  have h2 := (hstep last (by omega)).1
  omega

end keep

/-! ### A run with a sleep and a fork -/

section play

variable {T P : Type} [DecidableEq T] [DecidableEq P]

instance (S : Finset T) (e : HistoryEvent T P) : Decidable (e.Legal S) := by
  cases e <;> exact inferInstanceAs (Decidable (_ ∧ _))

instance (r : ClockRates) (e : HistoryEvent T P) (h : History T P) : Decidable (Timely r e h) :=
  inferInstanceAs (Decidable (∀ td ∈ e.runs, _))

instance (r : ClockRates) (e : HistoryEvent T P) (h : History T P) : Decidable (Slept r e h) := by
  cases e
  case sched_wakeup => exact inferInstanceAs (Decidable (_ < _))
  all_goals exact inferInstanceAs (Decidable True)

/-- Where a run of legal events ends that keeps to `Slept` and `Timely`. -/
def playHistory (r : ClockRates) (h : History T P) (S : Finset T) :
    List (HistoryEvent T P) → Option (History T P × Finset T)
  | [] => some (h, S)
  | e :: es =>
    if e.Legal S ∧ Slept r e h ∧ Timely r e h then
      match e.exec r h with
      | .ok h' => playHistory r h' (e.live S) es
      | .error _ => none
    else none

lemma playHistory_reached {r : ClockRates} {G : HistoryEvent T P → History T P → Prop}
    (hG : ∀ e h, Slept r e h ∧ Timely r e h → G e h) {es : List (HistoryEvent T P)}
    {h : History T P} {S : Finset T} {res : History T P × Finset T} (hr : HistoryReached r G h S)
    (hplay : playHistory r h S es = some res) : HistoryReached r G res.1 res.2 := by
  induction es generalizing h S with
  | nil => exact Option.some.inj hplay ▸ hr
  | cons e es ih =>
    unfold playHistory at hplay
    split at hplay
    next hok =>
      split at hplay
      next h' he => exact ih (.exec e hr hok.1 (hG e h hok.2) he) hplay
      next => contradiction
    next => contradiction

end play

/-- Two ticks a second, all of them charged. -/
def coarseRates : ClockRates := ⟨2, 0, by decide, by decide, by decide, by decide⟩

/-- The thread `false` is the first one, shortly before `ticks` overflows. -/
def bootHistory : History Bool Unit where
  ticks := 2147483640
  sched_interact := 30
  td_proc _ := ()
  p_nice _ := 0
  thread _ := ⟨0, 0, 0, 0, 0, 0, 0, PRI_TIMESHARE, 120, 255, 120⟩

lemma bootHistory_reached (r : ClockRates) (G : HistoryEvent Bool Unit → History Bool Unit → Prop) :
    HistoryReached r G (schedinit bootHistory false) {false} :=
  .schedinit ⟨rfl, rfl, rfl⟩ fun _ => (by decide : PRIO_MIN ≤ 0 ∧ 0 ≤ PRIO_MAX)

def ticksOf (td : Bool) (n : ℕ) : List (HistoryEvent Bool Unit) :=
  (List.replicate n [.hardclock, .sched_clock td 1 false]).flatten

/-- Ten ticks, after which the history decays, a sleep of six, and six more ticks, during which
the window slides; then a fork. -/
def busyEvents : List (HistoryEvent Bool Unit) :=
  ticksOf false 10 ++ .sched_sleep false :: List.replicate 6 .hardclock ++
    .sched_wakeup false :: ticksOf false 6 ++ [.sched_fork false true 1, .hardclock]

def busyRun : Option (History Bool Unit × Finset Bool) :=
  playHistory coarseRates (schedinit bootHistory false) {false} busyEvents

lemma busyRun_isSome : busyRun.isSome = true := by decide +kernel

/-- The state that the run leads to. -/
def busyHistory : History Bool Unit := (busyRun.get busyRun_isSome).1

lemma busyHistory_reached {G : HistoryEvent Bool Unit → History Bool Unit → Prop}
    (hG : ∀ e h, Slept coarseRates e h ∧ Timely coarseRates e h → G e h) :
    HistoryReached coarseRates G busyHistory {false, true} := by
  have hS : (busyRun.get busyRun_isSome).2 = {false, true} := by decide +kernel
  rw [← hS]
  exact playHistory_reached hG (bootHistory_reached coarseRates G)
    (Option.some_get busyRun_isSome).symm

theorem history_bounded_busy : 0 < (busyHistory.thread false).ts_slptime ∧
    (busyHistory.thread false).ts_runtime + (busyHistory.thread false).ts_slptime ≤ 10241 ∧
    ∃ h', sched_fork coarseRates busyHistory false true 1 = .ok h' ∧
      (h'.thread true).ts_runtime + (h'.thread true).ts_slptime < 2048 :=
  have hb := history_bounded (busyHistory_reached fun _ _ hG => hG.1)
    (by decide : false ∈ ({false, true} : Finset Bool))
  ⟨by decide +kernel, hb.2.2.1, hb.2.2.2 true 1⟩

theorem history_proceeds_busy : (busyHistory.thread true).window < 22 ∧
    (∃ h', HistoryEvent.exec coarseRates busyHistory (.sched_switch false true) = .ok h') ∧
    ∃ h' pctcpu, sched_pctcpu coarseRates busyHistory false true = .ok (h', pctcpu) ∧
      pctcpu ≤ FSCALE := by
  obtain ⟨hw, hexec, hpct⟩ := history_proceeds (busyHistory_reached fun _ _ _ => trivial)
  obtain ⟨h', pctcpu, heq, -, hle⟩ := hpct false (by decide) true
  exact ⟨(hw true (by decide)).2, hexec (.sched_switch false true) (by decide), h', pctcpu, heq, hle⟩

theorem history_charged_busy : 0 < (busyHistory.thread false).ts_ticks ∧
    (busyHistory.thread false).ts_ticks ≤ (busyHistory.thread false).window * SCHED_TICK_ONE :=
  ⟨by decide +kernel, (history_charged (busyHistory_reached fun _ _ hG => hG.2) (by decide)).2⟩

/-- With a thousand units more of sleep and half of the run time. -/
theorem history_priority_busy : ∃ ts ts',
    priorityOf coarseRates busyHistory false (busyHistory.thread false) = .ok ts ∧
    priorityOf coarseRates busyHistory false
      { busyHistory.thread false with ts_slptime := 2964, ts_runtime := 4032 } = .ok ts' ∧
    PRI_MIN_TIMESHARE ≤ ts.td_base_user_pri ∧ ts'.td_base_user_pri ≤ ts.td_base_user_pri := by
  obtain ⟨ts, heq, hmin, -, -, hmono⟩ := history_priority
    (busyHistory_reached fun _ _ _ => trivial) (by decide : false ∈ ({false, true} : Finset Bool))
    (by decide +kernel)
  obtain ⟨ts', heq', hle⟩ := hmono 2964 4032 (by decide +kernel) (by decide) (by decide)
    (by decide +kernel) (by decide) (by decide +kernel)
  exact ⟨ts, ts', heq, heq', hmin, hle⟩

/-! ### A slice -/

/-- A clock of 100 ticks a second beside a statistics clock of 127. -/
def usualRates : ClockRates := ⟨100, 127, by decide, by decide, by decide, by decide⟩

/-- The states of runs of the first thread, as a timeshare one. -/
abbrev AloneHistory : Type :=
  {h : History Bool Unit // HistoryReached usualRates (fun _ _ => True) h {false} ∧
    (h.thread false).td_pri_class = PRI_TIMESHARE}

lemma aloneHistory_tick (h : AloneHistory) :
    ∃ res, sched_clock usualRates h.1 false 1 false = .ok res ∧
      HistoryReached usualRates (fun _ _ => True) { res.1 with ticks := toInt (res.1.ticks + 1) }
        {false} ∧ (res.1.thread false).td_pri_class = PRI_TIMESHARE := by
  obtain ⟨h, hr, hclass⟩ := h
  have hk : HistoryKept usualRates False False h {false} := hr.kept False.elim False.elim
  obtain ⟨res, heq, -, hsame, -⟩ := sched_clock_kept hk (by decide : false ∈ _) False.elim 1 false
  have hclock : HistoryReached usualRates (fun _ _ => True) res.1 {false} :=
    .exec (.sched_clock false 1 false) hr (by decide) trivial
      (by simp [HistoryEvent.exec, heq, Except.map])
  exact ⟨res, heq, .exec .hardclock hclock (by decide) trivial rfl, hsame.trans hclass⟩

theorem slice_ends_boot : ∃ (σ : ℕ → History Bool Unit) (flag : ℕ → Bool),
    σ 0 = schedinit bootHistory false ∧
    (∀ n, ∃ h', sched_clock usualRates (σ n) false 1 false = .ok (h', flag n) ∧
      σ (n + 1) = { h' with ticks := toInt (h'.ticks + 1) }) ∧
    ∃ n < 12, flag n = true := by
  choose next hclock hreached hclass using aloneHistory_tick
  let tick : AloneHistory → AloneHistory := fun h => ⟨_, hreached h, hclass h⟩
  let σ : ℕ → AloneHistory :=
    fun n => tick^[n] ⟨schedinit bootHistory false, bootHistory_reached usualRates _, rfl⟩
  have hstep : ∀ n, sched_clock usualRates (σ n) false 1 false =
      .ok ((next (σ n)).1, (next (σ n)).2) := fun n => hclock (σ n)
  have hnext : ∀ n, (σ (n + 1)).1 =
      { (next (σ n)).1 with ticks := toInt ((next (σ n)).1.ticks + 1) } := fun n => by
    simp only [σ, Function.iterate_succ_apply', tick]
  refine ⟨fun n => σ n, fun n => (next (σ n)).2, rfl, fun n => ⟨_, hstep n, hnext n⟩, ?_⟩
  obtain ⟨n, hn, hflag⟩ := slice_ends (fun n => (σ n).2.1) (fun _ => by decide)
    (fun n => by rw [(σ n).2.2]; decide) fun n => ⟨_, hstep n, by rw [hnext]⟩
  have hslice : max 1 usualRates.sched_slice = 12 := by decide
  exact ⟨n, by omega, hflag⟩

end Messaround.Sched
