import Messaround.Sched.Runq

/-!
The queue of one processor: the routines of kern/sched_ule.c.

The priority ranges are those of sys/priority.h as the macros of the file divide them.
-/

namespace Messaround.Sched

abbrev PRIO_MIN : ℤ := -20
abbrev PRIO_MAX : ℤ := 20

abbrev PRI_MIN_TIMESHARE : ℕ := 120
abbrev PRI_MAX_TIMESHARE : ℕ := 223
abbrev PRI_MAX_IDLE : ℕ := 255

abbrev SCHED_PRI_NRESV : ℕ := 40
abbrev PRI_TIMESHARE_RANGE : ℕ := PRI_MAX_TIMESHARE - PRI_MIN_TIMESHARE + 1
abbrev PRI_INTERACT_RANGE : ℕ := (PRI_TIMESHARE_RANGE - SCHED_PRI_NRESV) / 2
abbrev PRI_BATCH_RANGE : ℕ := PRI_TIMESHARE_RANGE - PRI_INTERACT_RANGE
abbrev PRI_MIN_BATCH : ℕ := PRI_MIN_TIMESHARE + PRI_INTERACT_RANGE
abbrev PRI_MAX_BATCH : ℕ := PRI_MAX_TIMESHARE

variable {T : Type}

def isRoot (th : Thread) : Bool := th.cr_uid == 0

def THREAD_CAN_MIGRATE (th : Thread) : Bool := th.td_pinned == 0

/-- A processor's queue as the loader leaves it. -/
def zeroTdq : Tdq T := ⟨fun _ => runq_init, 0, 0, 0, 0⟩

def tdq_setup (tdq : Tdq T) : Tdq T := { tdq with tdq_runq := fun _ => runq_init }

/-- The slot of the timeshare queue for a thread that was not preempted. -/
def timeshareSlot (tdq : Tdq T) (pri : UInt8) : UInt8 :=
  let pri : UInt8 := .ofNat (RQ_NQS * (pri.toNat - PRI_MIN_BATCH) / PRI_BATCH_RANGE)
  let pri : UInt8 := .ofNat ((pri.toNat + tdq.tdq_idx.toNat) % RQ_NQS)
  -- one slot short of the whole queue while `ridx` waits for its threads to drain
  if tdq.tdq_ridx ≠ tdq.tdq_idx ∧ pri = tdq.tdq_ridx then .ofNat ((pri - 1).toNat % RQ_NQS)
  else pri

variable [DecidableEq T]

/-- `TD_SET_RUNQ`, and the count of a thread that can migrate. -/
def countIn (s : Sys T) (td : T) : Sys T :=
  let s := s.setThread td { s.thread td with td_state := .TDS_RUNQ }
  if THREAD_CAN_MIGRATE (s.thread td) then
    (s.addTransferable 1).setThread td
      { s.thread td with ts_flags := (s.thread td).ts_flags ||| TSF_XFERABLE }
  else s

def tdq_runq_add (s : Sys T) (td : T) (flags : BitVec 32) : Except Fault (Sys T) :=
  let pri := (s.thread td).td_priority
  let s := countIn s td
  if pri.toNat < PRI_MIN_BATCH then
    runq_add (s.setThread td { s.thread td with ts_runq := some .tdq_realtime }) .tdq_realtime td
      flags
  else if pri.toNat ≤ PRI_MAX_BATCH then
    if !isRoot (s.thread td) then
      let s := lottery_q_add s .tdq_lottery td
      .ok (s.setThread td { s.thread td with ts_runq := some .tdq_lottery })
    else
      let s := s.setThread td { s.thread td with ts_runq := some .tdq_timeshare }
      let pri := if flags &&& (SRQ_BORROWING ||| SRQ_PREEMPTED) = 0 then timeshareSlot s.tdq pri
        else s.tdq.tdq_ridx
      runq_add_pri s .tdq_timeshare td pri flags
  else
    runq_add (s.setThread td { s.thread td with ts_runq := some .tdq_idle }) .tdq_idle td flags

/-- The count of a thread that leaves as the one it was added as. -/
def countOut (s : Sys T) (td : T) : Sys T :=
  if (s.thread td).ts_flags &&& TSF_XFERABLE ≠ 0 then
    (s.addTransferable (-1)).setThread td
      { s.thread td with ts_flags := (s.thread td).ts_flags &&& ~~~TSF_XFERABLE }
  else s

def tdq_runq_rem (s : Sys T) (td : T) : Except Fault (Sys T) :=
  let s := countOut s td
  match (s.thread td).ts_runq with
  | none => .error .nullDereference
  | some .tdq_timeshare => runq_remove_idx s .tdq_timeshare td (s.tdq.tdq_idx ≠ s.tdq.tdq_ridx)
  | some .tdq_lottery => lottery_q_remove s .tdq_lottery td
  | some n => runq_remove s n td

/-- The thread to run, or `none`; `rnd` is what `random()` answers. -/
def tdq_choose (s : Sys T) (rnd : ℕ) : Except Fault (Option T) :=
  match runq_choose (s.tdq.tdq_runq .tdq_realtime) with
  | some td => .ok (some td)
  | none =>
    match runq_choose_from (s.tdq.tdq_runq .tdq_timeshare) s.tdq.tdq_ridx with
    | some td => .ok (some td)
    | none => do
      match ← lottery_q_choose s .tdq_lottery true rnd with
      | some td => return some td
      | none => return runq_choose (s.tdq.tdq_runq .tdq_idle)

def setLowpri (s : Sys T) (pri : UInt8) : Sys T := { s with tdq := { s.tdq with tdq_lowpri := pri } }

/-- The result `none` is the processor's idle thread. -/
def sched_choose (s : Sys T) (rnd : ℕ) : Except Fault (Option T × Sys T) := do
  match ← tdq_choose s rnd with
  | some td =>
    let s ← tdq_runq_rem s td
    return (some td, setLowpri s (s.thread td).td_priority)
  | none => return (none, setLowpri s (.ofNat PRI_MAX_IDLE))

/-- The part of `sched_clock` that advances the indices. -/
def clockAdvance (tdq : Tdq T) : Except Fault (Tdq T) :=
  if tdq.tdq_idx = tdq.tdq_ridx then do
    let tdq : Tdq T := { tdq with tdq_idx := .ofNat ((tdq.tdq_idx.toNat + 1) % RQ_NQS) }
    let i ← slot tdq.tdq_ridx
    if (tdq.tdq_runq .tdq_timeshare).rq_queues i = [] then
      return { tdq with tdq_ridx := tdq.tdq_idx }
    else return tdq
  else .ok tdq

end Messaround.Sched
