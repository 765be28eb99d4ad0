import Mathlib.Data.Fintype.Basic
import Messaround.Sched.Lowpri
import Messaround.Sched.Steal

/-!
The queues of all processors: the routines of kern/sched_ule.c that move threads between them.

What a routine does while it holds the locks of the queues is one definition. `sched_switch` and
`sched_switch_migrate` let go of them in between, and are cut there; a `Phase` tells where a
processor is. The answers of `sched_pickcpu` and `random()`, and what `sched_switch` reads off the
flags of the current thread, are arguments. The notes that `tdq_notify` and `sched_setpreempt`
leave for the processors' own switches, and the counts of switches, are left out.
-/

namespace Messaround.Sched

open Function (update)

abbrev SRQ_BORING : BitVec 32 := 0
abbrev SRQ_YIELDING : BitVec 32 := 1
abbrev SRQ_OURSELF : BitVec 32 := 2

/-- The queues of `n` processors, the threads, and the scheduler's part of what each of both has. -/
structure Smp (T : Type) (n : ℕ) where
  TDQ_CPU : Fin n → Tdq T
  /-- Counted by an `int` each, as the threads themselves are. -/
  tdq_load : Fin n → ℤ
  tdq_sysload : Fin n → ℤ
  thread : T → Thread
  ts_cpu : T → Fin n
  td_cpuset : T → ℕ → Bool
  /-- The threads flagged `TDF_NOLOAD`. -/
  td_noload : T → Bool
  pc_curthread : Fin n → T
  pc_idlethread : Fin n → T

/-- Where a processor is in `sched_switch`. -/
inductive Phase (n : ℕ)
  /-- Its current thread runs. -/
  | run
  /-- In `sched_switch_migrate`, for the queue of `tdn`: no lock is held. -/
  | migrate (tdn : Fin n) (flags : BitVec 32)
  /-- In `tdq_trysteal`. -/
  | trysteal
  /-- About to choose a thread. -/
  | choose
  deriving DecidableEq

variable {T : Type} {n : ℕ}

namespace Smp

variable (m : Smp T n) (c : Fin n)

/-- What a routine sees that is handed the queue of a processor. -/
def sys : Sys T := ⟨m.TDQ_CPU c, m.thread⟩

def setSys (s : Sys T) : Smp T n :=
  { m with TDQ_CPU := update m.TDQ_CPU c s.tdq, thread := s.thread }

def TD_IS_IDLETHREAD (td : T) : Prop := ∃ c, m.pc_idlethread c = td

instance [DecidableEq T] (td : T) : Decidable (m.TD_IS_IDLETHREAD td) :=
  inferInstanceAs (Decidable (∃ c, m.pc_idlethread c = td))

/-- The state with other queues and threads. -/
def withQueues (tdqs : Fin n → Tdq T) (thread : T → Thread) : Smp T n :=
  { m with TDQ_CPU := tdqs, thread := thread }

section td

variable [DecidableEq T] (td : T)

def setState (st : TdState) : Smp T n :=
  { m with thread := update m.thread td { m.thread td with td_state := st } }

def setCpu : Smp T n := { m with ts_cpu := update m.ts_cpu td c }

end td

def cpu_switch (td : T) : Smp T n := { m with pc_curthread := update m.pc_curthread c td }

@[simp] lemma idlethread_cpu_switch {td t : T} :
    (m.cpu_switch c td).TD_IS_IDLETHREAD t ↔ m.TD_IS_IDLETHREAD t := Iff.rfl

@[simp] lemma curthread_cpu_switch {td : T} :
    (m.cpu_switch c td).pc_curthread = update m.pc_curthread c td := rfl

@[simp] lemma cpu_cpu_switch {td : T} : (m.cpu_switch c td).ts_cpu = m.ts_cpu := rfl

/-! ### Loads -/

def tdq_load_add (td : T) : Smp T n :=
  { m with
    tdq_load := update m.tdq_load c (m.tdq_load c + 1)
    tdq_sysload := if m.td_noload td then m.tdq_sysload
      else update m.tdq_sysload c (m.tdq_sysload c + 1) }

def tdq_load_rem (td : T) : Smp T n :=
  { m with
    tdq_load := update m.tdq_load c (m.tdq_load c - 1)
    tdq_sysload := if m.td_noload td then m.tdq_sysload
      else update m.tdq_sysload c (m.tdq_sysload c - 1) }

end Smp

/-! ### Adding and removing -/

variable [DecidableEq T]

def tdq_add (m : Smp T n) (c : Fin n) (td : T) (flags : BitVec 32) : Except Fault (Smp T n) := do
  let pri := (m.thread td).td_priority
  let m := if pri < (m.TDQ_CPU c).tdq_lowpri then m.setSys c (setLowpri (m.sys c) pri) else m
  let s ← tdq_runq_add (m.sys c) td flags
  return (m.setSys c s).tdq_load_add c td

/-- The part of `sched_add` behind `sched_pickcpu`, which has answered with `cpu`. -/
def sched_add (m : Smp T n) (td : T) (cpu : Fin n) (flags : BitVec 32) : Except Fault (Smp T n) :=
  -- `sched_setcpu`
  tdq_add (m.setCpu cpu td) cpu td flags

def sched_rem (m : Smp T n) (td : T) (rnd : ℕ) : Except Fault (Smp T n) := do
  let c := m.ts_cpu td
  let s ← tdq_runq_rem (m.sys c) td
  let m := ((m.setSys c s).tdq_load_rem c td).setState td .TDS_CAN_RUN
  if (m.thread td).td_priority = (m.TDQ_CPU c).tdq_lowpri then
    let s ← tdq_setlowpri (m.sys c) (m.pc_curthread c) none rnd
    return m.setSys c s
  else return m

/-! ### Between two queues -/

def tdq_move (m : Smp T n) (src cpu : Fin n) (rnd : ℕ) : Except Fault (Option T × Smp T n) :=
  match tdq_steal (m.sys src) m.td_cpuset cpu with
  | none => .ok (none, m)
  | some td => do
    let m ← sched_rem m td rnd
    let m ← tdq_add (m.setCpu cpu td) cpu td SRQ_YIELDING
    return (some td, m)

/-- Whether a thread was moved, and the state then. -/
def sched_balance_pair (m : Smp T n) (high low : Fin n) (rnd : ℕ) : Except Fault (Bool × Smp T n) :=
  if (m.TDQ_CPU high).tdq_transferable ≠ 0 ∧ m.tdq_load high > m.tdq_load low then do
    let (td, m) ← tdq_move m high low rnd
    return (td.isSome, m)
  else .ok (false, m)

section steal

variable (m : Smp T n) (c steal : Fin n) (steal_thresh : ℤ) (rnd : ℕ)

/-- The move to a processor without work, unless the queue chosen has changed in the meantime. -/
def stealFrom : Except Fault (Smp T n) :=
  if m.tdq_load steal < steal_thresh ∨ (m.TDQ_CPU steal).tdq_transferable = 0 then .ok m
  else do
    let (_, m) ← tdq_move m steal c rnd
    return m

/-- `tdq_trysteal` with the locks of both queues. -/
def tdq_trysteal : Except Fault (Smp T n) :=
  if m.tdq_load c > 0 then .ok m else stealFrom m c steal steal_thresh rnd

/-- `tdq_idled` with the locks of both queues; `switched` tells of a switch in the meantime. -/
def tdq_idled (switched : Bool) : Except Fault (Smp T n) :=
  if m.tdq_load c ≠ 0 ∨ switched then .ok m else stealFrom m c steal steal_thresh rnd

end steal

/-! ### Switching -/

/-- `sched_switch` up to `choosethread`, or to the place where it lets go of the queue. -/
def sched_switch (m : Smp T n) (c : Fin n) (preempted : Bool) (pick : Fin n) :
    Except Fault (Smp T n × Phase n) :=
  let td := m.pc_curthread c
  if m.TD_IS_IDLETHREAD td then .ok (m.setState td .TDS_CAN_RUN, .choose)
  else if (m.thread td).td_state = .TDS_RUNNING then
    let srqflag := if preempted then SRQ_OURSELF ||| SRQ_YIELDING ||| SRQ_PREEMPTED
      else SRQ_OURSELF ||| SRQ_YIELDING
    let m := if THREAD_CAN_MIGRATE (m.thread td) ∧
        ¬THREAD_CAN_SCHED m.td_cpuset td (m.ts_cpu td) then m.setCpu pick td else m
    if m.ts_cpu td = c then do
      let s ← tdq_runq_add (m.sys c) td srqflag
      return (m.setSys c s, .choose)
    else .ok (m.tdq_load_rem c td, .migrate (m.ts_cpu td) srqflag)
  else
    -- this thread is going to sleep
    let m := m.tdq_load_rem c td
    .ok (m, if m.tdq_load c = 0 then .trysteal else .choose)

/-- The rest of `sched_switch_migrate`, with the locks of both queues. -/
def switchMigrated (m : Smp T n) (c tdn : Fin n) (flags : BitVec 32) : Except Fault (Smp T n) :=
  tdq_add m tdn (m.pc_curthread c) flags

/-- `sched_throw` up to `choosethread`. -/
def sched_throw (m : Smp T n) (c : Fin n) : Smp T n := m.tdq_load_rem c (m.pc_curthread c)

/-- `choosethread`, and the switch to the thread chosen. -/
def choosethread (m : Smp T n) (c : Fin n) (rnd : ℕ) : Except Fault (Smp T n) := do
  let (r, s) ← sched_choose (m.sys c) rnd
  let td := r.getD (m.pc_idlethread c)
  return ((m.setSys c s).setState td .TDS_RUNNING).cpu_switch c td

/-- The queues that `sched_setup` leaves, with `thread0` running on the first processor. -/
def sched_setup (m : Smp T n) (c : Fin n) : Smp T n :=
  let m := { m with
    TDQ_CPU := fun _ => tdq_setup zeroTdq
    tdq_load := fun _ => 0
    tdq_sysload := fun _ => 0 }
  let m := m.tdq_load_add c (m.pc_curthread c)
  m.setSys c (setLowpri (m.sys c) (m.thread (m.pc_curthread c)).td_priority)

end Messaround.Sched
