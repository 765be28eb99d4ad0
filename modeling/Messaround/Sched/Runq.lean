import Mathlib.Data.List.FinRange
import Mathlib.Logic.Function.Basic
import Mathlib.Tactic.Common
import Messaround.Lib.CInt
import Messaround.Lib.Tailq

/-!
Threads, run queues and the routines of kern/kern_switch.c.

The words of a run queue's status are told apart by slot only. A `KASSERT` is compiled in
under INVARIANTS only and left out here; what it guards, an index into the slots, is checked
where the slots are used.
-/

namespace Messaround.Sched

open Messaround.CInt

abbrev RQ_NQS : ℕ := 64
abbrev RQ_PPQ : ℕ := 4

instance : NeZero RQ_NQS := ⟨by decide⟩

/-- The flags of `ts_flags` and of an addition to a run queue. -/
abbrev TSF_XFERABLE : BitVec 16 := 2
abbrev SRQ_PREEMPTED : BitVec 32 := 8
abbrev SRQ_BORROWING : BitVec 32 := 16

/-- `random()` answers with a number up to this one. -/
abbrev RANDOM_MAX : ℕ := 2147483647

/-- What stops the kernel. -/
inductive Fault
  | divideByZero
  /-- The queue of a thread that is on none: `ts_runq` is `NULL`. -/
  | nullDereference
  /-- The thread of a ticket that no thread of the lottery holds: `td` is `NULL`. -/
  | noTicketHolder
  /-- A slot behind the last one. -/
  | outOfRange
  /-- `TAILQ_REMOVE` of a thread from a queue it is not on. -/
  | notQueued
  deriving DecidableEq

/-- The run queues of a `struct tdq`, by the names of its fields. -/
inductive RunqName
  | tdq_realtime
  | tdq_timeshare
  | tdq_lottery
  | tdq_idle
  deriving DecidableEq

inductive TdState
  | TDS_INACTIVE
  | TDS_INHIBITED
  | TDS_CAN_RUN
  | TDS_RUNQ
  | TDS_RUNNING
  deriving DecidableEq

/-- A thread with its scheduler data, its credentials and the nice value of its process. -/
structure Thread where
  td_priority : UInt8
  td_rqindex : UInt8
  td_pinned : ℤ
  td_state : TdState
  cr_uid : ℕ
  p_nice : ℤ
  ts_runq : Option RunqName
  ts_flags : BitVec 16

/-- A run queue: a queue of threads in each slot, and the bits of the slots. -/
structure Runq (T : Type) where
  rq_status : Fin RQ_NQS → Bool
  rq_queues : Fin RQ_NQS → List T

variable {T : Type}

namespace Runq

variable (rq : Runq T) (i : Fin RQ_NQS) (l : List T)

def runq_setbit : Runq T := { rq with rq_status := Function.update rq.rq_status i true }
def runq_clrbit : Runq T := { rq with rq_status := Function.update rq.rq_status i false }

def setQueue : Runq T := { rq with rq_queues := Function.update rq.rq_queues i l }

@[simp] lemma runq_setbit_queues : (rq.runq_setbit i).rq_queues = rq.rq_queues := rfl
@[simp] lemma runq_clrbit_queues : (rq.runq_clrbit i).rq_queues = rq.rq_queues := rfl
@[simp] lemma setQueue_status : (rq.setQueue i l).rq_status = rq.rq_status := rfl
@[simp] lemma setQueue_queues :
    (rq.setQueue i l).rq_queues = Function.update rq.rq_queues i l := rfl

end Runq

def runq_init : Runq T := ⟨fun _ => false, fun _ => []⟩

section slots

variable {p q : Fin RQ_NQS → Bool} {i : Fin RQ_NQS}

lemma find_slot_eq_some :
    (List.finRange RQ_NQS).find? p = some i ↔ p i = true ∧ ∀ j < i, p j = false := by
  rw [← Fin.find?_eq_find?_finRange, Fin.find?_eq_some_iff]

lemma find_slot_eq_none : (List.finRange RQ_NQS).find? p = none ↔ ∀ i, p i = false := by simp

lemma find_slot_congr (h : ∀ i, p i = q i) :
    (List.finRange RQ_NQS).find? p = (List.finRange RQ_NQS).find? q := by
  rw [funext h]

end slots

/-- The first slot whose bit is set. -/
def runq_findbit (rq : Runq T) : Option (Fin RQ_NQS) :=
  (List.finRange RQ_NQS).find? fun i => rq.rq_status i

/-- The first such slot from `pri` on, or else from the first one on. -/
def runq_findbit_from (rq : Runq T) (pri : UInt8) : Option (Fin RQ_NQS) :=
  if pri.toNat < RQ_NQS then
    match (List.finRange RQ_NQS).find? fun i => decide (pri.toNat ≤ i.val) && rq.rq_status i with
    | some i => some i
    | none => if pri = 0 then none else runq_findbit rq
  else
    -- behind the last word the loop is not entered, and the second one starts with its mask
    (List.finRange RQ_NQS).find? fun i => decide (pri.toNat % RQ_NQS ≤ i.val) && rq.rq_status i

/-- A slot of the queues' array. -/
def slot (pri : UInt8) : Except Fault (Fin RQ_NQS) :=
  if h : pri.toNat < RQ_NQS then .ok ⟨pri.toNat, h⟩ else .error .outOfRange

lemma slot_eq {pri : UInt8} (h : pri.toNat < RQ_NQS) : slot pri = .ok ⟨pri.toNat, h⟩ := dif_pos h

/-- The threads of the system and the queues of one processor. -/
structure Tdq (T : Type) where
  tdq_runq : RunqName → Runq T
  /-- Counted by an `int`, as the threads themselves are. -/
  tdq_transferable : ℤ
  tdq_lowpri : UInt8
  tdq_idx : UInt8
  tdq_ridx : UInt8

structure Sys (T : Type) where
  tdq : Tdq T
  thread : T → Thread

namespace Sys

variable (s : Sys T) (n : RunqName) (rq : Runq T) (k : ℤ)

def setRunq : Sys T :=
  { s with tdq := { s.tdq with tdq_runq := Function.update s.tdq.tdq_runq n rq } }

def setRidx (pri : UInt8) : Sys T := { s with tdq := { s.tdq with tdq_ridx := pri } }

def addTransferable : Sys T :=
  { s with tdq := { s.tdq with tdq_transferable := s.tdq.tdq_transferable + k } }

@[simp] lemma thread_setRunq : (s.setRunq n rq).thread = s.thread := rfl
@[simp] lemma runq_setRunq :
    (s.setRunq n rq).tdq.tdq_runq = Function.update s.tdq.tdq_runq n rq := rfl
@[simp] lemma thread_addTransferable : (s.addTransferable k).thread = s.thread := rfl
@[simp] lemma runq_addTransferable : (s.addTransferable k).tdq.tdq_runq = s.tdq.tdq_runq := rfl
@[simp] lemma addTransferable_zero : s.addTransferable 0 = s := by simp [addTransferable]

variable [DecidableEq T] (td : T) (th : Thread)

def setThread : Sys T := { s with thread := Function.update s.thread td th }

@[simp] lemma thread_setThread : (s.setThread td th).thread = Function.update s.thread td th := rfl
@[simp] lemma tdq_setThread : (s.setThread td th).tdq = s.tdq := rfl
@[simp] lemma setThread_addTransferable :
    (s.addTransferable k).setThread td th = (s.setThread td th).addTransferable k := rfl
@[simp] lemma setThread_setRunq :
    (s.setRunq n rq).setThread td th = (s.setThread td th).setRunq n rq := rfl
@[simp] lemma setThread_setThread (th' : Thread) :
    (s.setThread td th).setThread td th' = s.setThread td th' := by
  simp [setThread]
@[simp] lemma setThread_self : s.setThread td (s.thread td) = s := by simp [setThread]

end Sys

variable [DecidableEq T]

/-! ### Adding a thread -/

def lottery_q_add (s : Sys T) (n : RunqName) (td : T) : Sys T :=
  let queue_idx : Fin RQ_NQS := 0
  let rq := (s.tdq.tdq_runq n).runq_setbit queue_idx
  s.setRunq n (rq.setQueue queue_idx (td :: rq.rq_queues queue_idx))

/-- What `runq_add` and `runq_add_pri` do from the choice of the slot on. -/
def runq_put (s : Sys T) (n : RunqName) (td : T) (pri : UInt8) (flags : BitVec 32) :
    Except Fault (Sys T) := do
  let s := s.setThread td { s.thread td with td_rqindex := pri }
  let i ← slot pri
  let rq := (s.tdq.tdq_runq n).runq_setbit i
  let q := rq.rq_queues i
  return s.setRunq n (rq.setQueue i (if flags &&& SRQ_PREEMPTED ≠ 0 then td :: q else q ++ [td]))

def runq_add (s : Sys T) (n : RunqName) (td : T) (flags : BitVec 32) : Except Fault (Sys T) :=
  runq_put s n td (.ofNat ((s.thread td).td_priority.toNat / RQ_PPQ)) flags

def runq_add_pri (s : Sys T) (n : RunqName) (td : T) (pri : UInt8) (flags : BitVec 32) :
    Except Fault (Sys T) :=
  runq_put s n td pri flags

/-! ### Choosing a thread -/

/-- The sum of the tickets, in an `int`. -/
def ticketTotal (nice : T → ℤ) (l : List T) : ℤ :=
  l.foldl (fun tck_tot td => toInt (tck_tot + (nice td + 1))) 0

/-- The walk that takes every thread's tickets off `r`; `none` is its end behind the list. -/
def ticketHolder (nice : T → ℤ) : List T → ℤ → Option T
  | [], _ => none
  | td :: rest, r =>
    let r := toInt (r - (nice td + 1))
    if r < 0 then some td else ticketHolder nice rest r

/-- `rnd` is the answer of `random()`. -/
def lottery_q_choose (s : Sys T) (n : RunqName) (print : Bool) (rnd : ℕ) :
    Except Fault (Option T) :=
  let rqh := (s.tdq.tdq_runq n).rq_queues 0
  let nice := fun td => (s.thread td).p_nice
  if rqh = [] then .ok none
  else
    let tck_tot := ticketTotal nice rqh
    if toULong tck_tot = 0 then .error .divideByZero
    else
      let r := toInt (rnd % toULong tck_tot)
      match ticketHolder nice rqh r with
      | some td => .ok (some td)
      | none => if print then .error .noTicketHolder else .ok none

def runq_choose (rq : Runq T) : Option T := do
  let pri ← runq_findbit rq
  (rq.rq_queues pri).head?

def runq_choose_from (rq : Runq T) (idx : UInt8) : Option T := do
  let pri ← runq_findbit_from rq idx
  (rq.rq_queues pri).head?

/-! ### Removing a thread -/

def lottery_q_remove (s : Sys T) (n : RunqName) (td : T) : Except Fault (Sys T) := do
  let queue_idx : Fin RQ_NQS := 0
  let rq := s.tdq.tdq_runq n
  let q ← TAILQ_REMOVE .notQueued (rq.rq_queues queue_idx) td
  let rq := rq.setQueue queue_idx q
  return s.setRunq n (if q = [] then rq.runq_clrbit queue_idx else rq)

/-- `idx` tells whether the caller passes `tdq_ridx` along. -/
def runq_remove_idx (s : Sys T) (n : RunqName) (td : T) (idx : Bool) : Except Fault (Sys T) := do
  let pri := (s.thread td).td_rqindex
  let i ← slot pri
  let rq := s.tdq.tdq_runq n
  let q ← TAILQ_REMOVE .notQueued (rq.rq_queues i) td
  let rq := rq.setQueue i q
  if q = [] then
    let s := s.setRunq n (rq.runq_clrbit i)
    if idx ∧ s.tdq.tdq_ridx = pri then
      return s.setRidx (.ofNat ((pri.toNat + 1) % RQ_NQS))
    else return s
  else return s.setRunq n rq

def runq_remove (s : Sys T) (n : RunqName) (td : T) : Except Fault (Sys T) :=
  runq_remove_idx s n td false

end Messaround.Sched
