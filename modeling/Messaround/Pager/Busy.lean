import Mathlib.Algebra.BigOperators.Fin
import Mathlib.Algebra.BigOperators.Group.Finset.Piecewise
import Messaround.Lib.Flags
import Messaround.Lib.Threads
import Messaround.Pager.Scan

/-!
The busy lock of a page: its word, the lock of the page and the threads that sleep on it.

Every access to the word and every call of the locks and the sleep queues is a step of its own,
so that the steps of several threads come in any order. A `KASSERT` is kept and read together
with the step behind it; a memory order is sequential consistency.
-/

namespace Messaround.Pager

open Messaround.Threads
open Function (update)

abbrev VPB_BIT_WAITERS : UInt32 := 4
abbrev VPB_BIT_FLAGMASK : UInt32 := 7
abbrev VPB_ONE_SHARER : UInt32 := 8

def VPB_SHARERS (x : UInt32) : UInt32 := (x &&& ~~~VPB_BIT_FLAGMASK) >>> 3
def VPB_SHARERS_WORD (x : UInt32) : UInt32 := x <<< 3 ||| VPB_BIT_SHARED

/-- What the threads share. `sharers` and `owners` are no memory of the kernel: they record whose
calls have busied the page and not released it yet. -/
structure BusyPage (T : Type) where
  busy_lock : UInt32
  /-- The thread that holds the lock of the page. -/
  page_lock : Option T
  /-- The threads that sleep on the page. -/
  sleepq : Finset T
  sharers : T → ℕ
  owners : Finset T

/-- Where a thread stands in one of the functions. -/
inductive BusyPc
  | idle
  | tryxbusy
  | trysbusy
  | trysbusyCas (x : UInt32)
  | sunbusy
  | sunbusyLoop
  | sunbusyDrop (x : UInt32)
  | sunbusyLast
  | sunbusyLock (x : UInt32)
  | sunbusyWaiters (x : UInt32)
  | sunbusyAgain
  | xunbusy
  | xunbusyHard
  | xunbusyMaybelocked
  | xunbusyMaybelockedCas
  | xunbusyLock
  | xunbusyLocked (lockacq : Bool)
  | downgrade
  | downgradeLoop (locked : Bool)
  | downgradeLock (x : UInt32)
  | downgradeCas (x : UInt32) (locked : Bool)
  | downgradeAgain
  | busySleep (nonshared : Bool)
  | busySleepCas (x : UInt32)
  | msleep
  | asleep
  | flash
  | flashCas (x : UInt32)
  | wakeup (lockacq : Bool)
  | unlock
  | lock
  /-- An assertion has failed. -/
  | panic
  deriving DecidableEq

/-- What a thread outside of the functions may begin. Who has busied a page may leave it to
another thread to release it. -/
inductive BusyCall (T : Type)
  | tryxbusy
  | trysbusy
  | sunbusy
  | xunbusy
  | xunbusyMaybelocked
  | downgrade
  | busySleep (nonshared : Bool)
  | flash
  | lock
  | unlock
  | giveShare (u : T)
  | giveBusy (u : T)

/-- A thread goes on where it stands, or begins a call. -/
inductive BusyMove (T : Type)
  | run
  | begin (c : BusyCall T)

variable {T : Type} [DecidableEq T]

namespace BusyPage

variable (s : BusyPage T) (t : T)

def share : BusyPage T := { s with sharers := update s.sharers t (s.sharers t + 1) }
def unshare : BusyPage T := { s with sharers := update s.sharers t (s.sharers t - 1) }
def own : BusyPage T := { s with owners := insert t s.owners }
def disown : BusyPage T := { s with owners := s.owners.erase t }
def setWord (x : UInt32) : BusyPage T := { s with busy_lock := x }
def setLock (o : Option T) : BusyPage T := { s with page_lock := o }

end BusyPage

/-- `vm_page_lock(m)` and on. -/
def takeLock (s : BusyPage T) (t : T) (pc : BusyPc) : Option (BusyPage T × BusyPc) :=
  if s.page_lock = none then some (s.setLock (some t), pc) else none

/-- The next step of a thread, unless it has to wait. -/
def BusyPc.run (t : T) (s : BusyPage T) : BusyPc → Option (BusyPage T × BusyPc)
  | idle => none
  | panic => none
  | tryxbusy =>
    if s.busy_lock = VPB_UNBUSIED then some ((s.setWord VPB_SINGLE_EXCLUSIVER).own t, idle)
    else some (s, idle)
  -- vm_page_trysbusy
  | trysbusy =>
    let x := s.busy_lock
    if x &&& VPB_BIT_SHARED = 0 then some (s, idle)
    else some (s, trysbusyCas x)
  | trysbusyCas x =>
    if s.busy_lock = x then some ((s.setWord (x + VPB_ONE_SHARER)).share t, idle)
    else some (s, trysbusy)
  -- vm_page_sunbusy
  | sunbusy =>
    if s.page_lock = some t ∨
        ¬(s.busy_lock &&& VPB_BIT_SHARED ≠ 0 ∧ s.busy_lock ≠ VPB_UNBUSIED) then some (s, panic)
    else some (s, sunbusyLoop)
  | sunbusyLoop =>
    let x := s.busy_lock
    if VPB_SHARERS x > 1 then some (s, sunbusyDrop x)
    else if x &&& VPB_BIT_WAITERS = 0 then
      if x = VPB_SHARERS_WORD 1 then some (s, sunbusyLast) else some (s, panic)
    else if x = VPB_SHARERS_WORD 1 ||| VPB_BIT_WAITERS then some (s, sunbusyLock x)
    else some (s, panic)
  | sunbusyDrop x =>
    if s.busy_lock = x then some ((s.setWord (x - VPB_ONE_SHARER)).unshare t, idle)
    else some (s, sunbusyLoop)
  | sunbusyLast =>
    if s.busy_lock = VPB_SHARERS_WORD 1 then some ((s.setWord VPB_UNBUSIED).unshare t, idle)
    else some (s, sunbusyLoop)
  | sunbusyLock x => takeLock s t (sunbusyWaiters x)
  | sunbusyWaiters x =>
    if s.busy_lock = x then some ((s.setWord VPB_UNBUSIED).unshare t, wakeup true)
    else some (s, sunbusyAgain)
  | sunbusyAgain => some (s.setLock none, sunbusyLoop)
  -- vm_page_xunbusy
  | xunbusy =>
    if s.busy_lock = VPB_SINGLE_EXCLUSIVER then some ((s.setWord VPB_UNBUSIED).disown t, idle)
    else some (s, xunbusyHard)
  | xunbusyHard =>
    if s.busy_lock &&& VPB_SINGLE_EXCLUSIVER = 0 then some (s, panic) else some (s, xunbusyLock)
  | xunbusyMaybelocked =>
    if s.busy_lock &&& VPB_SINGLE_EXCLUSIVER = 0 then some (s, panic)
    else some (s, xunbusyMaybelockedCas)
  | xunbusyMaybelockedCas =>
    if s.busy_lock = VPB_SINGLE_EXCLUSIVER then some ((s.setWord VPB_UNBUSIED).disown t, idle)
    else if s.page_lock = some t then some (s, xunbusyLocked false)
    else some (s, xunbusyLock)
  | xunbusyLock => takeLock s t (xunbusyLocked true)
  | xunbusyLocked lockacq =>
    if s.busy_lock &&& VPB_SINGLE_EXCLUSIVER = 0 ∨ s.page_lock ≠ some t then some (s, panic)
    else some ((s.setWord VPB_UNBUSIED).disown t, wakeup lockacq)
  -- vm_page_busy_downgrade
  | downgrade =>
    if s.busy_lock &&& VPB_SINGLE_EXCLUSIVER = 0 then some (s, panic)
    else some (s, downgradeLoop (s.page_lock = some t))
  | downgradeLoop locked =>
    let x := s.busy_lock &&& VPB_BIT_WAITERS
    if x ≠ 0 ∧ !locked then some (s, downgradeLock x) else some (s, downgradeCas x locked)
  | downgradeLock x => takeLock s t (downgradeCas x false)
  | downgradeCas x locked =>
    if s.busy_lock = VPB_SINGLE_EXCLUSIVER ||| x then
      let s := ((s.setWord (VPB_SHARERS_WORD 1)).disown t).share t
      if x ≠ 0 then some (s, wakeup !locked) else some (s, idle)
    else if x ≠ 0 ∧ !locked then some (s, downgradeAgain)
    else some (s, downgradeLoop locked)
  | downgradeAgain => some (s.setLock none, downgradeLoop false)
  -- vm_page_busy_sleep
  | busySleep nonshared =>
    let x := s.busy_lock
    if s.page_lock ≠ some t then some (s, panic)
    else if x = VPB_UNBUSIED ∨ (nonshared ∧ x &&& VPB_BIT_SHARED ≠ 0) then some (s, unlock)
    else if x &&& VPB_BIT_WAITERS = 0 then some (s, busySleepCas x)
    else some (s, msleep)
  | busySleepCas x =>
    if s.busy_lock = x then some (s.setWord (x ||| VPB_BIT_WAITERS), msleep)
    else some (s, unlock)
  | msleep => some ({ s.setLock none with sleepq := insert t s.sleepq }, asleep)
  | asleep => if t ∈ s.sleepq then none else some (s, idle)
  -- vm_page_flash
  | flash =>
    let x := s.busy_lock
    if s.page_lock ≠ some t then some (s, panic)
    else if x &&& VPB_BIT_WAITERS = 0 then some (s, idle)
    else some (s, flashCas x)
  | flashCas x =>
    if s.busy_lock = x then some (s.setWord (x &&& ~~~VPB_BIT_WAITERS), wakeup false)
    else some (s, flash)
  | wakeup lockacq => some ({ s with sleepq := ∅ }, if lockacq then unlock else idle)
  | unlock => some (s.setLock none, idle)
  | lock => takeLock s t idle

/-- The first step of a call, where its caller may make it. -/
def BusyCall.start (t : T) (s : BusyPage T) : BusyCall T → Option (BusyPage T × BusyPc)
  | tryxbusy => some (s, .tryxbusy)
  | trysbusy => some (s, .trysbusy)
  | sunbusy => if 0 < s.sharers t ∧ s.page_lock ≠ some t then some (s, .sunbusy) else none
  | xunbusy => if t ∈ s.owners ∧ s.page_lock ≠ some t then some (s, .xunbusy) else none
  | xunbusyMaybelocked => if t ∈ s.owners then some (s, .xunbusyMaybelocked) else none
  | downgrade => if t ∈ s.owners then some (s, .downgrade) else none
  | busySleep nonshared => if s.page_lock = some t then some (s, .busySleep nonshared) else none
  | flash => if s.page_lock = some t then some (s, .flash) else none
  | lock => if s.page_lock ≠ some t then some (s, .lock) else none
  | unlock => if s.page_lock = some t then some (s, .unlock) else none
  | giveShare u => if 0 < s.sharers t then some ((s.unshare t).share u, .idle) else none
  | giveBusy u => if t ∈ s.owners then some ((s.disown t).own u, .idle) else none

def busyExec : BusyMove T → T → BusyPage T → BusyPc → Option (BusyPage T × BusyPc)
  | .run, t, s, pc => pc.run t s
  | .begin c, t, s, .idle => c.start t s
  | .begin _, _, _, _ => none

/-! ### The word -/

section

variable (x : UInt32)

lemma shared_bit : x &&& VPB_BIT_SHARED = 0 ↔ x.toNat % 2 = 0 := by
  simpa using Flags.and_two_pow_eq_zero x (show 0 < 32 by decide)

lemma exclusive_bit : x &&& VPB_SINGLE_EXCLUSIVER = 0 ↔ x.toNat / 2 % 2 = 0 :=
  Flags.and_two_pow_eq_zero x (show 1 < 32 by decide)

lemma waiters_bit : x &&& VPB_BIT_WAITERS = 0 ↔ x.toNat / 4 % 2 = 0 :=
  Flags.and_two_pow_eq_zero x (show 2 < 32 by decide)

lemma waiters_toNat : (x &&& VPB_BIT_WAITERS).toNat = x.toNat / 4 % 2 * 4 :=
  Flags.and_two_pow_toNat x (show 2 < 32 by decide)

lemma sharers_toNat : (VPB_SHARERS x).toNat = x.toNat / 8 := by
  have hlt := x.toNat_lt
  have hmask : (~~~VPB_BIT_FLAGMASK : UInt32).toNat >>> 3 = 2 ^ 29 - 1 := by decide
  have hshift : (3 : UInt32).toNat % 32 = 3 := by decide
  rw [VPB_SHARERS, UInt32.toNat_shiftRight, UInt32.toNat_and, hshift, Nat.shiftRight_and_distrib,
    hmask, Nat.and_two_pow_sub_one_eq_mod, Nat.shiftRight_eq_div_pow]
  omega

lemma many_sharers : VPB_SHARERS x > 1 ↔ 1 < x.toNat / 8 := by
  rw [gt_iff_lt, UInt32.lt_iff_toNat_lt, sharers_toNat, UInt32.toNat_one]

lemma eq_unbusied : x = VPB_UNBUSIED ↔ x.toNat = 1 := UInt32.toNat_inj.symm
lemma eq_exclusiver : x = VPB_SINGLE_EXCLUSIVER ↔ x.toNat = 2 := UInt32.toNat_inj.symm
lemma eq_one_sharer : x = VPB_SHARERS_WORD 1 ↔ x.toNat = 9 := UInt32.toNat_inj.symm

lemma eq_one_sharer_waiters : x = VPB_SHARERS_WORD 1 ||| VPB_BIT_WAITERS ↔ x.toNat = 13 :=
  UInt32.toNat_inj.symm

variable {x}

lemma set_waiters_toNat (h : x &&& VPB_BIT_WAITERS = 0) :
    (x ||| VPB_BIT_WAITERS).toNat = x.toNat + 4 := by
  have hbit := (waiters_bit x).mp h
  have hlt := x.toNat_lt
  rw [Flags.or_eq_add h, UInt32.toNat_add, show VPB_BIT_WAITERS.toNat = 4 from rfl]
  omega

lemma clear_waiters_toNat (h : x &&& VPB_BIT_WAITERS ≠ 0) :
    (x &&& ~~~VPB_BIT_WAITERS).toNat + 4 = x.toNat := by
  have hbit := mt (waiters_bit x).mpr h
  have hle : x &&& VPB_BIT_WAITERS ≤ x := by
    rw [UInt32.le_iff_toNat_le, waiters_toNat]
    omega
  rw [Flags.and_not_eq_sub, UInt32.toNat_sub_of_le _ _ hle, waiters_toNat]
  omega

end

end Messaround.Pager
