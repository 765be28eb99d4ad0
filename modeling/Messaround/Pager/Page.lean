import Mathlib.Algebra.Ring.Nat
import Mathlib.Data.Int.Notation
import Mathlib.Logic.Function.Basic
import Mathlib.Tactic.Common
import Messaround.Lib.Tailq

/-!
Pages, page queues and the routines of vm/vm_page.c that move pages between queues.

Calls come one at a time, so the locks are left out; so are the system-wide counters the
routines keep for statistics. A `KASSERT` is compiled in under INVARIANTS only and left out
here; an index behind the last queue is a fault.
-/

namespace Messaround.Pager

abbrev PQ_NONE : UInt8 := 255
abbrev PQ_INACTIVE : UInt8 := 0
abbrev PQ_ACTIVE : UInt8 := 1
abbrev PQ_LAUNDRY : UInt8 := 2
abbrev PQ_FIFO : UInt8 := 3
abbrev PQ_COUNT : ℕ := 4

instance : NeZero PQ_COUNT := ⟨by decide⟩

abbrev PG_FICTITIOUS : BitVec 16 := 4
abbrev VPO_UNMANAGED : BitVec 8 := 4
abbrev PGA_REFERENCED : BitVec 8 := 2
abbrev VM_PAGE_BITS_ALL : BitVec 8 := 255
abbrev ACT_INIT : UInt8 := 5

abbrev MADV_WILLNEED : ℤ := 3
abbrev MADV_DONTNEED : ℤ := 4
abbrev MADV_FREE : ℤ := 5

/-- `unsigned long` counts modulo this number. -/
abbrev ULONG_SIZE : ℕ := 18446744073709551616

/-- What stops the kernel. -/
inductive Fault
  /-- A queue behind the last one. -/
  | outOfRange
  /-- `TAILQ_REMOVE` of a page from a queue it is not on. -/
  | notQueued
  /-- `panic` in `vm_page_unwire`. -/
  | notWired
  deriving DecidableEq

structure Page where
  /-- The object the page belongs to, by number. -/
  object : Option ℕ
  /-- The memory domain of the page's segment, by its index in `vm_dom`. -/
  domain : ℕ
  wire_count : UInt32
  flags : BitVec 16
  aflags : BitVec 8
  oflags : BitVec 8
  queue : UInt8
  id : ℕ
  act_count : UInt8
  dirty : BitVec 8

structure Pagequeue (P : Type) where
  pq_pl : List P
  pq_cnt : ℤ

/-- The queues of all domains, the pages, and the counter of the ids. -/
structure Vm (P : Type) where
  vmd_pagequeues : ℕ × Fin PQ_COUNT → Pagequeue P
  page : P → Page
  pg_cnt : ℕ

variable {P : Type}

/-- A domain's queues as `vm_page_domain_init` leaves them. -/
def vm_page_domain_init : ℕ × Fin PQ_COUNT → Pagequeue P := fun _ => ⟨[], 0⟩

/-- A queue of a domain's array. -/
def pqIndex (queue : UInt8) : Except Fault (Fin PQ_COUNT) :=
  if h : queue.toNat < PQ_COUNT then .ok ⟨queue.toNat, h⟩ else .error .outOfRange

/-- Not wired, and under the control of the page daemon. -/
def Pageable (p : Page) : Prop := p.wire_count = 0 ∧ p.oflags &&& VPO_UNMANAGED = 0

instance (p : Page) : Decidable (Pageable p) := inferInstanceAs (Decidable (_ ∧ _))

variable [DecidableEq P]

namespace Vm

variable (v : Vm P) (m : P) (p : Page) (pq : ℕ × Fin PQ_COUNT)

def setPage : Vm P := { v with page := Function.update v.page m p }

def setPagequeue (q : Pagequeue P) : Vm P :=
  { v with vmd_pagequeues := Function.update v.vmd_pagequeues pq q }

/-- `m->id = pg_cnt++`. -/
def drawId : Vm P :=
  { v.setPage m { v.page m with id := v.pg_cnt } with pg_cnt := (v.pg_cnt + 1) % ULONG_SIZE }

/-- `TAILQ_INSERT_TAIL` and the count. -/
def insertTail : Vm P :=
  v.setPagequeue pq
    ⟨(v.vmd_pagequeues pq).pq_pl ++ [m], (v.vmd_pagequeues pq).pq_cnt + 1⟩

/-- `TAILQ_REMOVE` and the count. -/
def remove : Except Fault (Vm P) := do
  let l ← TAILQ_REMOVE .notQueued (v.vmd_pagequeues pq).pq_pl m
  return v.setPagequeue pq ⟨l, (v.vmd_pagequeues pq).pq_cnt - 1⟩

@[simp] lemma page_setPage : (v.setPage m p).page = Function.update v.page m p := rfl
@[simp] lemma pagequeues_setPage : (v.setPage m p).vmd_pagequeues = v.vmd_pagequeues := rfl
@[simp] lemma page_drawId :
    (v.drawId m).page = Function.update v.page m { v.page m with id := v.pg_cnt } := rfl

end Vm

omit [DecidableEq P] in
@[simp] lemma Vm.page_insertTail (v : Vm P) (m : P) (pq : ℕ × Fin PQ_COUNT) :
    (v.insertTail m pq).page = v.page := rfl

section routines

variable (v : Vm P) (m : P)

def vm_phys_domain : ℕ := (v.page m).domain

/-- The first domain holds the laundry of all. -/
def vm_page_pagequeue : Except Fault (ℕ × Fin PQ_COUNT) := do
  let i ← pqIndex (v.page m).queue
  if (v.page m).queue = PQ_LAUNDRY then return (0, i) else return (vm_phys_domain v m, i)

/-- The two routines of this name differ in who takes the lock of the queue. -/
def vm_page_dequeue_locked : Except Fault (Vm P) := do
  let pq ← vm_page_pagequeue v m
  let v := v.setPage m { v.page m with queue := PQ_NONE }
  v.remove m pq

def vm_page_dequeue : Except Fault (Vm P) := vm_page_dequeue_locked v m

def vm_page_remque : Except Fault (Vm P) :=
  if (v.page m).queue ≠ PQ_NONE then vm_page_dequeue v m else .ok v

def vm_page_enqueue (queue : UInt8) : Except Fault (Vm P) := do
  let queue := if queue = PQ_ACTIVE then PQ_INACTIVE else queue
  let i ← pqIndex queue
  let pq := if queue = PQ_LAUNDRY then (0, i) else (vm_phys_domain v m, i)
  let v := if queue = PQ_INACTIVE then v.drawId m else v
  let v := v.setPage m { v.page m with queue := queue }
  return v.insertTail m pq

def vm_page_requeue : Except Fault (Vm P) := do
  let pq ← vm_page_pagequeue v m
  let q := v.vmd_pagequeues pq
  let l ← TAILQ_REMOVE .notQueued q.pq_pl m
  return v.setPagequeue pq { q with pq_pl := l ++ [m] }

/-- `act_count` is raised to its initial value. -/
def raiseActCount : Vm P :=
  if (v.page m).act_count < ACT_INIT then v.setPage m { v.page m with act_count := ACT_INIT }
  else v

def vm_page_activate : Except Fault (Vm P) :=
  let queue := (v.page m).queue
  if queue ≠ PQ_ACTIVE then
    if Pageable (v.page m) then do
      let v := raiseActCount v m
      let v ← if queue ≠ PQ_NONE then vm_page_dequeue v m else .ok v
      vm_page_enqueue v m PQ_INACTIVE
    else .ok v
  else .ok (raiseActCount v m)

def vm_page_wire : Except Fault (Vm P) :=
  if (v.page m).flags &&& PG_FICTITIOUS ≠ 0 then .ok v
  else do
    let v ← if (v.page m).wire_count = 0 then vm_page_remque v m else .ok v
    return v.setPage m { v.page m with wire_count := (v.page m).wire_count + 1 }

/-- The answer tells whether the page has lost its last wiring. -/
def vm_page_unwire (queue : UInt8) : Except Fault (Bool × Vm P) :=
  if (v.page m).flags &&& PG_FICTITIOUS ≠ 0 then .ok (false, v)
  else if (v.page m).wire_count > 0 then
    let v := v.setPage m { v.page m with wire_count := (v.page m).wire_count - 1 }
    if (v.page m).wire_count = 0 then
      if (v.page m).oflags &&& VPO_UNMANAGED = 0 ∧ (v.page m).object ≠ none ∧ queue ≠ PQ_NONE then
        do return (true, ← vm_page_enqueue v m queue)
      else .ok (true, v)
    else .ok (false, v)
  else .error .notWired

/-- The body of `_vm_page_deactivate` under the lock of the inactive queue. -/
def insertInactive : Except Fault (Vm P) := do
  let i ← pqIndex PQ_INACTIVE
  let v := v.setPage m { v.page m with queue := PQ_INACTIVE }
  let v := v.drawId m
  return v.insertTail m (vm_phys_domain v m, i)

def _vm_page_deactivate (noreuse : Bool) : Except Fault (Vm P) :=
  let queue := (v.page m).queue
  if queue = PQ_INACTIVE ∧ !noreuse then .ok v
  else if Pageable (v.page m) then do
    let v ←
      if queue = PQ_INACTIVE then vm_page_dequeue_locked v m
      else if queue ≠ PQ_NONE then vm_page_dequeue v m else .ok v
    insertInactive v m
  else .ok v

def vm_page_deactivate : Except Fault (Vm P) :=
  _vm_page_deactivate v m false

def vm_page_deactivate_noreuse : Except Fault (Vm P) :=
  _vm_page_deactivate v m true

def vm_page_launder : Except Fault (Vm P) :=
  let queue := (v.page m).queue
  if queue ≠ PQ_LAUNDRY then
    if Pageable (v.page m) then do
      let v ← if queue ≠ PQ_NONE then vm_page_dequeue v m else .ok v
      vm_page_enqueue v m PQ_LAUNDRY
    else .ok v
  else .ok v

def vm_page_undirty : Vm P := v.setPage m { v.page m with dirty := 0 }
def vm_page_dirty : Vm P := v.setPage m { v.page m with dirty := VM_PAGE_BITS_ALL }

/-- The part of `vm_page_advise` that settles whether the page is dirty; `modified` is the
answer of `pmap_is_modified`. -/
def settleDirty (advice : ℤ) (modified : Bool) : Vm P :=
  let v := if advice = MADV_FREE then vm_page_undirty v m else v
  let v := v.setPage m { v.page m with aflags := (v.page m).aflags &&& ~~~PGA_REFERENCED }
  if advice ≠ MADV_FREE ∧ (v.page m).dirty = 0 ∧ modified then vm_page_dirty v m else v

def vm_page_advise (advice : ℤ) (modified : Bool) : Except Fault (Vm P) :=
  if advice ≠ MADV_FREE ∧ advice ≠ MADV_DONTNEED then
    if advice = MADV_WILLNEED then vm_page_activate v m else .ok v
  else
    let v := settleDirty v m advice modified
    if (v.page m).dirty = 0 then vm_page_deactivate_noreuse v m else vm_page_launder v m

end routines

end Messaround.Pager
