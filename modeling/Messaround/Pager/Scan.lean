import Mathlib.Algebra.Order.Group.Int
import Messaround.Pager.Page

/-!
`vm_pageout_scan` of vm/vm_pageout.c: the line of statistics and the scan of the inactive queue.

No other thread runs, so every lock that is tried is taken; kernel caches, the wakeups and the
system-wide counters of statistics are left out.
-/

namespace Messaround.Pager

abbrev PG_ZERO : BitVec 16 := 8
abbrev PG_MARKER : BitVec 16 := 16
abbrev PG_UNHOLDFREE : BitVec 16 := 256

abbrev VPB_BIT_SHARED : UInt32 := 1
abbrev VPB_SINGLE_EXCLUSIVER : UInt32 := 2
abbrev VPB_UNBUSIED : UInt32 := 1

/-- What stops the scan. -/
inductive Stop
  | fault (f : Fault)
  /-- Reading through `NULL`. -/
  | nullPointer
  /-- Reading through a pointer that has not been set. -/
  | uninitialised
  /-- The panics of `vm_page_free_prep`. -/
  | freeingBusy
  | freeingWired
  deriving DecidableEq

/-- The fields of a page that say who uses it and how much of it is valid. -/
structure PageUse where
  hold_count : UInt16
  busy_lock : UInt32
  valid : BitVec 8

/-- What the scan reads of an object; `dead` is the flag `OBJ_DEAD`. -/
structure VmObject where
  ref_count : ℤ
  dead : Bool

/-- The markers of a domain are elements of its queues like the pages. -/
structure Domain (P : Type) where
  /-- The index in `vm_dom`. -/
  index : ℕ
  vmd_marker : P
  vmd_inacthead : P
  distinct : vmd_marker ≠ vmd_inacthead

/-- The memory that the page daemon works on. -/
structure Memory (P : Type) where
  vm : Vm P
  use : P → PageUse
  vm_object : ℕ → VmObject
  /-- The pages given to the physical allocator, in the order of the calls. -/
  free : List P

/-- What the line of statistics prints. -/
structure Newpage where
  num_page : ℕ
  head_page : ℕ
  tail_page : ℕ
  deriving DecidableEq

variable {P : Type} [DecidableEq P]

namespace Memory

variable (s : Memory P) (m : P)

/-- A step of the routines that move pages. -/
def onVm (f : Vm P → Except Fault (Vm P)) : Except Stop (Memory P) :=
  match f s.vm with
  | .ok v => .ok { s with vm := v }
  | .error e => .error (.fault e)

def setPage (p : Page) : Memory P := { s with vm := s.vm.setPage m p }

def setUse (u : PageUse) : Memory P := { s with use := Function.update s.use m u }

@[simp] lemma page_setPage (p : Page) :
    (s.setPage m p).vm.page = Function.update s.vm.page m p := rfl
@[simp] lemma use_setPage (p : Page) : (s.setPage m p).use = s.use := rfl
@[simp] lemma page_setUse (u : PageUse) : (s.setUse m u).vm = s.vm := rfl
@[simp] lemma use_setUse (u : PageUse) : (s.setUse m u).use = Function.update s.use m u := rfl

omit [DecidableEq P] in
lemma onVm_eq {s : Memory P} {f : Vm P → Except Fault (Vm P)} {v : Vm P} (h : f s.vm = .ok v) :
    s.onVm f = .ok { s with vm := v } := by
  unfold onVm
  rw [h]

@[simp] lemma setPage_setPage (p p' : Page) : (s.setPage m p).setPage m p' = s.setPage m p' := by
  simp [setPage, Vm.setPage]

@[simp] lemma setPage_self : s.setPage m (s.vm.page m) = s := by
  simp [setPage, Vm.setPage]

end Memory

section routines

variable (s : Memory P) (m : P)

def vm_page_busied : Prop := (s.use m).busy_lock ≠ VPB_UNBUSIED

def vm_page_sbusied : Prop :=
  (s.use m).busy_lock &&& VPB_BIT_SHARED ≠ 0 ∧ (s.use m).busy_lock ≠ VPB_UNBUSIED

def vm_page_xbusied : Prop := (s.use m).busy_lock &&& VPB_SINGLE_EXCLUSIVER ≠ 0

instance : Decidable (vm_page_busied s m) := inferInstanceAs (Decidable (_ ≠ _))
instance : Decidable (vm_page_sbusied s m) := inferInstanceAs (Decidable (_ ∧ _))
instance : Decidable (vm_page_xbusied s m) := inferInstanceAs (Decidable (_ ≠ _))

/-- The pages that the object's tree and list hold are left out. -/
def vm_page_remove : Memory P :=
  if (s.vm.page m).object = none then s
  else
    let s := if vm_page_xbusied s m then
      s.setUse m { s.use m with busy_lock := VPB_UNBUSIED } else s
    s.setPage m { s.vm.page m with object := none }

/-- The answer tells whether the page may be given back. -/
def vm_page_free_prep : Except Stop (Bool × Memory P) :=
  if vm_page_sbusied s m then .error .freeingBusy
  else do
    let s ← if (s.vm.page m).queue ≠ PQ_NONE then s.onVm (vm_page_dequeue · m) else .ok s
    let s := vm_page_remove s m
    if (s.vm.page m).flags &&& PG_FICTITIOUS ≠ 0 then return (false, s)
    else
      let s := s.setUse m { s.use m with valid := 0 }
      let s := { s with vm := vm_page_undirty s.vm m }
      if (s.vm.page m).wire_count ≠ 0 then .error .freeingWired
      else if (s.use m).hold_count ≠ 0 then
        return (false, s.setPage m { s.vm.page m with
          flags := (s.vm.page m).flags &&& ~~~PG_ZERO ||| PG_UNHOLDFREE })
      else return (true, s)

/-- With `vm_page_free_phys`. -/
def vm_page_free_toq : Except Stop (Memory P) := do
  let (ready, s) ← vm_page_free_prep s m
  if ready then return { s with free := s.free ++ [m] } else return s

def vm_page_free : Except Stop (Memory P) :=
  vm_page_free_toq (s.setPage m { s.vm.page m with flags := (s.vm.page m).flags &&& ~~~PG_ZERO }) m

/-- `modified` is the answer of `pmap_is_modified`. -/
def vm_page_test_dirty (modified : Bool) : Memory P :=
  if (s.vm.page m).dirty ≠ VM_PAGE_BITS_ALL ∧ modified then
    { s with vm := vm_page_dirty s.vm m }
  else s

/-! ### The statistics -/

/-- The pages that the pass passes over: `continue` in the source. -/
def Skipped : Prop :=
  (s.vm.page m).flags &&& PG_MARKER ≠ 0 ∨ (s.use m).hold_count ≠ 0 ∨ vm_page_busied s m

instance : Decidable (Skipped s m) := inferInstanceAs (Decidable (_ ∨ _))

/-- The loop over the queue. `front` starts as `NULL`; `back` is not set before the loop. -/
def statsLoop : List P → Option P → Option P → ℕ → Option P × Option P × ℕ
  | [], front, back, num_pgs => (front, back, num_pgs)
  | m :: next, front, back, num_pgs =>
    if Skipped s m then statsLoop next front back num_pgs
    else statsLoop next (front <|> some m) (if next = [] then some m else back) (num_pgs + 1)

/-- The queue `vmd_pagequeues[PQ_INACTIVE]` of the domain. -/
def inactive (vmd : Domain P) : ℕ × Fin PQ_COUNT := (vmd.index, 0)

/-- The pass before the scan: the lines that it prints. -/
def printStats (vmd : Domain P) : Except Stop (List Newpage) :=
  let (front, back, num_pgs) :=
    statsLoop s (s.vm.vmd_pagequeues (inactive vmd)).pq_pl none none 0
  match front, back with
  | none, _ => .error .nullPointer
  | some _, none => .error .uninitialised
  | some front, some back => .ok [⟨num_pgs, (s.vm.page front).id, (s.vm.page back).id⟩]

/-! ### The scan -/

/-- The part of the loop's body between the dequeue of the page and the search for the place in
the queue; it answers whether the page has been freed. -/
def settlePage (modified : Bool) (object : VmObject) : Except Stop (Bool × Memory P) :=
  if (s.use m).valid = 0 then do return (true, ← vm_page_free s m)
  else
    let s := if object.ref_count ≠ 0 then vm_page_test_dirty s m modified else s
    if (s.vm.page m).dirty = 0 then do return (true, ← vm_page_free s m)
    else if !object.dead then do return (false, ← s.onVm (vm_page_launder · m))
    else return (false, s)

/-- The body of the loop for one element of the queue: what is next, and how many pages are
still short. -/
def scanPage (vmd : Domain P) (modified : P → Bool) (page_shortage : ℤ) :
    Except Stop (Option P × ℤ × Memory P) :=
  let pq := inactive vmd
  let q := s.vm.vmd_pagequeues pq
  let next := TAILQ_NEXT m q.pq_pl
  if (s.vm.page m).flags &&& PG_MARKER ≠ 0 then return (next, page_shortage, s)
  else if (s.use m).hold_count ≠ 0 then return (next, page_shortage, s)
  else match (s.vm.page m).object with
    | none => .error .nullPointer
    | some object =>
      if vm_page_busied s m then return (next, page_shortage, s)
      else do
        let q := { q with pq_pl := TAILQ_INSERT_AFTER m vmd.vmd_marker q.pq_pl }
        let s := { s with vm := s.vm.setPagequeue pq q }
        let s ← s.onVm (vm_page_dequeue_locked · m)
        let (freed, s) ← settlePage s m (modified m) (s.vm_object object)
        let page_shortage := if freed then page_shortage - 1 else page_shortage
        let q := s.vm.vmd_pagequeues pq
        let next := TAILQ_NEXT vmd.vmd_marker q.pq_pl
        let s ← s.onVm fun v => do
          let l ← TAILQ_REMOVE .notQueued q.pq_pl vmd.vmd_marker
          return v.setPagequeue pq { q with pq_pl := l }
        return (next, page_shortage, s)

/-- The loop; the argument of the recursion is `maxscan`. -/
def scanLoop (vmd : Domain P) (modified : P → Bool) :
    ℕ → Option P → ℤ → Memory P → Except Stop (ℤ × Memory P)
  | _, none, page_shortage, s => return (page_shortage, s)
  | 0, _, page_shortage, s => return (page_shortage, s)
  | maxscan + 1, some m, page_shortage, s =>
    if page_shortage > 0 then do
      let (next, page_shortage, s) ← scanPage s m vmd modified page_shortage
      scanLoop vmd modified maxscan next page_shortage s
    else return (page_shortage, s)

/-- The scan of the inactive queue. -/
def scanInactive (vmd : Domain P) (modified : P → Bool) (page_shortage : ℤ) :
    Except Stop (ℤ × Memory P) :=
  let q := s.vm.vmd_pagequeues (inactive vmd)
  scanLoop vmd modified q.pq_cnt.toNat q.pq_pl.head? page_shortage s

/-- `page_shortage` is the number of pages wanted; the lines printed come with the answer. -/
def vm_pageout_scan (vmd : Domain P) (modified : P → Bool) (page_shortage : ℤ) :
    Except Stop (List Newpage × Bool × Memory P) := do
  let lines ← printStats s vmd
  let (page_shortage, s) ← scanInactive s vmd modified page_shortage
  return (lines, page_shortage ≤ 0, s)

/-- A marker's segment, and so its domain, is not looked at. -/
def vm_pageout_init_marker (marker : P) (queue : UInt8) : Memory P :=
  let s := s.setPage marker
    ⟨none, (s.vm.page marker).domain, 0, PG_MARKER, 0, 0, queue, 0, 0, 0⟩
  s.setUse marker ⟨1, VPB_SINGLE_EXCLUSIVER, 0⟩

/-- The part of `vm_pageout_worker` before its loop. -/
def vm_pageout_worker (vmd : Domain P) : Memory P :=
  let s := vm_pageout_init_marker s vmd.vmd_marker PQ_INACTIVE
  let s := vm_pageout_init_marker s vmd.vmd_inacthead PQ_INACTIVE
  let q := s.vm.vmd_pagequeues (inactive vmd)
  let q := { q with pq_pl := vmd.vmd_inacthead :: q.pq_pl }
  { s with vm := s.vm.setPagequeue (inactive vmd) q }

end routines

end Messaround.Pager
