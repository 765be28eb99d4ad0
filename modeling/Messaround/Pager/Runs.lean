import Messaround.Pager.Calls

/-!
Runs of the routines, one call at a time, and what holds of the queues in every one.
-/

namespace Messaround.Pager

variable {P : Type} [DecidableEq P] {v v' : Vm P} {m : P}

inductive Call (P : Type)
  | activate (m : P)
  | deactivate (m : P)
  | deactivate_noreuse (m : P)
  | launder (m : P)
  | advise (m : P) (advice : ℤ) (modified : Bool)
  | dequeue (m : P)
  | requeue (m : P)
  | wire (m : P)
  | unwire (m : P) (queue : UInt8)

namespace Call

def page : Call P → P
  | activate m | deactivate m | deactivate_noreuse m | launder m | advise m _ _ | dequeue m
  | requeue m | wire m | unwire m _ => m

def run (v : Vm P) : Call P → Except Fault (Vm P)
  | activate m => vm_page_activate v m
  | deactivate m => vm_page_deactivate v m
  | deactivate_noreuse m => vm_page_deactivate_noreuse v m
  | launder m => vm_page_launder v m
  | advise m advice modified => vm_page_advise v m advice modified
  | dequeue m => vm_page_dequeue v m
  | requeue m => vm_page_requeue v m
  | wire m => vm_page_wire v m
  | unwire m queue => do return (← vm_page_unwire v m queue).2

/-- What the callers of a routine see to. -/
def Allowed (v : Vm P) : Call P → Prop
  | dequeue m | requeue m => (v.page m).queue ≠ PQ_NONE
  | unwire m queue => (v.page m).wire_count ≠ 0 ∧
    (queue = PQ_INACTIVE ∨ queue = PQ_ACTIVE ∨ queue = PQ_LAUNDRY ∨ queue = PQ_NONE)
  | _ => True

lemma run_moved (c : Call P) (h : Booked v) (hc : c.Allowed v) :
    ∃ v' o, c.run v = .ok v' ∧ Moved v c.page o v' := by
  cases c with
  | activate m =>
    obtain ⟨v', heq, hm⟩ := vm_page_activate_eq (h.filed m)
    exact ⟨v', _, heq, hm.moved⟩
  | deactivate m =>
    obtain ⟨v', heq, hm⟩ := _vm_page_deactivate_eq (h.filed m) false
    exact ⟨v', _, heq, hm.moved⟩
  | deactivate_noreuse m =>
    obtain ⟨v', heq, hm⟩ := _vm_page_deactivate_eq (h.filed m) true
    exact ⟨v', _, heq, hm.moved⟩
  | launder m =>
    obtain ⟨v', heq, hm⟩ := vm_page_launder_eq (h.filed m)
    exact ⟨v', _, heq, hm.moved⟩
  | advise m advice modified =>
    obtain ⟨v', heq, hm⟩ := vm_page_advise_eq (h.filed m) advice modified
    exact ⟨v', _, heq, hm⟩
  | dequeue m =>
    obtain ⟨v', heq, hs, -, -⟩ := vm_page_dequeue_sent (h.filed m) hc
    exact ⟨v', some .off, heq, hs⟩
  | requeue m =>
    obtain ⟨v', k, heq, -, hs⟩ := vm_page_requeue_eq (h.filed m) hc
    exact ⟨v', some k, heq, hs⟩
  | wire m =>
    obtain ⟨v', heq, hm⟩ := vm_page_wire_eq (h.filed m)
    exact ⟨v', _, heq, hm⟩
  | unwire m queue =>
    obtain ⟨b, v', heq, hm⟩ := vm_page_unwire_eq (h.filed m) hc.1 hc.2
    refine ⟨v', _, ?_, hm⟩
    change (vm_page_unwire v m queue >>= fun r => pure r.2) = _
    rw [heq]
    rfl

end Call

/-- The states of all runs. Between two calls the other fields of the pages may change. -/
inductive Reached : Vm P → Prop
  | boot {page : P → Page} (hq : ∀ m, (page m).queue = PQ_NONE) :
    Reached ⟨vm_page_domain_init, page, 0⟩
  | call {v v' : Vm P} (h : Reached v) {c : Call P} (hc : c.Allowed v) (hr : c.run v = .ok v') :
    Reached v'
  | touch {v : Vm P} (h : Reached v) {page : P → Page}
    (hp : ∀ m, (page m).queue = (v.page m).queue ∧ (page m).domain = (v.page m).domain ∧
      (page m).wire_count = (v.page m).wire_count ∧ (page m).id = (v.page m).id) :
    Reached { v with page := page }

lemma booked_boot {page : P → Page} (hq : ∀ m, (page m).queue = PQ_NONE) :
    Booked ⟨vm_page_domain_init, page, 0⟩ := by
  have hplace : placeOf ⟨vm_page_domain_init, page, 0⟩ = fun _ => none := by
    funext m
    unfold placeOf
    rw [hq m]
    rfl
  refine ⟨?_, fun m => ⟨.off, hq m⟩, fun _ => rfl, fun m => Or.inr (hq m)⟩
  rw [hplace]
  exact Placed.empty

lemma Booked.touch (h : Booked v) {page : P → Page}
    (hp : ∀ m, (page m).queue = (v.page m).queue ∧ (page m).domain = (v.page m).domain ∧
      (page m).wire_count = (v.page m).wire_count ∧ (page m).id = (v.page m).id) :
    Booked { v with page := page } := by
  have hplace : placeOf { v with page := page } = placeOf v := by
    funext m
    simp only [placeOf, (hp m).1, (hp m).2.1]
  refine ⟨?_, fun m => ?_, h.count, fun m => ?_⟩
  · rw [hplace]
    exact h.placed
  · exact (h.queue m).imp fun k hk => (hp m).1.trans hk
  · exact (h.wired m).imp (hp m).2.2.1.trans (hp m).1.trans

lemma Reached.booked (h : Reached v) : Booked v := by
  induction h with
  | boot hq => exact booked_boot hq
  | @call v v' h c hc hr ih =>
    obtain ⟨v₁, o, heq, hm⟩ := c.run_moved ih hc
    rw [heq] at hr
    exact Except.ok.inj hr ▸ ih.moved hm
  | touch h hp ih => exact ih.touch hp

/-- What the page queues are kept for. -/
structure Bookkeeping (v : Vm P) : Prop where
  queue : ∀ m, (v.page m).queue ≠ PQ_ACTIVE ∧ (v.page m).queue ≠ PQ_FIFO
  /-- The queues `PQ_ACTIVE` and `PQ_FIFO` of every domain. -/
  vacant : ∀ d, onQueue v (d, 1) = [] ∧ onQueue v (d, 3) = []
  listed : ∀ m, (v.page m).queue ≠ PQ_NONE →
    ((v.page m).queue = PQ_INACTIVE ∨ (v.page m).queue = PQ_LAUNDRY) ∧
    ∃ pq, vm_page_pagequeue v m = .ok pq ∧ pq.2.val = (v.page m).queue.toNat ∧
      ∀ pq', (onQueue v pq').count m = if pq' = pq then 1 else 0
  unlisted : ∀ m, (v.page m).queue = PQ_NONE → ∀ pq, m ∉ onQueue v pq
  count : ∀ pq, cntOf v pq = (onQueue v pq).length

lemma Booked.eq_nil (h : Booked v) {pq : ℕ × Fin PQ_COUNT} (hpq : pq.2 = 1 ∨ pq.2 = 3) :
    onQueue v pq = [] := by
  refine List.eq_nil_iff_forall_not_mem.mpr fun m hm => ?_
  have hp := h.placed.mem_iff.mp hm
  unfold placeOf at hp
  split at hp
  · cases hp
    change (0 : Fin PQ_COUNT) = 1 ∨ (0 : Fin PQ_COUNT) = 3 at hpq
    exact absurd hpq (by decide)
  · split at hp
    · cases hp
      change (2 : Fin PQ_COUNT) = 1 ∨ (2 : Fin PQ_COUNT) = 3 at hpq
      exact absurd hpq (by decide)
    · cases hp

/-- **Bookkeeping**: in every run the queues and the pages agree, and no page ever comes to
the active queue. -/
theorem bookkeeping_of_reached (h : Reached v) : Bookkeeping v := by
  have hb := h.booked
  constructor
  case queue =>
    intro m
    obtain ⟨k, hk⟩ := hb.queue m
    rw [hk]
    cases k <;> decide
  case vacant => exact fun d => ⟨hb.eq_nil (Or.inl rfl), hb.eq_nil (Or.inr rfl)⟩
  case listed =>
    intro m hq
    obtain ⟨pq, heq, hp⟩ := vm_page_pagequeue_eq (hb.filed m) hq
    obtain ⟨k, hk, hoff, hp'⟩ := (hb.filed m).placeOf_eq hq
    refine ⟨?_, pq, heq, ?_, fun pq' => ?_⟩
    · rw [hk]
      cases k with
      | off => exact absurd rfl hoff
      | inactive => exact Or.inl rfl
      | laundry => exact Or.inr rfl
    · rw [hp] at hp'
      rw [hk]
      cases k with
      | off => exact absurd rfl hoff
      | inactive => cases hp'; rfl
      | laundry => cases hp'; rfl
    · rw [hb.placed m pq', hp]
      simp only [Option.some.injEq, eq_comm]
  case unlisted =>
    intro m hq
    exact hb.placed.notMem (by unfold placeOf; rw [hq]; rfl)
  case count => exact hb.count

/-- A domain after boot, with two clean pages. -/
def freshVm : Vm Bool := ⟨vm_page_domain_init, fun _ => ⟨some 0, 0, 0, 0, 0, 0, PQ_NONE, 0, 0, 0⟩, 0⟩

lemma reached_freshVm : Reached freshVm := .boot fun _ => rfl

theorem bookkeeping_of_reached_activated :
    ∃ v, vm_page_activate freshVm true = .ok v ∧ Bookkeeping v :=
  ⟨_, rfl, bookkeeping_of_reached
    (.call reached_freshVm (c := .activate true) trivial rfl)⟩

/-- **Progress**: no allowed call faults. -/
theorem Reached.proceeds (h : Reached v) {c : Call P} (hc : c.Allowed v) :
    ∃ v', c.run v = .ok v' :=
  (c.run_moved h.booked hc).imp fun _ h => h.choose_spec.1

end Messaround.Pager
