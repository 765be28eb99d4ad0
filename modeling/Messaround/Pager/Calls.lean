import Messaround.Pager.Books

/-!
What the routines do, one by one: each goes through and has one of the two effects.
-/

namespace Messaround.Pager

variable {P : Type} [DecidableEq P] {v v' : Vm P} {m : P}

lemma still_setPage {p : Page} (hd : p.domain = (v.page m).domain)
    (hq : p.queue = (v.page m).queue) (hw : p.wire_count = 0 ∨ p.queue = PQ_NONE) :
    Still v m (v.setPage m p) := by
  constructor
  case others => exact fun x hx => Function.update_of_ne hx _ _
  case domain => rw [Vm.page_setPage, Function.update_self, hd]
  case queue => rw [Vm.page_setPage, Function.update_self, hq]
  case wired =>
    rw [Vm.page_setPage, Function.update_self]
    exact hw
  case queues => rfl

lemma Filed.placeOf_eq (h : Filed v m) (hq : (v.page m).queue ≠ PQ_NONE) :
    ∃ k : Dest, (v.page m).queue = k.queue ∧ k ≠ .off ∧
      placeOf v m = k.place (v.page m).domain := by
  obtain ⟨k, hk⟩ := h.queue
  refine ⟨k, hk, fun he => hq (by rw [hk, he]; rfl), Pager.placeOf_eq hk⟩

lemma vm_page_pagequeue_eq (h : Filed v m) (hq : (v.page m).queue ≠ PQ_NONE) :
    ∃ pq, vm_page_pagequeue v m = .ok pq ∧ placeOf v m = some pq := by
  obtain ⟨k, hk, hoff, hp⟩ := h.placeOf_eq hq
  rw [hp]
  unfold vm_page_pagequeue
  rw [hk]
  cases k with
  | off => exact absurd rfl hoff
  | inactive => exact ⟨_, rfl, rfl⟩
  | laundry => exact ⟨_, rfl, rfl⟩

lemma vm_page_dequeue_sent (h : Filed v m) (hq : (v.page m).queue ≠ PQ_NONE) :
    ∃ v', vm_page_dequeue v m = .ok v' ∧ Sent v m .off v' ∧
      v'.page m = { v.page m with queue := PQ_NONE } ∧ v'.pg_cnt = v.pg_cnt := by
  obtain ⟨pq, heq, hp⟩ := vm_page_pagequeue_eq h hq
  have hmem : m ∈ (v.vmd_pagequeues pq).pq_pl := h.mem_iff.mpr hp
  unfold vm_page_dequeue vm_page_dequeue_locked Vm.remove
  rw [heq, ok_bind]
  dsimp only
  rw [Vm.pagequeues_setPage, TAILQ_REMOVE_eq hmem, ok_bind]
  have hself := Function.update_self m { v.page m with queue := PQ_NONE } v.page
  refine ⟨_, rfl, ?_, hself, rfl⟩
  constructor
  case others => exact fun x hx => Function.update_of_ne hx _ _
  case domain => exact (congrArg (fun p : Page => p.domain) hself :)
  case queue => exact (congrArg (fun p : Page => p.queue) hself :)
  case wired => exact Or.inr (congrArg (fun p : Page => p.queue) hself :)
  case pages =>
    intro pq'
    simp only [Dest.place, reduceCtorEq, if_false, List.append_nil]
    unfold onQueue
    rcases eq_or_ne pq' pq with rfl | hne
    · simp [Vm.setPagequeue, Function.update_self]
    · have hnot : m ∉ (v.vmd_pagequeues pq').pq_pl := fun hm =>
        hne (Option.some.inj ((h.mem_iff.mp hm).symm.trans hp))
      simp [Vm.setPagequeue, Function.update_of_ne hne, List.erase_of_not_mem hnot]
  case count =>
    intro pq'
    unfold onQueue cntOf
    rcases eq_or_ne pq' pq with rfl | hne
    · have hpos := List.length_pos_of_mem hmem
      simp only [Vm.setPagequeue, Function.update_self, List.length_erase_of_mem hmem]
      omega
    · simp [Vm.setPagequeue, Function.update_of_ne hne]

/-- A page on no queue is put to the tail of one, after its fields have been set. -/
lemma sent_insertTail (h : Filed v m) (hq : (v.page m).queue = PQ_NONE) {v₁ : Vm P} {k : Dest}
    {pq : ℕ × Fin PQ_COUNT} {p : Page} (hpq : k.place (v.page m).domain = some pq)
    (hp : v₁.page = Function.update v.page m p) (hd : p.domain = (v.page m).domain)
    (hk : p.queue = k.queue) (hw : p.wire_count = 0)
    (hqs : v₁.vmd_pagequeues = v.vmd_pagequeues) : Sent v m k (v₁.insertTail m pq) := by
  have hnot : ∀ pq', m ∉ (v.vmd_pagequeues pq').pq_pl :=
    fun _ => h.notMem hq
  have hself : v₁.page m = p := by rw [hp, Function.update_self]
  constructor
  case others => exact fun x hx => (congrFun hp x).trans (Function.update_of_ne hx _ _)
  case domain => rwa [Vm.page_insertTail, hself]
  case queue => rwa [Vm.page_insertTail, hself]
  case wired =>
    rw [Vm.page_insertTail, hself]
    exact Or.inl hw
  case pages =>
    intro pq'
    rw [hpq]
    unfold onQueue Vm.insertTail Vm.setPagequeue
    rw [hqs, List.erase_of_not_mem (hnot pq')]
    rcases eq_or_ne pq' pq with rfl | hne
    · simp
    · simp [Function.update_of_ne hne, hne.symm]
  case count =>
    intro pq'
    unfold onQueue cntOf Vm.insertTail Vm.setPagequeue
    rw [hqs]
    rcases eq_or_ne pq' pq with rfl | hne
    · simp only [Function.update_self, List.length_append, List.length_singleton]
      omega
    · simp [Function.update_of_ne hne]

lemma vm_page_enqueue_inactive (v : Vm P) (m : P) :
    vm_page_enqueue v m PQ_INACTIVE =
      .ok (((v.drawId m).setPage m { (v.drawId m).page m with queue := PQ_INACTIVE }).insertTail m
        ((v.page m).domain, 0)) := rfl

lemma vm_page_enqueue_active (v : Vm P) (m : P) :
    vm_page_enqueue v m PQ_ACTIVE = vm_page_enqueue v m PQ_INACTIVE := rfl

lemma vm_page_enqueue_laundry (v : Vm P) (m : P) :
    vm_page_enqueue v m PQ_LAUNDRY =
      .ok ((v.setPage m { v.page m with queue := PQ_LAUNDRY }).insertTail m (0, 2)) := rfl

lemma vm_page_enqueue_sent (h : Filed v m) (hq : (v.page m).queue = PQ_NONE)
    (hw : (v.page m).wire_count = 0) {queue : UInt8}
    (hqueue : queue = PQ_INACTIVE ∨ queue = PQ_ACTIVE ∨ queue = PQ_LAUNDRY) :
    ∃ v', vm_page_enqueue v m queue = .ok v' ∧
      Stamped v m (some (if queue = PQ_LAUNDRY then .laundry else .inactive)) v' := by
  have hin : ∃ v', vm_page_enqueue v m PQ_INACTIVE = .ok v' ∧ Stamped v m (some .inactive) v' := by
    refine ⟨_, vm_page_enqueue_inactive v m,
      sent_insertTail h hq rfl (Function.update_idem ..) ?_ rfl ?_ rfl,
      fun _ => ⟨?_, rfl⟩, fun ho => absurd rfl ho⟩
    · simp
    · simpa using hw
    · simp
  rcases hqueue with rfl | rfl | rfl
  · exact hin
  · rw [vm_page_enqueue_active]
    exact hin
  · refine ⟨_, vm_page_enqueue_laundry v m, sent_insertTail h hq rfl rfl rfl rfl hw rfl,
      fun ho => (nomatch ho), fun _ => ⟨?_, rfl⟩⟩
    simp

/-- A page is taken off the queue it may be on and put to the tail of another. -/
lemma dequeue_enqueue_sent (h : Filed v m) (hw : (v.page m).wire_count = 0) {queue dst : UInt8}
    (hqueue : (v.page m).queue = queue)
    (hdst : dst = PQ_INACTIVE ∨ dst = PQ_ACTIVE ∨ dst = PQ_LAUNDRY) :
    ∃ v', (do
        let v ← if queue ≠ PQ_NONE then vm_page_dequeue v m else .ok v
        vm_page_enqueue v m dst) = .ok v' ∧
      Stamped v m (some (if dst = PQ_LAUNDRY then .laundry else .inactive)) v' := by
  subst hqueue
  by_cases hq : (v.page m).queue = PQ_NONE
  · rw [if_neg (not_not.mpr hq), ok_bind]
    exact vm_page_enqueue_sent h hq hw hdst
  · obtain ⟨v₁, heq, hs, hp, hcnt⟩ := vm_page_dequeue_sent h hq
    obtain ⟨v₂, heq₂, hs₂⟩ := vm_page_enqueue_sent (h.sent hs) hs.queue (by rw [hp]; exact hw) hdst
    rw [if_pos hq, heq, ok_bind]
    exact ⟨v₂, heq₂, hs₂.after (hs.sent h hs₂.moved) (by rw [hp]) hcnt⟩

lemma raiseActCount_still (h : Filed v m) : Still v m (raiseActCount v m) := by
  unfold raiseActCount
  split
  · exact still_setPage rfl rfl h.wired
  · exact Still.refl h.wired

lemma Filed.not_active (h : Filed v m) : (v.page m).queue ≠ PQ_ACTIVE := by
  obtain ⟨k, hk⟩ := h.queue
  rw [hk]
  cases k <;> decide

lemma vm_page_activate_eq (h : Filed v m) : ∃ v', vm_page_activate v m = .ok v' ∧
    Stamped v m (if Pageable (v.page m) then some .inactive else none) v' := by
  unfold vm_page_activate
  dsimp only
  rw [if_pos h.not_active]
  by_cases hp : Pageable (v.page m)
  · rw [if_pos hp, if_pos hp]
    have hs := raiseActCount_still (m := m) h
    have hw : ((raiseActCount v m).page m).wire_count = 0 := by
      unfold raiseActCount
      split <;> simp [hp.1]
    have hid : ((raiseActCount v m).page m).id = (v.page m).id ∧
        (raiseActCount v m).pg_cnt = v.pg_cnt := by
      unfold raiseActCount
      split
      · exact ⟨by simp, rfl⟩
      · exact ⟨rfl, rfl⟩
    obtain ⟨v', heq, hs'⟩ := dequeue_enqueue_sent (h.still hs) hw hs.queue (Or.inl rfl)
    exact ⟨v', heq, hs'.after (hs.sent hs'.moved) hid.1 hid.2⟩
  · rw [if_neg hp, if_neg hp]
    exact ⟨v, rfl, .refl h.wired⟩

lemma insertInactive_eq (v : Vm P) (m : P) :
    insertInactive v m = .ok (((v.setPage m { v.page m with queue := PQ_INACTIVE }).drawId
      m).insertTail m ((v.page m).domain, 0)) := by
  unfold insertInactive vm_phys_domain
  simp only [Vm.page_setPage, Vm.page_drawId, Function.update_self]
  rfl

lemma insertInactive_sent (h : Filed v m) (hq : (v.page m).queue = PQ_NONE)
    (hw : (v.page m).wire_count = 0) :
    ∃ v', insertInactive v m = .ok v' ∧ Sent v m .inactive v' ∧ (v'.page m).id = v.pg_cnt ∧
      v'.pg_cnt = (v.pg_cnt + 1) % ULONG_SIZE := by
  refine ⟨_, insertInactive_eq v m,
    sent_insertTail h hq rfl (Function.update_idem ..) ?_ ?_ ?_ rfl, ?_, rfl⟩
  · simp
  · simp [Dest.queue]
  · simpa using hw
  · simp only [Vm.page_insertTail, Vm.page_drawId, Function.update_self]
    rfl

/-- Whether `_vm_page_deactivate` leaves a page where it is. -/
def Settled (p : Page) (noreuse : Bool) : Prop :=
  (p.queue = PQ_INACTIVE ∧ !noreuse) ∨ ¬Pageable p

/-- Any other page is put to the tail with a new id, also when it is inactive already. -/
lemma _vm_page_deactivate_sent (h : Filed v m) {noreuse : Bool}
    (hs : ¬Settled (v.page m) noreuse) :
    ∃ v', _vm_page_deactivate v m noreuse = .ok v' ∧ Sent v m .inactive v' ∧
      (v'.page m).id = v.pg_cnt ∧ v'.pg_cnt = (v.pg_cnt + 1) % ULONG_SIZE := by
  obtain ⟨hkeep, hp⟩ := not_or.mp hs
  have hp := not_not.mp hp
  unfold _vm_page_deactivate
  dsimp only
  rw [if_neg hkeep, if_pos hp]
  by_cases hq : (v.page m).queue = PQ_NONE
  · rw [if_neg (by rw [hq]; decide), if_neg (not_not.mpr hq), ok_bind]
    exact insertInactive_sent h hq hp.1
  · obtain ⟨v₁, heq, hs, hpage, hcnt⟩ := vm_page_dequeue_sent h hq
    obtain ⟨v₂, heq₂, hs₂, hid, hcnt₂⟩ :=
      insertInactive_sent (h.sent hs) hs.queue (by rw [hpage]; exact hp.1)
    have hloc : vm_page_dequeue_locked v m = .ok v₁ := heq
    rw [if_pos hq, hloc, heq, ok_bind, ite_self]
    rw [hcnt] at hid hcnt₂
    exact ⟨v₂, heq₂, hs.sent h hs₂, hid, hcnt₂⟩

lemma _vm_page_deactivate_settled {noreuse : Bool} (hs : Settled (v.page m) noreuse) :
    _vm_page_deactivate v m noreuse = .ok v := by
  unfold _vm_page_deactivate
  dsimp only
  by_cases hkeep : (v.page m).queue = PQ_INACTIVE ∧ !noreuse
  · exact if_pos hkeep
  · rw [if_neg hkeep, if_neg (hs.resolve_left hkeep)]

lemma _vm_page_deactivate_eq (h : Filed v m) (noreuse : Bool) :
    ∃ v', _vm_page_deactivate v m noreuse = .ok v' ∧
      Stamped v m (if (v.page m).queue = PQ_INACTIVE ∧ !noreuse then none
        else if Pageable (v.page m) then some .inactive else none) v' := by
  by_cases hs : Settled (v.page m) noreuse
  · refine ⟨v, _vm_page_deactivate_settled hs, ?_⟩
    split
    · exact .refl h.wired
    next hkeep =>
      rw [if_neg (hs.resolve_left hkeep)]
      exact .refl h.wired
  · obtain ⟨v', heq, hsent, hid, hcnt⟩ := _vm_page_deactivate_sent h hs
    obtain ⟨hkeep, hp⟩ := not_or.mp hs
    rw [if_neg hkeep, if_pos (not_not.mp hp)]
    exact ⟨v', heq, hsent, fun _ => ⟨hid, hcnt⟩, fun ho => absurd rfl ho⟩

lemma vm_page_launder_eq (h : Filed v m) : ∃ v', vm_page_launder v m = .ok v' ∧
    Stamped v m (if (v.page m).queue ≠ PQ_LAUNDRY then
      if Pageable (v.page m) then some .laundry else none else none) v' := by
  unfold vm_page_launder
  dsimp only
  by_cases hq : (v.page m).queue ≠ PQ_LAUNDRY
  · rw [if_pos hq, if_pos hq]
    by_cases hp : Pageable (v.page m)
    · rw [if_pos hp, if_pos hp]
      exact dequeue_enqueue_sent h hp.1 rfl (Or.inr (Or.inr rfl))
    · rw [if_neg hp, if_neg hp]
      exact ⟨v, rfl, .refl h.wired⟩
  · rw [if_neg hq, if_neg hq]
    exact ⟨v, rfl, .refl h.wired⟩

/-- Where a page goes that is not needed soon. -/
def idleDest (p : Page) : Option Dest :=
  if p.dirty = 0 then if Pageable p then some .inactive else none
  else if p.queue ≠ PQ_LAUNDRY then if Pageable p then some .laundry else none else none

lemma deactivate_or_launder_eq (h : Filed v m) : ∃ v',
    (if (v.page m).dirty = 0 then vm_page_deactivate_noreuse v m else vm_page_launder v m) = .ok v' ∧
    Moved v m (idleDest (v.page m)) v' := by
  unfold idleDest
  by_cases hd : (v.page m).dirty = 0
  · rw [if_pos hd, if_pos hd]
    have hda := _vm_page_deactivate_eq (m := m) h true
    rw [if_neg (by simp)] at hda
    exact hda.imp fun _ h => h.imp_right Stamped.moved
  · rw [if_neg hd, if_neg hd]
    exact (vm_page_launder_eq h).imp fun _ h => h.imp_right Stamped.moved

/-- The dirty bits that the advice leaves to decide by. -/
def settledDirty (p : Page) (advice : ℤ) (modified : Bool) : BitVec 8 :=
  if advice = MADV_FREE then 0
  else if p.dirty = 0 ∧ modified then VM_PAGE_BITS_ALL else p.dirty

lemma settleDirty_eq (v : Vm P) (m : P) (advice : ℤ) (modified : Bool) :
    settleDirty v m advice modified = v.setPage m { v.page m with
      dirty := settledDirty (v.page m) advice modified
      aflags := (v.page m).aflags &&& ~~~PGA_REFERENCED } := by
  unfold settleDirty settledDirty vm_page_undirty vm_page_dirty
  dsimp only
  by_cases hf : advice = MADV_FREE
  · rw [if_pos hf, if_pos hf, if_neg (by tauto)]
    simp [Vm.setPage]
  · rw [if_neg hf, if_neg hf]
    by_cases hd : (v.page m).dirty = 0 ∧ modified
    · rw [if_pos hd, if_pos (by simpa using ⟨hf, hd⟩)]
      simp [Vm.setPage]
    · rw [if_neg hd, if_neg (by simpa using fun _ => not_and.mp hd)]

/-- Where the advice sends a page. -/
def adviseDest (p : Page) (advice : ℤ) (modified : Bool) : Option Dest :=
  if advice ≠ MADV_FREE ∧ advice ≠ MADV_DONTNEED then
    if advice = MADV_WILLNEED then if Pageable p then some .inactive else none else none
  else idleDest { p with dirty := settledDirty p advice modified }

lemma vm_page_advise_eq (h : Filed v m) (advice : ℤ) (modified : Bool) :
    ∃ v', vm_page_advise v m advice modified = .ok v' ∧
      Moved v m (adviseDest (v.page m) advice modified) v' := by
  unfold vm_page_advise adviseDest
  by_cases hno : advice ≠ MADV_FREE ∧ advice ≠ MADV_DONTNEED
  · rw [if_pos hno, if_pos hno]
    by_cases hw : advice = MADV_WILLNEED
    · rw [if_pos hw, if_pos hw]
      exact (vm_page_activate_eq h).imp fun _ h => h.imp_right Stamped.moved
    · rw [if_neg hw, if_neg hw]
      exact ⟨v, rfl, Still.refl h.wired⟩
  · rw [if_neg hno, if_neg hno]
    dsimp only
    have hs : Still v m (settleDirty v m advice modified) := by
      rw [settleDirty_eq]
      exact still_setPage rfl rfl h.wired
    obtain ⟨v', heq, hm⟩ := deactivate_or_launder_eq (m := m) (h.still hs)
    refine ⟨v', heq, hs.moved ?_⟩
    rw [settleDirty_eq, Vm.page_setPage, Function.update_self] at hm
    rw [settleDirty_eq]
    exact hm

lemma Filed.placeOf_ne {pq pq' : ℕ × Fin PQ_COUNT} (h : Filed v m) (hp : placeOf v m = some pq)
    (hne : pq' ≠ pq) : m ∉ onQueue v pq' := fun hm =>
  hne (Option.some.inj ((h.mem_iff.mp hm).symm.trans hp))

lemma vm_page_requeue_eq (h : Filed v m) (hq : (v.page m).queue ≠ PQ_NONE) :
    ∃ v' k, vm_page_requeue v m = .ok v' ∧ (v.page m).queue = k.queue ∧ Sent v m k v' := by
  obtain ⟨k, hk, -, hp'⟩ := h.placeOf_eq hq
  obtain ⟨pq, heq, hp⟩ := vm_page_pagequeue_eq h hq
  have hmem : m ∈ (v.vmd_pagequeues pq).pq_pl := h.mem_iff.mpr hp
  unfold vm_page_requeue
  rw [heq, ok_bind]
  dsimp only
  rw [TAILQ_REMOVE_eq hmem, ok_bind]
  refine ⟨_, k, rfl, hk, ?_⟩
  constructor
  case others => exact fun _ _ => rfl
  case domain => rfl
  case queue => exact hk
  case wired => exact h.wired
  case pages =>
    intro pq'
    rw [← hp', hp]
    unfold onQueue
    rcases eq_or_ne pq' pq with rfl | hne
    · simp [Vm.setPagequeue]
    · have hnot := h.placeOf_ne hp hne
      unfold onQueue at hnot
      simp [Vm.setPagequeue, Function.update_of_ne hne, hne.symm, List.erase_of_not_mem hnot]
  case count =>
    intro pq'
    unfold onQueue cntOf
    rcases eq_or_ne pq' pq with rfl | hne
    · have hpos := List.length_pos_of_mem hmem
      simp only [Vm.setPagequeue, Function.update_self, List.length_append,
        List.length_erase_of_mem hmem, List.length_singleton]
      omega
    · simp [Vm.setPagequeue, Function.update_of_ne hne]

lemma vm_page_wire_eq (h : Filed v m) : ∃ v', vm_page_wire v m = .ok v' ∧
    Moved v m (if (v.page m).flags &&& PG_FICTITIOUS ≠ 0 then none
      else if (v.page m).wire_count = 0 ∧ (v.page m).queue ≠ PQ_NONE then some .off
      else none) v' := by
  unfold vm_page_wire vm_page_remque
  by_cases hf : (v.page m).flags &&& PG_FICTITIOUS ≠ 0
  · rw [if_pos hf, if_pos hf]
    exact ⟨v, rfl, Still.refl h.wired⟩
  rw [if_neg hf, if_neg hf]
  -- the count may go up once the page is on no queue
  have hcount : ∀ v₁ : Vm P, (v₁.page m).queue = PQ_NONE →
      Still v₁ m (v₁.setPage m { v₁.page m with wire_count := (v₁.page m).wire_count + 1 }) :=
    fun v₁ hq => still_setPage rfl rfl (Or.inr hq)
  by_cases hw : (v.page m).wire_count = 0
  · rw [if_pos hw]
    by_cases hq : (v.page m).queue ≠ PQ_NONE
    · obtain ⟨v₁, heq, hs, -, -⟩ := vm_page_dequeue_sent h hq
      rw [if_pos hq, heq, ok_bind, if_pos ⟨hw, hq⟩]
      exact ⟨_, rfl, hs.still (hcount v₁ hs.queue)⟩
    · rw [if_neg hq, ok_bind, if_neg (by tauto)]
      exact ⟨_, rfl, hcount v (not_not.mp hq)⟩
  · rw [if_neg hw, ok_bind, if_neg (by tauto)]
    exact ⟨_, rfl, hcount v (h.wired.resolve_left hw)⟩

lemma vm_page_unwire_eq (h : Filed v m) {queue : UInt8} (hw : (v.page m).wire_count ≠ 0)
    (hqueue : queue = PQ_INACTIVE ∨ queue = PQ_ACTIVE ∨ queue = PQ_LAUNDRY ∨ queue = PQ_NONE) :
    ∃ b v', vm_page_unwire v m queue = .ok (b, v') ∧
      Moved v m (if (v.page m).flags &&& PG_FICTITIOUS = 0 ∧ (v.page m).wire_count - 1 = 0 ∧
          (v.page m).oflags &&& VPO_UNMANAGED = 0 ∧ (v.page m).object ≠ none ∧ queue ≠ PQ_NONE then
        some (if queue = PQ_LAUNDRY then .laundry else .inactive) else none) v' := by
  have hq := h.wired.resolve_left hw
  have hpos : (v.page m).wire_count > 0 := UInt32.pos_iff_ne_zero.mpr hw
  unfold vm_page_unwire
  by_cases hf : (v.page m).flags &&& PG_FICTITIOUS = 0
  swap
  · rw [if_pos hf, if_neg (by tauto)]
    exact ⟨false, v, rfl, Still.refl h.wired⟩
  rw [if_neg (not_not.mpr hf), if_pos hpos]
  dsimp only
  have hs : Still v m (v.setPage m { v.page m with wire_count := (v.page m).wire_count - 1 }) :=
    still_setPage rfl rfl (Or.inr hq)
  simp only [Vm.page_setPage, Function.update_self]
  by_cases hz : (v.page m).wire_count - 1 = 0
  swap
  · rw [if_neg hz, if_neg (by tauto)]
    exact ⟨false, _, rfl, hs⟩
  rw [if_pos hz]
  by_cases hman : (v.page m).oflags &&& VPO_UNMANAGED = 0 ∧ (v.page m).object ≠ none ∧
    queue ≠ PQ_NONE
  · rw [if_pos hman, if_pos ⟨hf, hz, hman⟩]
    have hdst : queue = PQ_INACTIVE ∨ queue = PQ_ACTIVE ∨ queue = PQ_LAUNDRY := by tauto
    obtain ⟨v', heq, hs'⟩ := vm_page_enqueue_sent (h.still hs) (hs.queue.trans hq)
      (by simpa using hz) hdst
    rw [heq, ok_bind]
    exact ⟨true, v', rfl, hs.sent hs'.moved⟩
  · rw [if_neg hman, if_neg (by tauto)]
    exact ⟨true, _, rfl, hs⟩

end Messaround.Pager
