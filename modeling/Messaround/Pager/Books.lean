import Messaround.Lib.Placed
import Messaround.Pager.Page

/-!
The page queues agree with the pages, in every run.

Whatever a call does, it leaves every page where it is but one, and that one it takes off
its queue and puts to the tail of another, or of none. The invariant follows from this alone.
-/

namespace Messaround.Pager

variable {P : Type} [DecidableEq P] {v v' : Vm P} {m : P}

/-- Where a call sends a page. -/
inductive Dest
  | off
  | inactive
  | laundry

/-- What `m->queue` is there. -/
def Dest.queue : Dest → UInt8
  | off => PQ_NONE
  | inactive => PQ_INACTIVE
  | laundry => PQ_LAUNDRY

/-- The queue of a page of domain `d` there. -/
def Dest.place (d : ℕ) : Dest → Option (ℕ × Fin PQ_COUNT)
  | off => none
  | inactive => some (d, 0)
  | laundry => some (0, 2)

/-- The pages of a queue. -/
def onQueue (v : Vm P) (pq : ℕ × Fin PQ_COUNT) : List P := (v.vmd_pagequeues pq).pq_pl
def cntOf (v : Vm P) (pq : ℕ × Fin PQ_COUNT) : ℤ := (v.vmd_pagequeues pq).pq_cnt

/-- The queue that a page's fields name. -/
def placeOf (v : Vm P) (m : P) : Option (ℕ × Fin PQ_COUNT) :=
  if (v.page m).queue = PQ_INACTIVE then some ((v.page m).domain, 0)
  else if (v.page m).queue = PQ_LAUNDRY then some (0, 2) else none

/-- The queues agree with the pages; a wired page is on none. -/
structure Booked (v : Vm P) : Prop where
  placed : Placed (onQueue v) (placeOf v)
  queue : ∀ m, ∃ k : Dest, (v.page m).queue = k.queue
  count : ∀ pq, cntOf v pq = (onQueue v pq).length
  wired : ∀ m, (v.page m).wire_count = 0 ∨ (v.page m).queue = PQ_NONE

/-- What `Booked` says of one page: it is on the queue that its fields name, once. -/
structure Filed (v : Vm P) (m : P) : Prop where
  placed : ∀ pq, (onQueue v pq).count m = if placeOf v m = some pq then 1 else 0
  queue : ∃ k : Dest, (v.page m).queue = k.queue
  wired : (v.page m).wire_count = 0 ∨ (v.page m).queue = PQ_NONE

lemma Booked.filed (h : Booked v) (m : P) : Filed v m := ⟨h.placed m, h.queue m, h.wired m⟩

namespace Filed

variable {pq : ℕ × Fin PQ_COUNT}

lemma mem_iff (h : Filed v m) : m ∈ onQueue v pq ↔ placeOf v m = some pq := by
  rw [← List.count_pos_iff, h.placed pq]
  split <;> simp_all

lemma notMem (h : Filed v m) (hq : (v.page m).queue = PQ_NONE) : m ∉ onQueue v pq := by
  rw [h.mem_iff, placeOf, hq]
  exact fun he => nomatch he

lemma notMem_erase (h : Filed v m) : m ∉ (onQueue v pq).erase m := by
  rw [← List.count_pos_iff, List.count_erase_self, h.placed pq]
  split <;> simp

end Filed

/-- The call has changed fields of `m` only, and no queue. -/
structure Still (v : Vm P) (m : P) (v' : Vm P) : Prop where
  others : ∀ x, x ≠ m → v'.page x = v.page x
  domain : (v'.page m).domain = (v.page m).domain
  queue : (v'.page m).queue = (v.page m).queue
  wired : (v'.page m).wire_count = 0 ∨ (v'.page m).queue = PQ_NONE
  queues : v'.vmd_pagequeues = v.vmd_pagequeues

/-- The call has sent `m` to `k`. -/
structure Sent (v : Vm P) (m : P) (k : Dest) (v' : Vm P) : Prop where
  others : ∀ x, x ≠ m → v'.page x = v.page x
  domain : (v'.page m).domain = (v.page m).domain
  queue : (v'.page m).queue = k.queue
  wired : (v'.page m).wire_count = 0 ∨ (v'.page m).queue = PQ_NONE
  pages : ∀ pq, onQueue v' pq =
    (onQueue v pq).erase m ++ if k.place (v.page m).domain = some pq then [m] else []
  count : ∀ pq, cntOf v' pq - (onQueue v' pq).length =
    cntOf v pq - (onQueue v pq).length

/-- The effect of a call: `none` leaves the queues alone. -/
def Moved (v : Vm P) (m : P) : Option Dest → Vm P → Prop
  | none, v' => Still v m v'
  | some k, v' => Sent v m k v'

/-- The effect of a call with the ids: only an insertion to the inactive queue draws one. -/
structure Stamped (v : Vm P) (m : P) (o : Option Dest) (v' : Vm P) : Prop where
  moved : Moved v m o v'
  drawn : o = some .inactive →
    (v'.page m).id = v.pg_cnt ∧ v'.pg_cnt = (v.pg_cnt + 1) % ULONG_SIZE
  kept : o ≠ some .inactive → (v'.page m).id = (v.page m).id ∧ v'.pg_cnt = v.pg_cnt

omit [DecidableEq P] in
lemma placeOf_eq {k : Dest} (h : (v.page m).queue = k.queue) :
    placeOf v m = k.place (v.page m).domain := by
  unfold placeOf
  rw [h]
  cases k <;> rfl

lemma Booked.still (h : Booked v) (hs : Still v m v') : Booked v' := by
  have hplace : placeOf v' = placeOf v := by
    funext x
    unfold placeOf
    rcases eq_or_ne x m with rfl | hx
    · rw [hs.queue, hs.domain]
    · rw [hs.others x hx]
  have hpages : onQueue v' = onQueue v := by
    unfold onQueue
    rw [hs.queues]
  constructor
  case placed => rw [hpages, hplace]; exact h.placed
  case queue =>
    intro x
    rcases eq_or_ne x m with rfl | hx
    · rw [hs.queue]; exact h.queue x
    · rw [hs.others x hx]; exact h.queue x
  case count =>
    intro pq
    rw [hpages, ← h.count pq]
    unfold cntOf
    rw [hs.queues]
  case wired =>
    intro x
    rcases eq_or_ne x m with rfl | hx
    · exact hs.wired
    · rw [hs.others x hx]; exact h.wired x

lemma Booked.sent (h : Booked v) {k : Dest} (hs : Sent v m k v') : Booked v' := by
  have hplace : placeOf v' = Function.update (placeOf v) m (k.place (v.page m).domain) := by
    funext x
    rcases eq_or_ne x m with rfl | hx
    · rw [Function.update_self, placeOf_eq hs.queue, hs.domain]
    · rw [Function.update_of_ne hx]
      unfold placeOf
      rw [hs.others x hx]
  constructor
  case placed =>
    rw [hplace]
    exact h.placed.move fun pq => List.Perm.of_eq (hs.pages pq)
  case queue =>
    intro x
    rcases eq_or_ne x m with rfl | hx
    · exact ⟨k, hs.queue⟩
    · rw [hs.others x hx]; exact h.queue x
  case count =>
    intro pq
    have h1 := hs.count pq
    have h2 := h.count pq
    omega
  case wired =>
    intro x
    rcases eq_or_ne x m with rfl | hx
    · exact hs.wired
    · rw [hs.others x hx]; exact h.wired x

lemma Booked.moved (h : Booked v) {o : Option Dest} (hm : Moved v m o v') : Booked v' := by
  cases o with
  | none => exact h.still hm
  | some k => exact h.sent hm

/-! ### One page -/

omit [DecidableEq P] in
lemma Still.placeOf_eq (hs : Still v m v') : placeOf v' m = placeOf v m := by
  unfold placeOf
  rw [hs.queue, hs.domain]

lemma Sent.placeOf_eq {k : Dest} (hs : Sent v m k v') :
    placeOf v' m = k.place (v.page m).domain := by
  rw [Pager.placeOf_eq hs.queue, hs.domain]

namespace Filed

lemma still (h : Filed v m) (hs : Still v m v') : Filed v' m := by
  refine ⟨fun pq => ?_, ?_, hs.wired⟩
  · rw [hs.placeOf_eq, ← h.placed pq]
    unfold onQueue
    rw [hs.queues]
  · rw [hs.queue]
    exact h.queue

lemma sent (h : Filed v m) {k : Dest} (hs : Sent v m k v') : Filed v' m := by
  refine ⟨fun pq => ?_, ⟨k, hs.queue⟩, hs.wired⟩
  rw [hs.placeOf_eq, hs.pages pq, List.count_append,
    List.count_eq_zero_of_not_mem h.notMem_erase]
  split <;> simp

lemma other {x : P} {o : Option Dest} (h : Filed v x) (hm : Moved v m o v') (hx : x ≠ m) :
    Filed v' x := by
  have hsame : v'.page x = v.page x ∧ ∀ pq, (onQueue v' pq).count x = (onQueue v pq).count x := by
    cases o with
    | none => exact ⟨hm.others x hx, fun pq => by unfold onQueue; rw [hm.queues]⟩
    | some k =>
      refine ⟨hm.others x hx, fun pq => ?_⟩
      rw [hm.pages pq, List.count_append, List.count_erase_of_ne hx]
      split <;> simp [hx.symm]
  refine ⟨fun pq => ?_, ?_, ?_⟩
  · rw [hsame.2 pq, h.placed pq]
    unfold placeOf
    rw [hsame.1]
  · rw [hsame.1]
    exact h.queue
  · rw [hsame.1]
    exact h.wired

lemma moved (h : Filed v m) {o : Option Dest} (hm : Moved v m o v') : Filed v' m := by
  cases o with
  | none => exact h.still hm
  | some k => exact h.sent hm

end Filed

/-! ### The effects follow one another -/

omit [DecidableEq P] in
lemma Still.refl (hw : (v.page m).wire_count = 0 ∨ (v.page m).queue = PQ_NONE) : Still v m v :=
  ⟨fun _ _ => rfl, rfl, rfl, hw, rfl⟩

lemma Still.sent {v₁ : Vm P} {k : Dest} (h : Still v m v₁) (h' : Sent v₁ m k v') :
    Sent v m k v' := by
  constructor
  case others => exact fun x hx => (h'.others x hx).trans (h.others x hx)
  case domain => exact h'.domain.trans h.domain
  case queue => exact h'.queue
  case wired => exact h'.wired
  case pages =>
    intro pq
    rw [h'.pages, h.domain]
    unfold onQueue
    rw [h.queues]
  case count =>
    intro pq
    rw [h'.count pq]
    unfold cntOf onQueue
    rw [h.queues]

omit [DecidableEq P] in
lemma Still.still {v₁ : Vm P} (h : Still v m v₁) (h' : Still v₁ m v') : Still v m v' :=
  ⟨fun x hx => (h'.others x hx).trans (h.others x hx), h'.domain.trans h.domain,
    h'.queue.trans h.queue, h'.wired, h'.queues.trans h.queues⟩

lemma Still.moved {v₁ : Vm P} {o : Option Dest} (h : Still v m v₁) (h' : Moved v₁ m o v') :
    Moved v m o v' := by
  cases o with
  | none => exact h.still h'
  | some k => exact h.sent h'

lemma Sent.still {v₁ : Vm P} {k : Dest} (h : Sent v m k v₁) (h' : Still v₁ m v') :
    Sent v m k v' := by
  constructor
  case others => exact fun x hx => (h'.others x hx).trans (h.others x hx)
  case domain => exact h'.domain.trans h.domain
  case queue => exact h'.queue.trans h.queue
  case wired => exact h'.wired
  case pages =>
    intro pq
    rw [← h.pages pq]
    unfold onQueue
    rw [h'.queues]
  case count =>
    intro pq
    rw [← h.count pq]
    unfold cntOf onQueue
    rw [h'.queues]

lemma Sent.sent {v₁ : Vm P} {k : Dest} (hv : Filed v m) (h : Sent v m .off v₁)
    (h' : Sent v₁ m k v') : Sent v m k v' := by
  constructor
  case others => exact fun x hx => (h'.others x hx).trans (h.others x hx)
  case domain => exact h'.domain.trans h.domain
  case queue => exact h'.queue
  case wired => exact h'.wired
  case pages =>
    intro pq
    rw [h'.pages pq, h.pages pq, h.domain]
    simp only [Dest.place, reduceCtorEq, if_false, List.append_nil]
    rw [List.erase_of_not_mem hv.notMem_erase]
  case count => exact fun pq => (h'.count pq).trans (h.count pq)

lemma Stamped.after {v₁ : Vm P} {o : Option Dest} (h : Stamped v₁ m o v')
    (hm : Moved v m o v') (hid : (v₁.page m).id = (v.page m).id) (hcnt : v₁.pg_cnt = v.pg_cnt) :
    Stamped v m o v' := by
  constructor
  case moved => exact hm
  case drawn => exact fun ho => hcnt ▸ h.drawn ho
  case kept => exact fun ho => (h.kept ho).imp (fun h => h.trans hid) fun h => h.trans hcnt

lemma Stamped.refl (hw : (v.page m).wire_count = 0 ∨ (v.page m).queue = PQ_NONE) :
    Stamped v m none v :=
  ⟨Still.refl hw, fun ho => (nomatch ho), fun _ => ⟨rfl, rfl⟩⟩

end Messaround.Pager
