import Mathlib.Data.Finset.Basic
import Messaround.Pager.Order

/-!
The ids of the inactive queue when several threads put pages to it.

`vm_page_enqueue` draws the id of a page before it takes the lock of the queue, so that
other pages can be inserted between its two steps; `_vm_page_deactivate` draws it under
the lock. The lock of a page keeps the operations on it apart.
-/

namespace Messaround.Pager

variable {P : Type} [DecidableEq P] {v v' : Vm P} {m a b : P}

/-- The second step of `vm_page_enqueue(PQ_INACTIVE, m)`. -/
def enqueueTail (v : Vm P) (m : P) : Vm P :=
  (v.setPage m { v.page m with queue := PQ_INACTIVE }).insertTail m ((v.page m).domain, 0)

/-- The first step is the drawing of the id. -/
lemma vm_page_enqueue_steps (v : Vm P) (m : P) :
    vm_page_enqueue v m PQ_INACTIVE = .ok (enqueueTail (v.drawId m) m) := by
  rw [vm_page_enqueue_inactive]
  unfold enqueueTail
  simp

/-- The memory, the pages whose enqueue is between its two steps, and all pages that have
drawn an id, the last one first. -/
structure Conc (P : Type) where
  vm : Vm P
  inFlight : Finset P
  drawn : List P

inductive Step (P : Type)
  | draw (m : P)
  | insert (m : P)
  | deactivate (m : P) (noreuse : Bool)
  | dequeue (m : P)

namespace Step

def run (c : Conc P) : Step P → Except Fault (Conc P)
  | draw m => .ok ⟨c.vm.drawId m, Insert.insert m c.inFlight, m :: c.drawn.erase m⟩
  | insert m => .ok ⟨enqueueTail c.vm m, c.inFlight.erase m, c.drawn⟩
  | deactivate m noreuse => do
    let v ← _vm_page_deactivate c.vm m noreuse
    return { c with
      vm := v
      drawn := if v.pg_cnt = c.vm.pg_cnt then c.drawn else m :: c.drawn.erase m }
  | dequeue m => do return { c with vm := ← vm_page_dequeue c.vm m }

/-- **The two steps** one right after the other are `vm_page_enqueue`. -/
theorem draw_insert_eq (c : Conc P) (m : P) :
    ((Step.draw m).run c >>= (Step.insert m).run).map Conc.vm =
      vm_page_enqueue c.vm m PQ_INACTIVE := by
  rw [vm_page_enqueue_steps]
  rfl

/-- A page is enqueued from no queue, and nothing else happens to it meanwhile. -/
def Allowed (c : Conc P) : Step P → Prop
  | draw m => m ∉ c.inFlight ∧ (c.vm.page m).queue = PQ_NONE ∧ (c.vm.page m).wire_count = 0
  | insert m => m ∈ c.inFlight
  | deactivate m _ => m ∉ c.inFlight
  | dequeue m => m ∉ c.inFlight ∧ (c.vm.page m).queue ≠ PQ_NONE

/-- A page that has drawn its id later stands on the queue already. -/
def Overtaken (c : Conc P) : Step P → Prop
  | insert m => ∃ b ∈ inactiveQueue c.vm (c.vm.page m).domain, Ahead c.drawn b m
  | _ => False

end Step

/-- The ids grow from the head to the tail of every inactive queue. -/
def IdsGrow (v : Vm P) : Prop :=
  ∀ d, (inactiveQueue v d).Pairwise fun a b => (v.page a).id < (v.page b).id

/-- The elements of `l` have numbers below `n`, the higher the earlier they stand. -/
structure Older (f : P → ℕ) (n : ℕ) (l : List P) : Prop where
  nodup : l.Nodup
  older : l.Pairwise fun a b => f b < f a
  below : ∀ a ∈ l, f a < n

omit [DecidableEq P] in
lemma ahead_or_ahead {l : List P} (ha : a ∈ l) (hb : b ∈ l) (hne : a ≠ b) :
    Ahead l a b ∨ Ahead l b a := by
  obtain ⟨s, t, rfl⟩ := List.append_of_mem ha
  rcases List.mem_append.mp hb with hb | hb
  · refine Or.inr ((List.singleton_sublist.mpr hb).append ?_)
    exact List.Sublist.cons_cons a (List.nil_sublist t)
  · have hb := (List.mem_cons.mp hb).resolve_left hne.symm
    refine Or.inl (List.sublist_append_of_sublist_right ?_)
    exact (List.singleton_sublist.mpr hb).cons_cons a

namespace Older

variable {f f' : P → ℕ} {n : ℕ} {l : List P}

omit [DecidableEq P] in
lemma lt_of_ahead (h : Older f n l) (hab : Ahead l a b) : f b < f a := by
  have hpair := h.older.sublist hab
  simpa using hpair

omit [DecidableEq P] in
lemma congr (h : Older f n l) (hf : ∀ x, f' x = f x) : Older f' n l := by
  rw [show f' = f from funext hf]
  exact h

/-- A new number goes to the front. -/
lemma draw (h : Older f n l) (hf : ∀ x, x ≠ m → f' x = f x) (hm : f' m = n) :
    Older f' (n + 1) (m :: l.erase m) := by
  have hmem : ∀ x ∈ l.erase m, x ≠ m ∧ x ∈ l := fun x hx => h.nodup.mem_erase_iff.mp hx
  refine ⟨List.nodup_cons.mpr ⟨fun hm => (hmem m hm).1 rfl, h.nodup.erase m⟩,
    List.pairwise_cons.mpr ⟨fun x hx => ?_, ?_⟩, fun x hx => ?_⟩
  · rw [hm, hf x (hmem x hx).1]
    exact h.below x (hmem x hx).2
  · refine (h.older.sublist List.erase_sublist).imp_of_mem fun {x y} hx hy hlt => ?_
    rwa [hf x (hmem x hx).1, hf y (hmem y hy).1]
  · rcases List.mem_cons.mp hx with rfl | hx
    · rw [hm]
      exact Nat.lt_succ_self n
    · rw [hf x (hmem x hx).1]
      exact Nat.lt_succ_of_lt (h.below x (hmem x hx).2)

end Older

/-- What holds between the steps while the counter has not run over. -/
structure Drawn (c : Conc P) : Prop where
  booked : Booked c.vm
  inFlight : ∀ m ∈ c.inFlight, (c.vm.page m).queue = PQ_NONE ∧ (c.vm.page m).wire_count = 0 ∧
    m ∈ c.drawn
  queued : ∀ d, ∀ m ∈ inactiveQueue c.vm d, m ∈ c.drawn
  older : Older (fun m => (c.vm.page m).id) c.vm.pg_cnt c.drawn

lemma Booked.notMem_inactive (h : Booked v) (hq : (v.page m).queue = PQ_NONE) (d : ℕ) :
    m ∉ inactiveQueue v d := h.placed.notMem (by unfold placeOf; rw [hq]; rfl) _

lemma still_drawId (h : Booked v) : Still v m (v.drawId m) := by
  constructor
  case others => exact fun x hx => Function.update_of_ne hx _ _
  case domain => simp
  case queue => simp
  case wired => simpa using h.wired m
  case queues => rfl

lemma Sent.inactive_eq (hs : Sent v m .inactive v') (d : ℕ) :
    inactiveQueue v' d = (inactiveQueue v d).erase m ++
      if (v.page m).domain = d then [m] else [] := by
  unfold inactiveQueue
  rw [hs.pages (d, 0)]
  simp [Dest.place]

lemma Sent.mem_inactive (hs : Sent v m .inactive v') {d : ℕ} {x : P}
    (hx : x ∈ inactiveQueue v' d) : x = m ∨ x ∈ inactiveQueue v d := by
  rw [hs.inactive_eq d] at hx
  rcases List.mem_append.mp hx with hx | hx
  · exact Or.inr (List.mem_of_mem_erase hx)
  · split at hx
    · exact Or.inl (List.mem_singleton.mp hx)
    · cases hx

lemma sent_enqueueTail (h : Booked v) (hq : (v.page m).queue = PQ_NONE)
    (hw : (v.page m).wire_count = 0) : Sent v m .inactive (enqueueTail v m) :=
  sent_insertTail (h.filed m) hq rfl rfl rfl rfl hw rfl

lemma enqueueTail_id (v : Vm P) (m x : P) : ((enqueueTail v m).page x).id = (v.page x).id := by
  unfold enqueueTail
  rcases eq_or_ne x m with rfl | hx
  · simp
  · simp [hx]

lemma mem_drawn {l : List P} {x : P} (hx : x ∈ l) : x ∈ m :: l.erase m := by
  rcases eq_or_ne x m with rfl | hne
  · simp
  · simp [hne, List.mem_erase_of_ne, hx]

/-! ### One step -/

section step

variable {c : Conc P} (h : Drawn c)
include h

lemma Drawn.draw (hn : c.vm.pg_cnt + 1 < ULONG_SIZE)
    (ha : (Step.draw m).Allowed c) : Drawn ⟨c.vm.drawId m, insert m c.inFlight,
      m :: c.drawn.erase m⟩ := by
  obtain ⟨hfl, hq, hw⟩ := ha
  have hpage : ∀ x, x ≠ m → (c.vm.drawId m).page x = c.vm.page x :=
    fun x hx => Function.update_of_ne hx _ _
  constructor
  case booked => exact h.booked.still (still_drawId h.booked)
  case inFlight =>
    intro x hx
    rcases Finset.mem_insert.mp hx with rfl | hx
    · simp [hq, hw]
    · dsimp only
      rw [hpage x (ne_of_mem_of_not_mem hx hfl)]
      exact (h.inFlight x hx).imp_right fun hx => hx.imp_right mem_drawn
  case queued => exact fun d x hx => mem_drawn (h.queued d x hx)
  case older =>
    dsimp only
    rw [show (c.vm.drawId m).pg_cnt = c.vm.pg_cnt + 1 from Nat.mod_eq_of_lt hn]
    exact h.older.draw (fun x hx => by rw [hpage x hx]) (by simp)

lemma Drawn.insert (ha : m ∈ c.inFlight) :
    Drawn ⟨enqueueTail c.vm m, c.inFlight.erase m, c.drawn⟩ := by
  obtain ⟨hq, hw, hm⟩ := h.inFlight m ha
  have hs := sent_enqueueTail h.booked hq hw
  constructor
  case booked => exact h.booked.sent hs
  case inFlight =>
    intro x hx
    obtain ⟨hne, hx⟩ := Finset.mem_erase.mp hx
    dsimp only
    rw [hs.others x hne]
    exact h.inFlight x hx
  case queued =>
    intro d x hx
    rcases hs.mem_inactive hx with rfl | hx
    · exact hm
    · exact h.queued d x hx
  case older => exact h.older.congr (enqueueTail_id c.vm m)

lemma Drawn.deactivate {noreuse : Bool} (hn : c.vm.pg_cnt + 1 < ULONG_SIZE)
    (hs : ¬Settled (c.vm.page m) noreuse) (ha : m ∉ c.inFlight) :
    ∃ v, _vm_page_deactivate c.vm m noreuse = .ok v ∧ v.pg_cnt = c.vm.pg_cnt + 1 ∧
      (v.page m).id = c.vm.pg_cnt ∧ Sent c.vm m .inactive v ∧
      Drawn ⟨v, c.inFlight, m :: c.drawn.erase m⟩ := by
  obtain ⟨v, heq, hsent, hid, hcnt⟩ := _vm_page_deactivate_sent (h.booked.filed m) hs
  rw [Nat.mod_eq_of_lt hn] at hcnt
  refine ⟨v, heq, hcnt, hid, hsent, ?_⟩
  constructor
  case booked => exact h.booked.sent hsent
  case inFlight =>
    intro x hx
    dsimp only
    rw [hsent.others x (ne_of_mem_of_not_mem hx ha)]
    exact (h.inFlight x hx).imp_right fun hx => hx.imp_right mem_drawn
  case queued =>
    intro d x hx
    rcases hsent.mem_inactive hx with rfl | hx
    · simp
    · exact mem_drawn (h.queued d x hx)
  case older =>
    dsimp only
    rw [hcnt]
    exact h.older.draw (fun x hx => by rw [hsent.others x hx]) hid

lemma Drawn.dequeue (ha : m ∉ c.inFlight) (hq : (c.vm.page m).queue ≠ PQ_NONE) :
    ∃ v, vm_page_dequeue c.vm m = .ok v ∧ v.pg_cnt = c.vm.pg_cnt ∧ Sent c.vm m .off v ∧
      (∀ x, (v.page x).id = (c.vm.page x).id) ∧ Drawn { c with vm := v } := by
  obtain ⟨v, heq, hs, hpage, hcnt⟩ := vm_page_dequeue_sent (h.booked.filed m) hq
  have hid : ∀ x, (v.page x).id = (c.vm.page x).id := fun x => by
    rcases eq_or_ne x m with rfl | hx
    · rw [hpage]
    · rw [hs.others x hx]
  refine ⟨v, heq, hcnt, hs, hid, ?_⟩
  constructor
  case booked => exact h.booked.sent hs
  case inFlight =>
    intro x hx
    dsimp only
    rw [hs.others x (ne_of_mem_of_not_mem hx ha)]
    exact h.inFlight x hx
  case queued =>
    intro d x hx
    have hx' : x ∈ onQueue v (d, 0) := hx
    rw [hs.pages (d, 0)] at hx'
    simp only [Dest.place, reduceCtorEq, if_false, List.append_nil] at hx'
    exact h.queued d x (List.mem_of_mem_erase hx')
  case older =>
    dsimp only
    rw [hcnt]
    exact h.older.congr hid

end step

/-! ### The order of the ids -/

omit [DecidableEq P] in
/-- Pages leave, and others keep their ids. -/
lemma IdsGrow.sublist (h : IdsGrow v) (hsub : ∀ d, (inactiveQueue v' d).Sublist (inactiveQueue v d))
    (hid : ∀ d, ∀ x ∈ inactiveQueue v' d, (v'.page x).id = (v.page x).id) : IdsGrow v' := by
  intro d
  refine ((h d).sublist (hsub d)).imp_of_mem fun {x y} hx hy hlt => ?_
  rwa [hid d x hx, hid d y hy]

lemma Sent.idsGrow_iff (hb : Booked v) (hs : Sent v m .inactive v') (h : IdsGrow v) :
    IdsGrow v' ↔ ∀ x ∈ (inactiveQueue v (v.page m).domain).erase m,
      (v.page x).id < (v'.page m).id := by
  have hnd : ∀ d, (inactiveQueue v d).Nodup := fun d => hb.placed.nodup _
  have hid : ∀ d, ∀ x ∈ (inactiveQueue v d).erase m, (v'.page x).id = (v.page x).id :=
    fun d x hx => by rw [hs.others x ((hnd d).mem_erase_iff.mp hx).1]
  have hrest : ∀ d, ((inactiveQueue v d).erase m).Pairwise fun a b =>
      (v'.page a).id < (v'.page b).id := fun d =>
    ((h d).sublist List.erase_sublist).imp_of_mem fun {x y} hx hy hlt => by
      rwa [hid d x hx, hid d y hy]
  have hself : ∀ d, (v.page m).domain = d → ((inactiveQueue v' d).Pairwise (fun a b =>
      (v'.page a).id < (v'.page b).id) ↔
      ∀ x ∈ (inactiveQueue v d).erase m, (v.page x).id < (v'.page m).id) := by
    intro d hd
    rw [hs.inactive_eq d, if_pos hd, List.pairwise_append]
    constructor
    · rintro ⟨-, -, hlast⟩ x hx
      rw [← hid d x hx]
      exact hlast x hx m (by simp)
    · intro hlast
      refine ⟨hrest d, List.pairwise_singleton _ _, fun x hx y hy => ?_⟩
      rw [List.mem_singleton.mp hy, hid d x hx]
      exact hlast x hx
  constructor
  · exact fun hg => (hself _ rfl).mp (hg _)
  · intro hlast d
    by_cases hd : (v.page m).domain = d
    · exact (hself d hd).mpr (hd ▸ hlast)
    · rw [hs.inactive_eq d, if_neg hd, List.append_nil]
      exact hrest d

/-- **One step**: it goes through, and ids that grow go on growing unless the page inserted
has been overtaken. -/
lemma Step.run_spec {c : Conc P} {s : Step P} (h : Drawn c) (hn : c.vm.pg_cnt + 1 < ULONG_SIZE)
    (ha : s.Allowed c) : ∃ c', s.run c = .ok c' ∧ Drawn c' ∧
      c'.vm.pg_cnt ≤ c.vm.pg_cnt + 1 ∧
      (IdsGrow c.vm → (IdsGrow c'.vm ↔ ¬s.Overtaken c)) := by
  cases s with
  | draw m =>
    -- the page that draws is on no queue
    refine ⟨_, rfl, h.draw hn ha, Nat.mod_le _ _, fun hg => iff_of_true ?_ not_false⟩
    refine hg.sublist (fun d => List.Sublist.refl _) fun d x hx => ?_
    have hx : x ≠ m := ne_of_mem_of_not_mem hx (h.booked.notMem_inactive ha.2.1 d)
    rw [show (c.vm.drawId m).page x = c.vm.page x from Function.update_of_ne hx _ _]
  | insert m =>
    obtain ⟨hq, hw, hm⟩ := h.inFlight m ha
    refine ⟨_, rfl, h.insert ha, Nat.le_succ _, fun hg => ?_⟩
    rw [Sent.idsGrow_iff h.booked (sent_enqueueTail h.booked hq hw) hg, enqueueTail_id,
      List.erase_of_not_mem (h.booked.notMem_inactive hq _)]
    unfold Step.Overtaken
    rw [not_exists]
    refine forall_congr' fun b => ?_
    rw [not_and]
    refine forall_congr' fun hb => ?_
    -- of two pages that have drawn, the later one has the higher id
    have hbd := h.queued _ b hb
    have hne : b ≠ m := ne_of_mem_of_not_mem hb (h.booked.notMem_inactive hq _)
    constructor
    · exact fun hlt hab => lt_asymm hlt (h.older.lt_of_ahead hab)
    · intro hno
      exact h.older.lt_of_ahead ((ahead_or_ahead hbd hm hne).resolve_left hno)
  | deactivate m noreuse =>
    by_cases hs : Settled (c.vm.page m) noreuse
    · -- the page is inactive already, and nothing is done
      refine ⟨c, ?_, h, Nat.le_succ _, fun hg => iff_of_true hg not_false⟩
      dsimp only [Step.run]
      rw [_vm_page_deactivate_settled hs, ok_bind, if_pos rfl]
      rfl
    · obtain ⟨v, heq, hcnt, hid, hsent, hd⟩ := h.deactivate hn hs ha
      refine ⟨⟨v, c.inFlight, m :: c.drawn.erase m⟩, ?_, hd, hcnt.le, fun hg => ?_⟩
      · dsimp only [Step.run]
        rw [heq, ok_bind, if_neg (by omega)]
        rfl
      · refine iff_of_true ((Sent.idsGrow_iff h.booked hsent hg).mpr fun x hx => ?_) not_false
        rw [hid]
        exact h.older.below x (h.queued _ x (List.mem_of_mem_erase hx))
  | dequeue m =>
    obtain ⟨v, heq, hcnt, hs, hid, hd⟩ := h.dequeue ha.1 ha.2
    refine ⟨{ c with vm := v }, ?_, hd, hcnt.le.trans (Nat.le_succ _), fun hg => ?_⟩
    · dsimp only [Step.run]
      rw [heq, ok_bind]
      rfl
    · refine iff_of_true (hg.sublist (fun d => ?_) fun _ x _ => hid x) not_false
      unfold inactiveQueue
      rw [hs.pages (d, 0)]
      simp only [Dest.place, reduceCtorEq, if_false, List.append_nil]
      exact List.erase_sublist

/-! ### Interleavings -/

/-- Every step of the interleaving is one that some thread can take. -/
def AllowedSteps : Conc P → List (Step P) → Prop
  | _, [] => True
  | c, s :: ss => s.Allowed c ∧ ∀ c', s.run c = .ok c' → AllowedSteps c' ss

/-- The ids grow along the queues in every state of the interleaving. -/
def IdsFollow : Conc P → List (Step P) → Prop
  | c, [] => IdsGrow c.vm
  | c, s :: ss => IdsGrow c.vm ∧ ∀ c', s.run c = .ok c' → IdsFollow c' ss

/-- No page is inserted behind one that drew its id later. -/
def NoneOvertaken : Conc P → List (Step P) → Prop
  | _, [] => True
  | c, s :: ss => ¬s.Overtaken c ∧ ∀ c', s.run c = .ok c' → NoneOvertaken c' ss

lemma IdsFollow.start {c : Conc P} {steps : List (Step P)} (h : IdsFollow c steps) :
    IdsGrow c.vm := by
  cases steps with
  | nil => exact h
  | cons s ss => exact h.1

lemma idsFollow_of_drawn {c : Conc P} {steps : List (Step P)} (h : Drawn c) (hg : IdsGrow c.vm)
    (ha : AllowedSteps c steps) (hn : c.vm.pg_cnt + steps.length < ULONG_SIZE) :
    IdsFollow c steps ↔ NoneOvertaken c steps := by
  induction steps generalizing c with
  | nil => exact iff_of_true hg trivial
  | cons s ss ih =>
    rw [List.length_cons] at hn
    obtain ⟨c', hr, hd, hcnt, hstep⟩ := Step.run_spec h (by omega) ha.1
    have hc : ∀ c'', s.run c = .ok c'' → c'' = c' := fun c'' h' => Except.ok.inj (h'.symm.trans hr)
    have hrest := fun hg' => ih hd hg' (ha.2 c' hr) (by omega)
    unfold IdsFollow NoneOvertaken
    constructor
    · rintro ⟨-, hf⟩
      have hg' := (hf c' hr).start
      refine ⟨(hstep hg).mp hg', fun c'' h' => ?_⟩
      rw [hc c'' h']
      exact (hrest hg').mp (hf c' hr)
    · rintro ⟨hno, hf⟩
      refine ⟨hg, fun c'' h' => ?_⟩
      rw [hc c'' h']
      exact (hrest ((hstep hg).mpr hno)).mpr (hf c' hr)

/-- The memory after boot, before any thread runs. -/
def Conc.boot (page : P → Page) : Conc P := ⟨⟨vm_page_domain_init, page, 0⟩, ∅, []⟩

/-- **Ids and order**: in an interleaving that does not use up the counter the ids follow the
order of the queues exactly when no page is inserted behind one that drew its id later. -/
theorem idsFollow_iff {page : P → Page} (hq : ∀ m, (page m).queue = PQ_NONE)
    {steps : List (Step P)} (ha : AllowedSteps (Conc.boot page) steps)
    (hn : steps.length < ULONG_SIZE) :
    IdsFollow (Conc.boot page) steps ↔ NoneOvertaken (Conc.boot page) steps := by
  have hd : Drawn (Conc.boot page) := by
    refine ⟨booked_boot hq, fun m hm => ?_, fun d m hm => ?_, ?_⟩
    · cases hm
    · cases hm
    · exact ⟨List.nodup_nil, List.Pairwise.nil, fun _ h => by cases h⟩
  exact idsFollow_of_drawn hd (fun _ => List.Pairwise.nil) ha (by rwa [Conc.boot, Nat.zero_add])

/-- One thread enqueues a page and another deactivates a second one. -/
theorem idsFollow_iff_twoThreads :
    IdsFollow (Conc.boot freshVm.page) [.draw false, .insert false, .deactivate true false] ↔
      NoneOvertaken (Conc.boot freshVm.page)
        [.draw false, .insert false, .deactivate true false] := by
  refine idsFollow_iff (fun _ => rfl) ⟨by simp [Step.Allowed, Conc.boot, freshVm], ?_⟩ (by decide)
  rintro c' hc'
  cases hc'
  refine ⟨by simp [Step.Allowed, Conc.boot], ?_⟩
  rintro c' hc'
  cases hc'
  exact ⟨by simp [Step.Allowed, Conc.boot], fun _ _ => trivial⟩

/-- The second page is deactivated between the two steps of the enqueue of the first. -/
theorem not_idsFollow_twoThreads :
    AllowedSteps (Conc.boot freshVm.page)
        [.draw false, .deactivate true false, .insert false] ∧
      ¬IdsFollow (Conc.boot freshVm.page)
        [.draw false, .deactivate true false, .insert false] := by
  constructor
  · refine ⟨by simp [Step.Allowed, Conc.boot, freshVm], ?_⟩
    rintro c' hc'
    cases hc'
    refine ⟨by simp [Step.Allowed, Conc.boot], ?_⟩
    rintro c' hc'
    cases hc'
    exact ⟨Finset.mem_insert_self false _, fun _ _ => trivial⟩
  · intro h
    have hlast := ((h.2 _ rfl).2 _ rfl).2 _ rfl
    exact absurd (hlast 0) (by decide)

end Messaround.Pager
