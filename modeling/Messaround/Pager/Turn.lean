import Messaround.Pager.Calls
import Messaround.Pager.Stats

/-!
One turn of the scan of the inactive queue.

It takes an ordinary page off the queue and frees it, sends it to the laundry or drops it. The
marker that keeps the place is gone at the end of the turn.
-/

namespace Messaround.Pager

variable {P : Type} [DecidableEq P] {s s' : Memory P} {vmd : Domain P} {m : P}
  {modified : P → Bool} {kept l : List P} {n : ℤ}

/-- What becomes of a page. -/
inductive Fate
  | freed
  | laundered
  | dropped
  deriving DecidableEq

def Fate.dest : Fate → Dest
  | freed => .off
  | laundered => .laundry
  | dropped => .off

/-- The dirty bits after the dirty test. -/
def testedDirty (p : Page) (object : VmObject) (modified : Bool) : BitVec 8 :=
  if object.ref_count ≠ 0 ∧ p.dirty ≠ VM_PAGE_BITS_ALL ∧ modified then VM_PAGE_BITS_ALL
  else p.dirty

/-- Invalid and clean pages are freed, dirty ones laundered unless their object is dead. -/
def fateIn (s : Memory P) (modified : P → Bool) (m : P) (object : VmObject) : Fate :=
  if (s.use m).valid = 0 ∨ testedDirty (s.vm.page m) object (modified m) = 0 then .freed
  else if object.dead then .dropped else .laundered

def fateOf (s : Memory P) (modified : P → Bool) (m : P) : Fate :=
  (s.vm.page m).object.elim .dropped fun o => fateIn s modified m (s.vm_object o)

/-- What the scan relies on for a page of the queue. -/
structure Scannable (s : Memory P) (m : P) : Prop where
  filed : Filed s.vm m
  managed : (s.vm.page m).oflags &&& VPO_UNMANAGED = 0
  real : (s.vm.page m).flags &&& PG_FICTITIOUS = 0
  object : (s.vm.page m).object ≠ none

/-- A queue as the scan finds it: of markers, but not its own, and pages. -/
structure InactiveQueue (s : Memory P) (vmd : Domain P) : Prop where
  nodup : (inactivePages s vmd).Nodup
  marker : vmd.vmd_marker ∉ inactivePages s vmd
  scannable : ∀ m ∈ inactivePages s vmd, (s.vm.page m).flags &&& PG_MARKER = 0 → Scannable s m

/-- The effect of one turn: `m` has met its fate, and nothing else has changed. -/
structure Taken (s : Memory P) (m : P) (f : Fate) (s' : Memory P) : Prop where
  stamped : Stamped s.vm m (some f.dest) s'.vm
  use : ∀ x, x ≠ m → s'.use x = s.use x
  vm_object : s'.vm_object = s.vm_object
  free : s'.free = s.free ++ if f = .freed then [m] else []

/-! ### The routines that free a page -/

lemma vm_page_remove_eq (hb : (s.use m).busy_lock = VPB_UNBUSIED) :
    vm_page_remove s m = s.setPage m { s.vm.page m with object := none } := by
  have hx : ¬vm_page_xbusied s m := by
    unfold vm_page_xbusied
    rw [hb]
    decide
  unfold vm_page_remove
  rw [if_neg hx]
  split
  next h =>
    have hp : { s.vm.page m with object := none } = s.vm.page m := by
      rw [← h]
    rw [hp, Memory.setPage_self]
  next => rfl

lemma vm_page_free_prep_eq (hq : (s.vm.page m).queue = PQ_NONE)
    (hw : (s.vm.page m).wire_count = 0) (hf : (s.vm.page m).flags &&& PG_FICTITIOUS = 0)
    (hh : (s.use m).hold_count = 0) (hb : (s.use m).busy_lock = VPB_UNBUSIED) :
    vm_page_free_prep s m = .ok (true,
      (s.setPage m { s.vm.page m with object := none, dirty := 0 }).setUse m
        { s.use m with valid := 0 }) := by
  have hsb : ¬vm_page_sbusied s m := fun h => h.2 hb
  have hreal : (s.vm.page m).flags &&& 4#16 = 0#16 := hf
  unfold vm_page_free_prep
  rw [if_neg hsb, if_neg (not_not.mpr hq), ok_bind]
  simp only [vm_page_remove_eq hb]
  simp [hreal, hw, hh, vm_page_undirty, Vm.setPage, Memory.setPage, Memory.setUse]
  rfl

lemma vm_page_free_eq (hq : (s.vm.page m).queue = PQ_NONE) (hw : (s.vm.page m).wire_count = 0)
    (hf : (s.vm.page m).flags &&& PG_FICTITIOUS = 0) (hh : (s.use m).hold_count = 0)
    (hb : (s.use m).busy_lock = VPB_UNBUSIED) : ∃ p u, vm_page_free s m = .ok
      { (s.setPage m p).setUse m u with free := s.free ++ [m] } ∧
      p.queue = PQ_NONE ∧ p.wire_count = 0 ∧ p.domain = (s.vm.page m).domain ∧
      p.id = (s.vm.page m).id := by
  have hflags : (s.vm.page m).flags &&& ~~~PG_ZERO &&& PG_FICTITIOUS = 0 := by
    rw [BitVec.and_assoc, BitVec.and_comm (~~~PG_ZERO), ← BitVec.and_assoc, hf]
    simp
  have hprep := @vm_page_free_prep_eq P _
    (s.setPage m { s.vm.page m with flags := (s.vm.page m).flags &&& ~~~PG_ZERO }) m
    (by simpa using hq) (by simpa using hw) (by rw [Memory.page_setPage, Function.update_self]; exact hflags)
    hh hb
  unfold vm_page_free vm_page_free_toq
  rw [hprep, Memory.setPage_setPage]
  refine ⟨_, _, rfl, ?_, ?_, ?_, ?_⟩
  all_goals simp [hq, hw]

lemma stamped_setPage {v : Vm P} {p : Page} (h : Filed v m) (hq : (v.page m).queue = PQ_NONE)
    (hpq : p.queue = PQ_NONE) (hd : p.domain = (v.page m).domain) (hid : p.id = (v.page m).id) :
    Stamped v m (some .off) (v.setPage m p) := by
  refine ⟨?_, fun ho => (nomatch ho), fun _ => ⟨by simp [hid], rfl⟩⟩
  constructor
  case others => exact fun x hx => Function.update_of_ne hx _ _
  case domain => simp [hd]
  case queue => simp [hpq, Dest.queue]
  case wired => exact Or.inr (by simp [hpq])
  case pages =>
    intro pq
    rw [List.erase_of_not_mem (h.notMem hq)]
    simp [Dest.place, onQueue]
  case count => exact fun pq => rfl

lemma vm_page_test_dirty_eq (s : Memory P) (m : P) (b : Bool) : vm_page_test_dirty s m b =
    s.setPage m { s.vm.page m with dirty :=
      if (s.vm.page m).dirty ≠ VM_PAGE_BITS_ALL ∧ b then VM_PAGE_BITS_ALL
      else (s.vm.page m).dirty } := by
  unfold vm_page_test_dirty
  split
  · rfl
  · exact (s.setPage_self m).symm

lemma settlePage_eq {object : VmObject} (h : Filed s.vm m) (hq : (s.vm.page m).queue = PQ_NONE)
    (hw : (s.vm.page m).wire_count = 0) (hman : (s.vm.page m).oflags &&& VPO_UNMANAGED = 0)
    (hf : (s.vm.page m).flags &&& PG_FICTITIOUS = 0) (hh : (s.use m).hold_count = 0)
    (hb : (s.use m).busy_lock = VPB_UNBUSIED) : ∃ s',
      settlePage s m (modified m) object =
        .ok (fateIn s modified m object = .freed, s') ∧
      Taken s m (fateIn s modified m object) s' := by
  set tested := testedDirty (s.vm.page m) object (modified m) with htested
  have htest : (if object.ref_count ≠ 0 then vm_page_test_dirty s m (modified m) else s) =
      s.setPage m { s.vm.page m with dirty := tested } := by
    rw [vm_page_test_dirty_eq, htested, testedDirty]
    by_cases hr : object.ref_count ≠ 0
    · simp only [hr, if_true, ne_eq, not_false_eq_true, true_and]
    · rw [if_neg hr, if_neg fun h => hr h.1]
      exact (s.setPage_self m).symm
  have hfree : ∀ d, ∃ s', vm_page_free (s.setPage m { s.vm.page m with dirty := d }) m = .ok s' ∧
      Taken s m .freed s' := fun d => by
    obtain ⟨p, u, heq, hpq, hpw, hpd, hpid⟩ := @vm_page_free_eq P _
      (s.setPage m { s.vm.page m with dirty := d }) m (by simpa using hq) (by simpa using hw)
      (by rw [Memory.page_setPage, Function.update_self]; exact hf) hh hb
    rw [Memory.setPage_setPage] at heq
    simp only [Memory.page_setPage, Function.update_self] at hpd hpid
    refine ⟨_, heq, stamped_setPage h hq hpq hpd hpid, fun x hx => ?_, rfl, rfl⟩
    exact Function.update_of_ne hx _ _
  unfold settlePage fateIn
  rw [htest]
  by_cases hv : (s.use m).valid = 0
  · obtain ⟨s', heq, ht⟩ := hfree (s.vm.page m).dirty
    have hself : s.setPage m { s.vm.page m with dirty := (s.vm.page m).dirty } = s :=
      s.setPage_self m
    rw [hself] at heq
    rw [if_pos hv, if_pos (Or.inl hv), heq]
    exact ⟨s', rfl, ht⟩
  rw [if_neg hv]
  have hdirty : ((s.setPage m { s.vm.page m with dirty := tested }).vm.page m).dirty = tested := by
    simp
  have hst : Stamped s.vm m (some .off) (s.vm.setPage m { s.vm.page m with dirty := tested }) :=
    stamped_setPage h hq hq rfl rfl
  dsimp only
  rw [hdirty]
  by_cases hd : tested = 0
  · obtain ⟨s', heq, ht⟩ := hfree tested
    rw [if_pos hd, if_pos (Or.inr hd), heq]
    exact ⟨s', rfl, ht⟩
  rw [if_neg hd, if_neg (not_or.mpr ⟨hv, hd⟩)]
  cases object.dead with
  | true => exact ⟨_, rfl, hst, fun _ _ => rfl, rfl, (List.append_nil _).symm⟩
  | false =>
    -- the page goes on from no queue to the laundry
    obtain ⟨v', heq, hl⟩ := vm_page_launder_eq (h.moved hst.moved)
    have hpage : (s.vm.setPage m { s.vm.page m with dirty := tested }).page m =
        { s.vm.page m with dirty := tested } := by simp
    have hne : (s.vm.page m).queue ≠ PQ_LAUNDRY := by
      rw [hq]
      decide
    rw [hpage, if_pos hne, if_pos ⟨hw, hman⟩] at hl
    have hrun : (s.setPage m { s.vm.page m with dirty := tested }).onVm (vm_page_launder · m) =
        .ok { s with vm := v' } := Memory.onVm_eq heq
    refine ⟨{ s with vm := v' }, ?_, hl.after (Sent.sent h hst.moved hl.moved) (by simp) rfl,
      fun _ _ => rfl, rfl, (List.append_nil _).symm⟩
    rw [hrun]
    rfl

/-! ### One turn of the loop -/

section turn

variable {v v₃ : Vm P} {pq : ℕ × Fin PQ_COUNT} {marker : P}

/-- The queue while the marker keeps the place of `m`. -/
def marked (v : Vm P) (pq : ℕ × Fin PQ_COUNT) (pages : List P) : Vm P :=
  v.setPagequeue pq { v.vmd_pagequeues pq with pq_pl := pages }

omit [DecidableEq P] in
lemma onQueue_marked_self (v : Vm P) (pages : List P) : onQueue (marked v pq pages) pq = pages := by
  simp [onQueue, marked, Vm.setPagequeue]

omit [DecidableEq P] in
lemma onQueue_marked {pq' : ℕ × Fin PQ_COUNT} (v : Vm P) (pages : List P) (h : pq' ≠ pq) :
    onQueue (marked v pq pages) pq' = onQueue v pq' := by
  simp [onQueue, marked, Vm.setPagequeue, h]

omit [DecidableEq P] in
lemma cntOf_marked {pq' : ℕ × Fin PQ_COUNT} (v : Vm P) (pages : List P) :
    cntOf (marked v pq pages) pq' = cntOf v pq' := by
  rcases eq_or_ne pq' pq with rfl | h
  · simp [cntOf, marked, Vm.setPagequeue]
  · simp [cntOf, marked, Vm.setPagequeue, h]

lemma Filed.marked (h : Filed v m) (hq : onQueue v pq = kept ++ m :: l) (hm : marker ≠ m) :
    Filed (marked v pq (kept ++ m :: marker :: l)) m := by
  refine ⟨fun pq' => ?_, h.queue, h.wired⟩
  have hcount : (onQueue (Pager.marked v pq (kept ++ m :: marker :: l)) pq').count m =
      (onQueue v pq').count m := by
    rcases eq_or_ne pq' pq with rfl | hne
    · rw [onQueue_marked_self, hq]
      simp [hm]
    · rw [onQueue_marked v _ hne]
  rw [hcount]
  exact h.placed pq'

/-- What happens to `m` while the marker stands behind it also happens without the marker. -/
lemma Sent.unmark {k : Dest} (hq : onQueue v pq = kept ++ m :: l) (hnd : (onQueue v pq).Nodup)
    (hk : k.place (v.page m).domain ≠ some pq)
    (hs : Sent (marked v pq (kept ++ m :: marker :: l)) m k v₃) :
    onQueue v₃ pq = kept ++ marker :: l ∧ Sent v m k (marked v₃ pq (kept ++ l)) := by
  have hmk : m ∉ kept := (notMem_parts (hq ▸ hnd)).1
  have hq₃ : onQueue v₃ pq = kept ++ marker :: l := by
    rw [hs.pages pq, onQueue_marked_self, erase_append_cons hmk]
    have hplace : k.place ((marked v pq (kept ++ m :: marker :: l)).page m).domain ≠ some pq := hk
    rw [if_neg hplace, List.append_nil]
  refine ⟨hq₃, ?_⟩
  constructor
  case others => exact hs.others
  case domain => exact hs.domain
  case queue => exact hs.queue
  case wired => exact hs.wired
  case pages =>
    intro pq'
    rcases eq_or_ne pq' pq with rfl | hne
    · rw [onQueue_marked_self, hq, erase_append_cons hmk, if_neg hk, List.append_nil]
    · rw [onQueue_marked _ _ hne, hs.pages pq', onQueue_marked _ _ hne]
      rfl
  case count =>
    intro pq'
    have hcount := hs.count pq'
    rw [cntOf_marked] at hcount ⊢
    rcases eq_or_ne pq' pq with rfl | hne
    · rw [onQueue_marked_self, hq₃] at hcount
      rw [onQueue_marked_self, hq]
      simp only [List.length_append, List.length_cons] at hcount ⊢
      omega
    · rwa [onQueue_marked _ _ hne] at hcount ⊢

end turn

lemma Fate.place_ne (f : Fate) (d : ℕ) : f.dest.place d ≠ some (d, 0) := by
  cases f with
  | freed => exact fun h => nomatch h
  | laundered =>
    intro h
    have hidx : (2 : Fin PQ_COUNT) = 0 := congrArg Prod.snd (Option.some.inj h)
    exact absurd hidx (by decide)
  | dropped => exact fun h => nomatch h

lemma InactiveQueue.scannable_of (h : InactiveQueue s vmd) (hm : m ∈ inactivePages s vmd)
    (hs : ¬Skipped s m) : Scannable s m :=
  h.scannable m hm (not_not.mp fun hf => hs (Or.inl hf))

lemma Filed.of_mem_inactive (h : Filed s.vm m) (hm : m ∈ inactivePages s vmd) :
    (s.vm.page m).queue = PQ_INACTIVE ∧ (s.vm.page m).domain = vmd.index := by
  have hp : placeOf s.vm m = some (vmd.index, 0) := h.mem_iff.mp hm
  unfold placeOf at hp
  split at hp
  next hq => exact ⟨hq, congrArg Prod.fst (Option.some.inj hp)⟩
  next =>
    split at hp
    · have hidx : (2 : Fin PQ_COUNT) = 0 := congrArg Prod.snd (Option.some.inj hp)
      exact absurd hidx (by decide)
    · cases hp

lemma scanPage_skipped (h : InactiveQueue s vmd) (hq : inactivePages s vmd = kept ++ m :: l)
    (hm : Skipped s m) : scanPage s m vmd modified n = .ok (l.head?, n, s) := by
  have hmk : m ∉ kept := (notMem_parts (hq ▸ h.nodup)).1
  have hnext : TAILQ_NEXT m (s.vm.vmd_pagequeues (inactive vmd)).pq_pl = l.head? := by
    rw [show (s.vm.vmd_pagequeues (inactive vmd)).pq_pl = kept ++ m :: l from hq,
      TAILQ_NEXT_append hmk]
  unfold scanPage
  dsimp only
  rw [hnext]
  by_cases hf : (s.vm.page m).flags &&& PG_MARKER ≠ 0
  · rw [if_pos hf]
    rfl
  rw [if_neg hf]
  by_cases hh : (s.use m).hold_count ≠ 0
  · rw [if_pos hh]
    rfl
  have hb : vm_page_busied s m := (hm.resolve_left hf).resolve_left hh
  obtain ⟨o, ho⟩ := Option.ne_none_iff_exists'.mp
    (h.scannable m (by rw [hq]; simp) (not_not.mp hf)).object
  rw [if_neg hh, ho]
  dsimp only
  rw [if_pos hb]
  rfl

/-- A turn on an ordinary page: the marker goes behind the page, the page leaves the queue and is
settled, and the marker leaves. -/
lemma scanPage_eq {s₂ s₃ : Memory P} {freed : Bool} (hq : inactivePages s vmd = kept ++ m :: l)
    (hmk : m ∉ kept) (hmarker : vmd.vmd_marker ∉ kept) (hm : ¬Skipped s m)
    (ho : (s.vm.page m).object = some o)
    (hdeq : Memory.onVm
      { s with vm := marked s.vm (inactive vmd) (kept ++ m :: vmd.vmd_marker :: l) }
      (vm_page_dequeue_locked · m) = .ok s₂)
    (hset : settlePage s₂ m (modified m) (s₂.vm_object o) = .ok (freed, s₃))
    (hq₃ : onQueue s₃.vm (inactive vmd) = kept ++ vmd.vmd_marker :: l) :
    scanPage s m vmd modified n = .ok (l.head?, if freed then n - 1 else n,
      { s₃ with vm := marked s₃.vm (inactive vmd) (kept ++ l) }) := by
  obtain ⟨hflags, hm'⟩ := not_or.mp hm
  obtain ⟨hhold, hbusy⟩ := not_or.mp hm'
  have hpl₃ : (s₃.vm.vmd_pagequeues (inactive vmd)).pq_pl = kept ++ vmd.vmd_marker :: l := hq₃
  have hins : TAILQ_INSERT_AFTER m vmd.vmd_marker (s.vm.vmd_pagequeues (inactive vmd)).pq_pl =
      kept ++ m :: vmd.vmd_marker :: l := by
    rw [show (s.vm.vmd_pagequeues (inactive vmd)).pq_pl = kept ++ m :: l from hq,
      TAILQ_INSERT_AFTER_append hmk]
  have hnext : TAILQ_NEXT vmd.vmd_marker (s₃.vm.vmd_pagequeues (inactive vmd)).pq_pl =
      l.head? := by
    rw [hpl₃, TAILQ_NEXT_append hmarker]
  have hremove : s₃.onVm (fun v => do
      let l ← TAILQ_REMOVE .notQueued (s₃.vm.vmd_pagequeues (inactive vmd)).pq_pl vmd.vmd_marker
      return v.setPagequeue (inactive vmd)
        { s₃.vm.vmd_pagequeues (inactive vmd) with pq_pl := l }) =
      .ok { s₃ with vm := marked s₃.vm (inactive vmd) (kept ++ l) } := by
    refine Memory.onVm_eq ?_
    rw [hpl₃, TAILQ_REMOVE_eq (by simp), erase_append_cons hmarker]
    rfl
  unfold scanPage
  dsimp only
  rw [if_neg hflags, if_neg hhold, ho]
  dsimp only
  rw [if_neg hbusy, hins]
  change (Memory.onVm
    { s with vm := marked s.vm (inactive vmd) (kept ++ m :: vmd.vmd_marker :: l) }
    (vm_page_dequeue_locked · m) >>= _) = _
  rw [hdeq, ok_bind, hset, ok_bind]
  dsimp only
  rw [hnext, hremove, ok_bind]
  rfl

/-- **One turn**: an ordinary page meets its fate. -/
lemma scanPage_taken (h : InactiveQueue s vmd) (hq : inactivePages s vmd = kept ++ m :: l)
    (hm : ¬Skipped s m) : ∃ s', scanPage s m vmd modified n =
      .ok (l.head?, if fateOf s modified m = .freed then n - 1 else n, s') ∧
      Taken s m (fateOf s modified m) s' := by
  have hmem : m ∈ inactivePages s vmd := by rw [hq]; simp
  have hsc := h.scannable_of hmem hm
  obtain ⟨-, hm'⟩ := not_or.mp hm
  obtain ⟨hhold, hbusy⟩ := not_or.mp hm'
  obtain ⟨hqueue, hdomain⟩ := hsc.filed.of_mem_inactive hmem
  obtain ⟨o, ho⟩ := Option.ne_none_iff_exists'.mp hsc.object
  have hmarker : vmd.vmd_marker ≠ m := fun he => h.marker (he ▸ hmem)
  have hmarkerk : vmd.vmd_marker ∉ kept := fun hmem => h.marker (by rw [hq]; simp [hmem])
  have hwired := hsc.filed.wired.resolve_right (by rw [hqueue]; decide)
  have hmk : m ∉ kept := (notMem_parts (hq ▸ h.nodup)).1
  -- the marker is put behind the page, and the page taken off
  set v₁ := marked s.vm (inactive vmd) (kept ++ m :: vmd.vmd_marker :: l) with hv₁
  have hf₁ : Filed v₁ m := hsc.filed.marked hq hmarker
  obtain ⟨v₂, heq₂, hs₂, hpage₂, hcnt₂⟩ := vm_page_dequeue_sent hf₁
    (show (v₁.page m).queue ≠ PQ_NONE by rw [show v₁.page = s.vm.page from rfl, hqueue]; decide)
  have hpage : v₂.page m = { s.vm.page m with queue := PQ_NONE } := hpage₂
  have hdeq : Memory.onVm { s with vm := v₁ } (vm_page_dequeue_locked · m) =
      .ok { s with vm := v₂ } := Memory.onVm_eq heq₂
  -- then it meets its fate
  have hfate : fateIn { s with vm := v₂ } modified m (s.vm_object o) = fateOf s modified m := by
    unfold fateOf fateIn testedDirty
    rw [ho, hpage]
    rfl
  obtain ⟨s₃, heq₃, ht₃⟩ := @settlePage_eq P _ { s with vm := v₂ } m modified (s.vm_object o)
    (hf₁.sent hs₂) hs₂.queue (by rw [hpage]; exact hwired) (by rw [hpage]; exact hsc.managed)
    (by rw [hpage]; exact hsc.real) (not_not.mp hhold) (not_not.mp hbusy)
  rw [hfate] at heq₃ ht₃
  -- and the marker leaves the queue
  obtain ⟨hq₃, hs₄⟩ := Sent.unmark hq h.nodup (hdomain ▸ (fateOf s modified m).place_ne _)
    (Sent.sent hf₁ hs₂ ht₃.stamped.moved)
  refine ⟨{ s₃ with vm := marked s₃.vm (inactive vmd) (kept ++ l) }, ?_, ?_⟩
  · rw [scanPage_eq hq hmk hmarkerk hm ho hdeq heq₃ hq₃]
    simp only [decide_eq_true_eq]
  · constructor
    case stamped =>
      refine ⟨hs₄, fun ho => ?_, fun ho => ?_⟩
      · cases hfo : fateOf s modified m <;> rw [hfo] at ho <;> cases ho
      · obtain ⟨hid, hcnt⟩ := ht₃.stamped.kept ho
        have hid₂ : (v₂.page m).id = (s.vm.page m).id := by rw [hpage]
        exact ⟨hid.trans hid₂, hcnt.trans hcnt₂⟩
    case use => exact ht₃.use
    case vm_object => exact ht₃.vm_object
    case free => exact ht₃.free

end Messaround.Pager
