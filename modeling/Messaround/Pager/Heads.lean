import Messaround.Pager.Ids
import Messaround.Pager.Reclaim

/-!
The heads that the scans print, over runs of calls and scans.

The ids grow along the inactive queue and stay below the counter. Pages join at the tail with a
new id and leave anywhere, so the id at the head never falls.
-/

namespace Messaround.Pager

variable {P : Type} [DecidableEq P] {v v' : Vm P} {s s' : Memory P} {vmd : Domain P} {m : P}
  {log : List ℕ} {pages : List P}

/-- A page, and not one of the markers of the domain. -/
def IsPage (vmd : Domain P) (m : P) : Prop := m ≠ vmd.vmd_marker ∧ m ≠ vmd.vmd_inacthead

/-- The routines that the run calls. -/
def Call.Shifts : Call P → Prop
  | activate _ | deactivate _ | deactivate_noreuse _ | launder _ | dequeue _ => True
  | _ => False

/-- Behind the head marker there are pages only, and none is held or busied; as the scan relies
on, each is managed, real and has an object. -/
def ReadyToScan (s : Memory P) (vmd : Domain P) : Prop :=
  ∀ m ∈ inactivePages s vmd, m ≠ vmd.vmd_inacthead → ¬Skipped s m ∧
    (s.vm.page m).oflags &&& VPO_UNMANAGED = 0 ∧ (s.vm.page m).flags &&& PG_FICTITIOUS = 0 ∧
    (s.vm.page m).object ≠ none

/-- The states of all runs, with the number of insertions to the inactive queue and the heads
printed so far. Between two calls the other fields of the pages may change. -/
inductive ScanRun (vmd : Domain P) : ℕ → List ℕ → Memory P → Prop
  | boot {s : Memory P} (hv : s.vm.vmd_pagequeues = vm_page_domain_init) (hc : s.vm.pg_cnt = 0)
    (hp : ∀ m, (s.vm.page m).queue = PQ_NONE) : ScanRun vmd 0 [] s
  | start {n : ℕ} {log : List ℕ} {s : Memory P} (h : ScanRun vmd n log s)
    (hnew : vmd.vmd_inacthead ∉ inactivePages s vmd) : ScanRun vmd n log (vm_pageout_worker s vmd)
  | call {n : ℕ} {log : List ℕ} {s : Memory P} {v : Vm P} (h : ScanRun vmd n log s) {c : Call P}
    (hc : c.Shifts) (hp : IsPage vmd c.page) (ha : c.Allowed s.vm) (hr : c.run s.vm = .ok v) :
    ScanRun vmd (if v.pg_cnt = s.vm.pg_cnt then n else n + 1) log { s with vm := v }
  | touch {n : ℕ} {log : List ℕ} {s s' : Memory P} (h : ScanRun vmd n log s)
    (hv : s'.vm.vmd_pagequeues = s.vm.vmd_pagequeues) (hc : s'.vm.pg_cnt = s.vm.pg_cnt)
    (hp : ∀ m, (s'.vm.page m).queue = (s.vm.page m).queue ∧
      (s'.vm.page m).domain = (s.vm.page m).domain ∧ (s'.vm.page m).id = (s.vm.page m).id ∧
      ((s'.vm.page m).wire_count = 0 ∨ (s'.vm.page m).queue = PQ_NONE))
    (hm : s'.vm.page vmd.vmd_inacthead = s.vm.page vmd.vmd_inacthead) : ScanRun vmd n log s'
  | scan {n : ℕ} {log : List ℕ} {s s' : Memory P} {lines : List Newpage} {met : Bool}
    (h : ScanRun vmd n log s) (hready : ReadyToScan s vmd) {modified : P → Bool}
    {page_shortage : ℤ}
    (hr : vm_pageout_scan s vmd modified page_shortage = .ok (lines, met, s')) :
    ScanRun vmd n (log ++ lines.map Newpage.head_page) s'

/-! ### The queue and the ids -/

/-- The queue is `pages`, behind the head marker once there is one; their ids grow, and no
printed head is above them. -/
structure HeadsKept (vmd : Domain P) (log : List ℕ) (v : Vm P) (pages : List P) : Prop where
  filed : ∀ m, IsPage vmd m → Filed v m
  queue : inactiveQueue v vmd.index = pages ∨
    inactiveQueue v vmd.index = vmd.vmd_inacthead :: pages ∧
      (v.page vmd.vmd_inacthead).flags &&& PG_MARKER ≠ 0
  isPage : ∀ m ∈ pages, IsPage vmd m
  older : pages.Pairwise fun a b => (v.page a).id < (v.page b).id
  below : ∀ m ∈ pages, (v.page m).id < v.pg_cnt
  heads : ∀ head ∈ log, head ≤ v.pg_cnt ∧ ∀ m ∈ pages, head ≤ (v.page m).id

namespace HeadsKept

variable (h : HeadsKept vmd log v pages)
include h

lemma mem_iff (hm : IsPage vmd m) : m ∈ inactiveQueue v vmd.index ↔ m ∈ pages := by
  rcases h.queue with hq | ⟨hq, -⟩
  · rw [hq]
  · rw [hq, List.mem_cons, or_iff_right hm.2]

lemma sublist {pages' : List P} (hf : ∀ m, IsPage vmd m → Filed v' m)
    (hq : inactiveQueue v' vmd.index = pages' ∨
      inactiveQueue v' vmd.index = vmd.vmd_inacthead :: pages' ∧
        (v'.page vmd.vmd_inacthead).flags &&& PG_MARKER ≠ 0)
    (hsub : pages'.Sublist pages) (hid : ∀ m ∈ pages', (v'.page m).id = (v.page m).id)
    (hcnt : v'.pg_cnt = v.pg_cnt) : HeadsKept vmd log v' pages' := by
  constructor
  case filed => exact hf
  case queue => exact hq
  case isPage => exact fun m hm => h.isPage m (hsub.subset hm)
  case older =>
    refine (h.older.sublist hsub).imp_of_mem fun {a b} ha hb hlt => ?_
    rwa [hid a ha, hid b hb]
  case below =>
    intro m hm
    rw [hid m hm, hcnt]
    exact h.below m (hsub.subset hm)
  case heads =>
    intro head hhead
    obtain ⟨hle, hpages⟩ := h.heads head hhead
    refine ⟨hcnt ▸ hle, fun m hm => ?_⟩
    rw [hid m hm]
    exact hpages m (hsub.subset hm)

lemma nodup : pages.Nodup := h.older.imp fun {a b} hlt he => absurd hlt (by rw [he]; exact lt_irrefl _)

lemma queue_sent {k : Dest} (hm : IsPage vmd m) (hs : Sent v m k v') {last : List P}
    (hlast : last = if k.place (v.page m).domain = some (vmd.index, 0) then [m] else []) :
    inactiveQueue v' vmd.index = pages.erase m ++ last ∨
      inactiveQueue v' vmd.index = vmd.vmd_inacthead :: (pages.erase m ++ last) ∧
        (v'.page vmd.vmd_inacthead).flags &&& PG_MARKER ≠ 0 := by
  have hq' : inactiveQueue v' vmd.index = (inactiveQueue v vmd.index).erase m ++ last := by
    rw [hlast]
    exact hs.pages (vmd.index, 0)
  rw [hq']
  rcases h.queue with hq | ⟨hq, hf⟩
  · rw [hq]
    exact Or.inl rfl
  · rw [hq, List.erase_cons_tail (by simpa using hm.2.symm), hs.others _ hm.2.symm]
    exact Or.inr ⟨rfl, hf⟩

lemma change (hpage : ∀ m, IsPage vmd m → (v'.page m).queue = (v.page m).queue ∧
      (v'.page m).domain = (v.page m).domain ∧ (v'.page m).id = (v.page m).id ∧
      ((v'.page m).wire_count = 0 ∨ (v'.page m).queue = PQ_NONE))
    (hcount : ∀ m, IsPage vmd m → ∀ pq, (onQueue v' pq).count m = (onQueue v pq).count m)
    (hq : inactiveQueue v' vmd.index = pages ∨
      inactiveQueue v' vmd.index = vmd.vmd_inacthead :: pages ∧
        (v'.page vmd.vmd_inacthead).flags &&& PG_MARKER ≠ 0)
    (hcnt : v'.pg_cnt = v.pg_cnt) : HeadsKept vmd log v' pages := by
  refine h.sublist (fun m hm => ?_) hq (List.Sublist.refl _)
    (fun m hm => (hpage m (h.isPage m hm)).2.2.1) hcnt
  obtain ⟨hqueue, hdomain, -, hwired⟩ := hpage m hm
  refine ⟨fun pq => ?_, ?_, hwired⟩
  · rw [hcount m hm pq, (h.filed m hm).placed pq]
    unfold placeOf
    rw [hqueue, hdomain]
  · rw [hqueue]
    exact (h.filed m hm).queue

lemma left {o : Option Dest} (hm : IsPage vmd m) (hst : Stamped v m o v')
    (ho : o ≠ some .inactive) : ∃ pages', HeadsKept vmd log v' pages' := by
  obtain ⟨hid, hcnt⟩ := hst.kept ho
  have hf : ∀ x, IsPage vmd x → Filed v' x := fun x hx => by
    rcases eq_or_ne x m with rfl | hne
    · exact (h.filed x hx).moved hst.moved
    · exact (h.filed x hx).other hst.moved hne
  cases o with
  | none =>
    have hs : Still v m v' := hst.moved
    have hids : ∀ x, (v'.page x).id = (v.page x).id := fun x => by
      rcases eq_or_ne x m with rfl | hne
      · exact hid
      · rw [hs.others x hne]
    refine ⟨pages, h.sublist hf ?_ (List.Sublist.refl _) (fun x _ => hids x) hcnt⟩
    unfold inactiveQueue onQueue
    rw [hs.queues, hs.others _ hm.2.symm]
    exact h.queue
  | some k =>
    have hs : Sent v m k v' := hst.moved
    have hplace : k.place (v.page m).domain ≠ some (vmd.index, 0) := fun hp =>
      ho (by rw [(Dest.place_eq_inactive hp).1])
    have hq := h.queue_sent hm hs (if_neg hplace).symm
    rw [List.append_nil] at hq
    refine ⟨pages.erase m, h.sublist hf hq List.erase_sublist (fun x hx => ?_) hcnt⟩
    rw [hs.others x (h.nodup.mem_erase_iff.mp hx).1]

lemma joined (hm : IsPage vmd m) (hst : Stamped v m (some .inactive) v')
    (hcnt : v.pg_cnt + 1 < ULONG_SIZE) : ∃ pages', HeadsKept vmd log v' pages' := by
  obtain ⟨hid, hcnt'⟩ := hst.drawn rfl
  rw [Nat.mod_eq_of_lt hcnt] at hcnt'
  have hs : Sent v m .inactive v' := hst.moved
  have hrest : ∀ x ∈ pages.erase m, x ∈ pages ∧ (v'.page x).id = (v.page x).id := fun x hx => by
    obtain ⟨hne, hx⟩ := h.nodup.mem_erase_iff.mp hx
    exact ⟨hx, by rw [hs.others x hne]⟩
  -- the queue gets `m` at its tail, or is another domain's
  set last := if Dest.inactive.place (v.page m).domain = some (vmd.index, 0) then [m] else []
    with hlast
  have hlastm : ∀ x ∈ last, x = m := fun x hx => by
    rw [hlast] at hx
    split at hx
    · exact List.mem_singleton.mp hx
    · cases hx
  have hcases : ∀ x ∈ pages.erase m ++ last,
      x ∈ pages ∧ (v'.page x).id = (v.page x).id ∨ x = m := fun x hx =>
    (List.mem_append.mp hx).imp (hrest x) (hlastm x)
  refine ⟨pages.erase m ++ last, ?_⟩
  constructor
  case filed =>
    intro x hx
    rcases eq_or_ne x m with rfl | hne
    · exact (h.filed x hx).moved hst.moved
    · exact (h.filed x hx).other hst.moved hne
  case queue => exact h.queue_sent hm hs hlast
  case isPage =>
    intro x hx
    rcases hcases x hx with hx | rfl
    · exact h.isPage x hx.1
    · exact hm
  case older =>
    refine List.pairwise_append.mpr ⟨?_, ?_, fun x hx y hy => ?_⟩
    · refine (h.older.sublist List.erase_sublist).imp_of_mem fun {a b} ha hb hlt => ?_
      rwa [(hrest a ha).2, (hrest b hb).2]
    · rw [hlast]
      split
      · exact List.pairwise_singleton _ _
      · exact List.Pairwise.nil
    · -- the new id is above those of the pages that were there
      rw [hlastm y hy, hid, (hrest x hx).2]
      exact h.below x (hrest x hx).1
  case below =>
    intro x hx
    rcases hcases x hx with ⟨hx, hxid⟩ | rfl
    · rw [hxid, hcnt']
      exact Nat.lt_succ_of_lt (h.below x hx)
    · rw [hid, hcnt']
      exact Nat.lt_succ_self _
  case heads =>
    intro head hhead
    obtain ⟨hle, hpages⟩ := h.heads head hhead
    refine ⟨hcnt' ▸ Nat.le_succ_of_le hle, fun x hx => ?_⟩
    rcases hcases x hx with ⟨hx, hxid⟩ | rfl
    · rw [hxid]
      exact hpages x hx
    · rw [hid]
      exact hle

end HeadsKept

/-! ### One step of the run -/

lemma Call.run_stamped {c : Call P} (hc : c.Shifts) (h : Filed v c.page) (ha : c.Allowed v) :
    ∃ v' o, c.run v = .ok v' ∧ Stamped v c.page o v' := by
  cases c with
  | activate m =>
    obtain ⟨v', heq, hst⟩ := vm_page_activate_eq h
    exact ⟨v', _, heq, hst⟩
  | deactivate m =>
    obtain ⟨v', heq, hst⟩ := _vm_page_deactivate_eq h false
    exact ⟨v', _, heq, hst⟩
  | deactivate_noreuse m =>
    obtain ⟨v', heq, hst⟩ := _vm_page_deactivate_eq h true
    exact ⟨v', _, heq, hst⟩
  | launder m =>
    obtain ⟨v', heq, hst⟩ := vm_page_launder_eq h
    exact ⟨v', _, heq, hst⟩
  | dequeue m =>
    obtain ⟨v', heq, hs, hpage, hcnt⟩ := vm_page_dequeue_sent h ha
    have hid : (v'.page m).id = (v.page m).id := by
      rw [show v'.page m = { v.page m with queue := PQ_NONE } from hpage]
    exact ⟨v', some .off, heq, hs, fun ho => (nomatch ho), fun _ => ⟨hid, hcnt⟩⟩
  | advise m advice modified => cases hc
  | requeue m => cases hc
  | wire m => cases hc
  | unwire m queue => cases hc

/-- The number of insertions is the counter's value as long as it does not run over. -/
lemma HeadsKept.call {c : Call P} {n : ℕ} (h : HeadsKept vmd log v pages) (hcnt : v.pg_cnt = n)
    (hc : c.Shifts) (hp : IsPage vmd c.page) (ha : c.Allowed v) (hr : c.run v = .ok v')
    (hn : (if v'.pg_cnt = v.pg_cnt then n else n + 1) < ULONG_SIZE) :
    v'.pg_cnt = (if v'.pg_cnt = v.pg_cnt then n else n + 1) ∧
      ∃ pages', HeadsKept vmd log v' pages' := by
  obtain ⟨v₁, o, heq, hst⟩ := Call.run_stamped hc (h.filed _ hp) ha
  obtain rfl := Except.ok.inj (heq.symm.trans hr)
  by_cases ho : o = some .inactive
  · subst ho
    have hdraw := (hst.drawn rfl).2
    simp only [ULONG_SIZE] at hdraw
    have hne : v₁.pg_cnt ≠ v.pg_cnt := by omega
    rw [if_neg hne] at hn ⊢
    simp only [ULONG_SIZE] at hn
    exact ⟨by omega, h.joined hp hst (by simp only [ULONG_SIZE]; omega)⟩
  · obtain ⟨-, hkept⟩ := hst.kept ho
    rw [if_pos hkept]
    exact ⟨hkept.trans hcnt, h.left hp hst ho⟩

lemma HeadsKept.start (h : HeadsKept vmd log s.vm pages)
    (hnew : vmd.vmd_inacthead ∉ inactivePages s vmd) :
    HeadsKept vmd log (vm_pageout_worker s vmd).vm pages := by
  have hpage : ∀ m, IsPage vmd m → (vm_pageout_worker s vmd).vm.page m = s.vm.page m :=
    fun m hm => by
      simp [vm_pageout_worker, vm_pageout_init_marker, Vm.setPagequeue, hm.1, hm.2]
  have hq : inactivePages s vmd = pages := h.queue.resolve_right fun hq =>
    hnew (by rw [show inactivePages s vmd = _ from hq.1]; simp)
  have hpages : ∀ pq, onQueue (vm_pageout_worker s vmd).vm pq =
      if pq = inactive vmd then vmd.vmd_inacthead :: onQueue s.vm pq else onQueue s.vm pq := by
    intro pq
    unfold onQueue
    by_cases hpq : pq = inactive vmd
    · subst hpq
      simp [vm_pageout_worker, vm_pageout_init_marker, Vm.setPagequeue, Memory.setPage]
    · simp [vm_pageout_worker, vm_pageout_init_marker, Vm.setPagequeue, Memory.setPage, hpq]
  refine h.change (fun m hm => ?_) (fun m hm pq => ?_) (Or.inr ⟨?_, ?_⟩) rfl
  · rw [hpage m hm]
    exact ⟨rfl, rfl, rfl, (h.filed m hm).wired⟩
  · rw [hpages pq]
    split
    · rw [List.count_cons_of_ne hm.2.symm]
    · rfl
  · rw [← hq]
    exact (hpages (inactive vmd)).trans (if_pos rfl)
  · simp [vm_pageout_worker, vm_pageout_init_marker, Vm.setPagequeue]

/-! ### The scan -/

lemma HeadsKept.skipped_iff (h : HeadsKept vmd log s.vm pages) (hready : ReadyToScan s vmd)
    (hm : m ∈ inactivePages s vmd) : ¬Skipped s m ↔ m ∈ pages := by
  have hof : m ∈ pages → ¬Skipped s m := fun hp => (hready m hm (h.isPage m hp).2).1
  refine ⟨fun hs => ?_, hof⟩
  rcases h.queue with hq | ⟨hq, hf⟩
  · exact hq ▸ hm
  · have hm' : m ∈ vmd.vmd_inacthead :: pages := hq ▸ hm
    rcases List.mem_cons.mp hm' with rfl | hp
    · exact absurd (Or.inl hf) hs
    · exact hp

lemma HeadsKept.ordinary_eq (h : HeadsKept vmd log s.vm pages) (hready : ReadyToScan s vmd) :
    ordinary s (inactivePages s vmd) = pages := by
  have hpages : ordinary s pages = pages := List.filter_eq_self.mpr fun m hm => by
    have hmem : m ∈ inactivePages s vmd := (h.mem_iff (h.isPage m hm)).mpr hm
    simpa using (h.skipped_iff hready hmem).mpr hm
  rcases h.queue with hq | ⟨hq, hf⟩
  · rw [show inactivePages s vmd = _ from hq, hpages]
  · rw [show inactivePages s vmd = _ from hq, ordinary_cons_skipped (Or.inl hf), hpages]

lemma HeadsKept.printStats (h : HeadsKept vmd log s.vm pages) (hready : ReadyToScan s vmd) :
    Pager.printStats s vmd = match pages.head?, pages.getLast? with
      | some front, some back => .ok [⟨pages.length, (s.vm.page front).id, (s.vm.page back).id⟩]
      | _, _ => .error .nullPointer := by
  rw [printStats_eq, h.ordinary_eq hready]
  cases pages with
  | nil => rfl
  | cons a rest =>
    have hlast : (inactivePages s vmd).getLast? = (a :: rest).getLast? := by
      rcases h.queue with hq | ⟨hq, -⟩
      · rw [show inactivePages s vmd = _ from hq]
      · rw [show inactivePages s vmd = _ from hq, List.getLast?_cons_cons]
    have hb := List.getLast?_eq_getLast_of_ne_nil (List.cons_ne_nil a rest)
    have hmem : (a :: rest).getLast (List.cons_ne_nil a rest) ∈ inactivePages s vmd :=
      (h.mem_iff (h.isPage _ (List.getLast_mem _))).mpr (List.getLast_mem _)
    have hns := (h.skipped_iff hready hmem).mpr (List.getLast_mem _)
    have hback : backOf s (inactivePages s vmd) = (a :: rest).getLast? := by
      rw [backOf, hlast, hb]
      simp [Option.filter_some, hns]
    rw [hback, hb]
    rfl

lemma HeadsKept.inactiveQueue (h : HeadsKept vmd log s.vm pages) (hready : ReadyToScan s vmd) :
    InactiveQueue s vmd := by
  have hhead : vmd.vmd_inacthead ∉ pages := fun hm => (h.isPage _ hm).2 rfl
  have hmarker : vmd.vmd_marker ∉ pages := fun hm => (h.isPage _ hm).1 rfl
  constructor
  case nodup =>
    rcases h.queue with hq | ⟨hq, -⟩
    · rw [show inactivePages s vmd = _ from hq]
      exact h.nodup
    · rw [show inactivePages s vmd = _ from hq]
      exact List.nodup_cons.mpr ⟨hhead, h.nodup⟩
  case marker =>
    rcases h.queue with hq | ⟨hq, -⟩
    · rwa [show inactivePages s vmd = _ from hq]
    · rw [show inactivePages s vmd = _ from hq]
      exact List.not_mem_cons_of_ne_of_not_mem vmd.distinct hmarker
  case scannable =>
    intro m hm hf
    have hne : m ≠ vmd.vmd_inacthead := by
      rintro rfl
      rcases h.queue with hq | ⟨-, hf'⟩
      · exact hhead (hq ▸ hm)
      · exact hf' hf
    obtain ⟨hs, hman, hreal, hobj⟩ := hready m hm hne
    exact ⟨h.filed m (h.isPage m ((h.skipped_iff hready hm).mp hs)), hman, hreal, hobj⟩

lemma HeadsKept.reclaimed {modified : P → Bool} {removed : List P}
    (h : HeadsKept vmd log s.vm pages) (hr : Reclaimed modified s removed s')
    (hp : ∀ m ∈ removed, IsPage vmd m) :
    s'.vm.pg_cnt = s.vm.pg_cnt ∧ ∃ pages', HeadsKept vmd log s'.vm pages' := by
  induction removed generalizing s pages with
  | nil =>
    obtain rfl : s' = s := hr
    exact ⟨rfl, pages, h⟩
  | cons m removed ih =>
    obtain ⟨s₁, ht, hr⟩ := hr
    obtain ⟨hm, hp⟩ := List.forall_mem_cons.mp hp
    have hne : some (fateOf s modified m).dest ≠ some .inactive := by
      cases fateOf s modified m <;> exact fun he => nomatch he
    obtain ⟨pages₁, h₁⟩ := h.left hm ht.stamped hne
    obtain ⟨hcnt, hrest⟩ := ih h₁ hr hp
    exact ⟨hcnt.trans (ht.stamped.kept hne).2, hrest⟩

lemma HeadsKept.print (h : HeadsKept vmd log v pages) {head : ℕ} (hle : head ≤ v.pg_cnt)
    (hpages : ∀ m ∈ pages, head ≤ (v.page m).id) : HeadsKept vmd (log ++ [head]) v pages := by
  refine ⟨h.filed, h.queue, h.isPage, h.older, h.below, fun x hx => ?_⟩
  rcases List.mem_append.mp hx with hx | hx
  · exact h.heads x hx
  · rw [List.mem_singleton.mp hx]
    exact ⟨hle, hpages⟩

lemma HeadsKept.head_le {a b : P} (h : HeadsKept vmd log v pages) (ha : pages.head? = some a)
    (hb : b ∈ pages) : (v.page a).id ≤ (v.page b).id := by
  obtain ⟨rest, rfl⟩ := List.head?_eq_some_iff.mp ha
  rcases List.mem_cons.mp hb with rfl | hb
  · exact le_rfl
  · exact ((List.pairwise_cons.mp h.older).1 b hb).le

lemma HeadsKept.scan {modified : P → Bool} {n : ℤ} {lines : List Newpage} {met : Bool}
    (h : HeadsKept vmd log s.vm pages) (hready : ReadyToScan s vmd)
    (hr : vm_pageout_scan s vmd modified n = .ok (lines, met, s')) :
    s'.vm.pg_cnt = s.vm.pg_cnt ∧
      ∃ pages', HeadsKept vmd (log ++ lines.map Newpage.head_page) s'.vm pages' := by
  obtain ⟨s₁, heq, hrec⟩ := scanInactive_reclaimed (h.inactiveQueue hready) modified n
  have hremoved : ∀ m ∈ ordinary s (scanned s vmd modified n), IsPage vmd m := fun m hm => by
    obtain ⟨hm, hs⟩ := mem_ordinary.mp hm
    have hmem := (scanned_sublist s vmd modified n).subset hm
    exact h.isPage m ((h.skipped_iff hready hmem).mp hs)
  unfold vm_pageout_scan at hr
  rw [h.printStats hready] at hr
  cases pages with
  | nil => cases hr
  | cons a rest =>
    rw [List.head?_cons, List.getLast?_eq_getLast_of_ne_nil (List.cons_ne_nil a rest)] at hr
    simp only [ok_bind, heq] at hr
    cases hr
    refine (h.print ?_ fun m hm => h.head_le List.head?_cons hm).reclaimed hrec hremoved
    exact (h.below a (by simp)).le

/-! ### Runs -/

lemma ScanRun.kept {n : ℕ} (h : ScanRun vmd n log s) (hn : n < ULONG_SIZE) :
    s.vm.pg_cnt = n ∧ ∃ pages, HeadsKept vmd log s.vm pages := by
  induction h with
  | @boot s hv hc hp =>
    have hempty : ∀ pq, onQueue s.vm pq = [] := fun pq => by
      unfold onQueue
      rw [hv]
      rfl
    refine ⟨hc, [], fun m _ => ⟨fun pq => ?_, ⟨.off, hp m⟩, Or.inr (hp m)⟩, Or.inl (hempty _),
      fun m hm => (by cases hm), List.Pairwise.nil, fun m hm => (by cases hm),
      fun head hh => (by cases hh)⟩
    have hplace : placeOf s.vm m = none := by
      unfold placeOf
      rw [hp m]
      rfl
    rw [hempty, hplace]
    rfl
  | start h hnew ih =>
    obtain ⟨hcnt, pages, hk⟩ := ih hn
    exact ⟨hcnt, pages, hk.start hnew⟩
  | @call n log s v h c hc hp ha hr ih =>
    have hle : n < ULONG_SIZE := by
      split at hn
      · exact hn
      · exact Nat.lt_of_succ_lt hn
    obtain ⟨hcnt, pages, hk⟩ := ih hle
    exact hk.call hcnt hc hp ha hr hn
  | @touch n log s s' h hv hc hp hm ih =>
    obtain ⟨hcnt, pages, hk⟩ := ih hn
    have hsame : ∀ pq, onQueue s'.vm pq = onQueue s.vm pq := fun pq => by
      unfold onQueue
      rw [hv]
    refine ⟨hc.trans hcnt, pages, hk.change (fun m _ => hp m) (fun m _ pq => by rw [hsame]) ?_ hc⟩
    rw [show inactiveQueue s'.vm vmd.index = inactiveQueue s.vm vmd.index from hsame _, hm]
    exact hk.queue
  | scan h hready hr ih =>
    obtain ⟨hcnt, pages, hk⟩ := ih hn
    obtain ⟨hsame, hkept⟩ := hk.scan hready hr
    exact ⟨hsame.trans hcnt, hkept⟩

/-- **The printed heads**: at a scan that finds a page the head is not above the tail and not
below any head printed before. -/
theorem ScanRun.head_monotone {n : ℕ} (h : ScanRun vmd n log s) (hn : n < ULONG_SIZE)
    (hready : ReadyToScan s vmd) (hm : m ∈ inactivePages s vmd) (hne : m ≠ vmd.vmd_inacthead) :
    ∃ line, printStats s vmd = .ok [line] ∧ line.head_page ≤ line.tail_page ∧
      ∀ head ∈ log, head ≤ line.head_page := by
  obtain ⟨-, pages, hk⟩ := h.kept hn
  have hmem : m ∈ pages := (hk.skipped_iff hready hm).mp (hready m hm hne).1
  have hstats := hk.printStats hready
  cases pages with
  | nil => cases hmem
  | cons a rest =>
    have hb := List.getLast?_eq_getLast_of_ne_nil (List.cons_ne_nil a rest)
    rw [List.head?_cons, hb] at hstats
    exact ⟨_, hstats, hk.head_le (List.head?_cons) (List.getLast_mem _),
      fun head hh => (hk.heads head hh).2 a (by simp)⟩

/-- A page is activated, a scan prints it, and another page is activated. -/
theorem ScanRun.head_monotone_twoPages : ∃ n s line, ScanRun smallDomain n [0] s ∧
    inactivePages s smallDomain = [1, 2, 3] ∧ printStats s smallDomain = .ok [line] ∧
    line.head_page ≤ line.tail_page ∧ ∀ head ∈ [0], head ≤ line.head_page := by
  have h₀ : ScanRun smallDomain 0 [] (smallMemory [] 0) := 
    .boot (Function.update_eq_self (0, 0) vm_page_domain_init) rfl fun _ => rfl
  have h₁ : ScanRun smallDomain 0 [] (startedMemory [] 0) := .start h₀ (by decide)
  have h₂ : ScanRun smallDomain _ [] _ := h₁.call (c := .activate 2) trivial
    ⟨by decide, by decide⟩ trivial rfl
  have h₃ : ScanRun smallDomain _ [0] _ := @ScanRun.scan _ _ _ _ _ _ _ _ _ h₂ (by unfold ReadyToScan; decide) (fun _ => false) 0 rfl
  have h₄ : ScanRun smallDomain _ [0] _ := h₃.call (c := .activate 3) trivial
    ⟨by decide, by decide⟩ trivial rfl
  obtain ⟨line, heq, hle, hlog⟩ := h₄.head_monotone (by decide) (by unfold ReadyToScan; decide)
    (m := 3) (by decide) (by decide)
  exact ⟨_, _, line, h₄, rfl, heq, hle, hlog⟩

end Messaround.Pager
