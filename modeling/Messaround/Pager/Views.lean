import Messaround.Pager.Cluster
import Messaround.Pager.ResidentRuns
import Messaround.Pager.Validity

/-!
One page in several records: the page queues, the laundry, the maps of valid blocks and the
resident pages each know other fields of it.

A routine that is written over more than one of these records does the same to what they share.
-/

namespace Messaround.Pager

variable {P τ : Type} [DecidableEq P] {s : Memory P} {m : P}

/-! ### Dirty pages -/

/-- The page `m` as the laundry sees it. -/
structure LaundryPage.Views (s : Memory P) (m : P) (p : LaundryPage) : Prop where
  busy_lock : p.busy_lock = (s.use m).busy_lock
  dirty : p.dirty = (s.vm.page m).dirty
  queue : p.queue = (s.vm.page m).queue
  hold_count : p.hold_count = (s.use m).hold_count

/-- The page `m` as its map of valid blocks sees it. -/
structure PageFrame.Views (s : Memory P) (m : P) (f : PageFrame 8) : Prop where
  valid : f.valid = (s.use m).valid
  dirty : f.dirty = (s.vm.page m).dirty

lemma allOnes_eq : BitVec.allOnes 8 = VM_PAGE_BITS_ALL := by decide

/-- **The laundry's `vm_page_test_dirty`** is the scan's. -/
theorem LaundryPage.Views.test_dirty {p : LaundryPage} (h : p.Views s m) :
    p.vm_page_test_dirty.Views (Pager.vm_page_test_dirty s m p.pmap_is_modified) m := by
  obtain ⟨hbusy, hdirty, hqueue, hhold⟩ := h
  unfold LaundryPage.vm_page_test_dirty Pager.vm_page_test_dirty
  rw [hdirty]
  split
  · refine ⟨hbusy, ?_, ?_, hhold⟩
    · simp [LaundryPage.vm_page_dirty, Pager.vm_page_dirty]
    · simpa [LaundryPage.vm_page_dirty, Pager.vm_page_dirty] using hqueue
  · exact ⟨hbusy, hdirty, hqueue, hhold⟩

/-- The assertion of `vm_page_dirty` apart, the frame's is the scan's as well. -/
theorem PageFrame.Views.test_dirty {f f' : PageFrame 8} (h : f.Views s m)
    (hf : f.vm_page_test_dirty = .ok f') :
    f'.Views (Pager.vm_page_test_dirty s m f.modified) m := by
  obtain ⟨hvalid, hdirty⟩ := h
  unfold PageFrame.vm_page_test_dirty at hf
  unfold Pager.vm_page_test_dirty
  rw [allOnes_eq, hdirty] at hf
  split at hf
  next hmod =>
    unfold PageFrame.vm_page_dirty at hf
    split at hf
    · cases hf
      rw [if_pos hmod]
      exact ⟨hvalid, by simp [Pager.vm_page_dirty]⟩
    · contradiction
  next hmod =>
    cases hf
    rw [if_neg hmod]
    exact ⟨hvalid, hdirty⟩

/-! ### Resident pages -/

namespace Residents

variable {x : Radix P τ} {v v' : Vm P τ} {o : ℕ}

/-- The place of each page in the objects, and who holds it busied. -/
structure Vm.Views (s : Memory P) (v : Vm P τ) : Prop where
  object : ∀ m, (v.page m).object = (s.vm.page m).object
  xbusied : ∀ m, (v.page m).xbusied = true ↔ vm_page_xbusied s m

/-- **`vm_page_remove`** of the scan is that of the resident pages, without their lists. -/
theorem Vm.Views.remove (h : v.Views s) (hv : vm_page_remove x v m = .ok v') :
    v'.Views (Pager.vm_page_remove s m) := by
  obtain ⟨hobject, hbusy⟩ := h
  unfold vm_page_remove at hv
  unfold Pager.vm_page_remove
  rw [← hobject]
  cases ho : (v.page m).object with
  | none =>
    rw [ho] at hv
    cases hv
    exact ⟨hobject, hbusy⟩
  | some o =>
    rw [ho] at hv
    dsimp only at hv
    split at hv
    · contradiction
    · cases hl : TAILQ_REMOVE Kassert.notListed (v.object o).memq m with
      | error e =>
        rw [hl] at hv
        cases hv
      | ok l =>
        rw [hl] at hv
        cases hv
        rw [if_neg (Option.some_ne_none o)]
        refine ⟨fun q => ?_, fun q => ?_⟩
        · have hq := hobject q
          by_cases hm : q = m <;> by_cases hb : vm_page_xbusied s m <;>
            simp [Vm.setObject, hm, hb, hq]
        · have hq := hbusy q
          by_cases hb : vm_page_xbusied s m
          · rw [if_pos hb]
            by_cases hm : q = m
            · have hfree : VPB_UNBUSIED &&& VPB_SINGLE_EXCLUSIVER = 0 := by decide
              simp [Vm.setObject, hm, vm_page_xbusied, hfree]
            · simpa [Vm.setObject, hm, vm_page_xbusied] using hq
          · rw [if_neg hb]
            by_cases hm : q = m
            · simpa [Vm.setObject, hm, vm_page_xbusied] using hb
            · simpa [Vm.setObject, hm, vm_page_xbusied] using hq

/-- The pages of the object `o`, by their indices. -/
def Vm.Shows (v : Vm P τ) (o : ℕ) (obj : Resident) : Prop :=
  ∀ i, (obj i).isSome ↔ ∃ q, (v.page q).object = some o ∧ ((v.page q).pindex : ℕ) = i

variable {obj : Resident}

/-- **`vm_page_next`** finds the index that the cluster goes on with. -/
theorem Vm.Shows.next (h : v.Shows o obj) (hs : v.Sound x) (hm : (v.page m).object = some o) :
    ∃ r, vm_page_next v m = .ok r ∧
      r.map (fun q => ((v.page q).pindex : ℕ)) = Pager.vm_page_next obj (v.page m).pindex := by
  obtain ⟨r, hr, hiff⟩ := next_sound hs hm
  refine ⟨r, hr, ?_⟩
  unfold Pager.vm_page_next
  cases r with
  | some q =>
    have hq := (hiff q).mp rfl
    rw [if_pos ((h _).mpr ⟨q, hq⟩), Option.map_some, hq.2]
  | none =>
    rw [if_neg fun hsome => ?_, Option.map_none]
    obtain ⟨q, hq⟩ := (h _).mp hsome
    cases (hiff q).mpr hq

/-- **`vm_page_prev`** likewise. -/
theorem Vm.Shows.prev (h : v.Shows o obj) (hs : v.Sound x) (hm : (v.page m).object = some o) :
    ∃ r, vm_page_prev v m = .ok r ∧
      r.map (fun q => ((v.page q).pindex : ℕ)) = Pager.vm_page_prev obj (v.page m).pindex := by
  obtain ⟨r, hr, hiff⟩ := prev_sound hs hm
  refine ⟨r, hr, ?_⟩
  unfold Pager.vm_page_prev
  cases r with
  | some q =>
    obtain ⟨hq, hidx⟩ := (hiff q).mp rfl
    rw [if_pos ⟨by omega, (h _).mpr ⟨q, hq, by omega⟩⟩, Option.map_some]
    exact congrArg some (by omega)
  | none =>
    rw [if_neg fun hsome => ?_, Option.map_none]
    obtain ⟨q, hq, hidx⟩ := (h _).mp hsome.2
    cases (hiff q).mpr ⟨hq, by omega⟩

end Residents

end Messaround.Pager
