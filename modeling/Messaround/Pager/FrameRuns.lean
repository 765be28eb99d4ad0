import Messaround.Pager.Validity

/-!
A page over its whole time in an object: what pagers, system calls and processes with a mapping
do to its bytes, and what its maps of valid and dirty blocks promise about them.
-/

namespace Messaround.Pager

variable {w : ℕ} {m m' : PageFrame w} {base size : ℕ}

/-- What happens to a page; `store` is what a pager or a system call writes into it, `pmap_enter`
maps it, and `write` is a process that writes through a mapping. -/
inductive FrameEvent
  | store (base size : ℕ) (data : ℕ → UInt8)
  | vm_page_set_valid_range (base size : ℕ)
  | vm_page_set_validclean (base size : ℕ)
  | vm_page_set_invalid (object : FrameObject) (base size : ℕ)
  | vm_page_zero_invalid (setvalid : Bool)
  | vm_page_clear_dirty (base size : ℕ)
  | vm_page_dirty
  | vm_page_test_dirty
  | vm_page_undirty
  | pmap_enter
  | write (off : ℕ) (byte : UInt8)
  | pmap_clear_modify
  | pmap_remove_all

def FrameEvent.exec (m : PageFrame w) : FrameEvent → Except FrameFault (PageFrame w)
  | store base size data => .ok { m with
      bytes := fun i => if base ≤ i ∧ i < base + size then some (data i) else m.bytes i }
  | vm_page_set_valid_range base size => m.vm_page_set_valid_range base size
  | vm_page_set_validclean base size => m.vm_page_set_validclean base size
  | vm_page_set_invalid object base size => m.vm_page_set_invalid object base size
  | vm_page_zero_invalid setvalid => .ok (m.vm_page_zero_invalid setvalid).page
  | vm_page_clear_dirty base size => m.vm_page_clear_dirty base size
  | vm_page_dirty => m.vm_page_dirty
  | vm_page_test_dirty => m.vm_page_test_dirty
  | vm_page_undirty => .ok m.vm_page_undirty
  | pmap_enter => .ok { m with mapped := true }
  | write off byte => .ok { m with
      bytes := fun i => if i = off then some byte else m.bytes i
      modified := true }
  | pmap_clear_modify => .ok m.pmap_clear_modify
  | pmap_remove_all => m.pmap_remove_all

/-- What the callers see to: a range lies in the page and is stored before it is made valid, only
a page that is valid as a whole is mapped or dirtied, and the object of a mapped page is in use. -/
def FrameEvent.Legal (m : PageFrame w) : FrameEvent → Prop
  | vm_page_set_valid_range base size => Stored m base size
  | vm_page_set_validclean base size => Stored m base size
  | vm_page_set_invalid object base size =>
    base + size ≤ pageSize w ∧ (m.mapped = true → object.ref_count ≠ 0)
  | vm_page_clear_dirty base size => base + size ≤ pageSize w
  | vm_page_dirty | pmap_enter => m.valid = BitVec.allOnes w
  | write _ _ => m.mapped = true
  | _ => True

/-- The runs of a page from its allocation on, when all its blocks are invalid. -/
inductive FrameReached : PageFrame w → Prop
  | alloc {m : PageFrame w} (hv : m.valid = 0) (hd : m.dirty = 0) (hmap : m.mapped = false)
      (hmod : m.modified = false) : FrameReached m
  | exec {m m' : PageFrame w} (e : FrameEvent) (h : FrameReached m) (hl : e.Legal m)
      (he : e.exec m = .ok m') : FrameReached m'

lemma zero_invalid_sound (hm : m.Sound) (setvalid : Bool) :
    (m.vm_page_zero_invalid setvalid).page.Sound := by
  rw [zero_invalid_eq]
  refine ⟨fun off hoff hv => ?_, fun i hd => ?_, fun h => ?_, hm.modified⟩
  · dsimp only
    split
    next => exact Option.some_ne_none 0
    next hno =>
      refine hm.initialized off hoff ?_
      by_contra hinv
      exact hno ⟨hoff, by simpa using hinv⟩
  · cases setvalid with
    | false => exact hm.dirty i hd
    | true =>
      rw [if_pos rfl, BitVec.getLsbD_allOnes]
      exact decide_eq_true (BitVec.lt_of_getLsbD hd)
  · dsimp only
    rw [hm.mapped h]
    exact ite_self _

/-- **Every legal event goes through and keeps the promises of the maps.** -/
lemma frame_exec_sound (hw : w ≤ 32) (hm : m.Sound) {e : FrameEvent} (hl : e.Legal m) :
    ∃ m', e.exec m = .ok m' ∧ m'.Sound := by
  cases e with
  | store base size data =>
    refine ⟨_, rfl, fun off hoff hv => ?_, hm.dirty, hm.mapped, hm.modified⟩
    dsimp only
    split
    · exact Option.some_ne_none _
    · exact hm.initialized off hoff hv
  | vm_page_set_valid_range base size =>
    obtain ⟨m', heq, hs, -⟩ := set_valid_range_ok hw hm hl
    exact ⟨m', heq, hs⟩
  | vm_page_set_validclean base size =>
    obtain ⟨m', heq, hs, -⟩ := set_validclean_ok hm hl
    exact ⟨m', heq, hs⟩
  | vm_page_set_invalid object base size => exact set_invalid_ok hm hl.1 hl.2
  | vm_page_zero_invalid setvalid => exact ⟨_, rfl, zero_invalid_sound hm setvalid⟩
  | vm_page_clear_dirty base size =>
    obtain ⟨bits, heq, -⟩ := vm_page_bits_ok hl
    refine ⟨_, ?_, hm.clear bits⟩
    simp only [FrameEvent.exec, PageFrame.vm_page_clear_dirty, heq, bind, Except.bind, pure,
      Except.pure]
  | vm_page_dirty => exact ⟨_, vm_page_dirty_ok hm hl⟩
  | vm_page_test_dirty => exact vm_page_test_dirty_ok hm
  | vm_page_undirty =>
    exact ⟨_, rfl, hm.initialized, fun i hd => absurd hd (by simp [PageFrame.vm_page_undirty]),
      hm.mapped, hm.modified⟩
  | pmap_enter => exact ⟨_, rfl, hm.initialized, hm.dirty, fun _ => hl, fun _ => rfl⟩
  | write off byte =>
    refine ⟨_, rfl, fun i hi hv => ?_, hm.dirty, hm.mapped, fun _ => hl⟩
    dsimp only
    split
    · exact Option.some_ne_none _
    · exact hm.initialized i hi hv
  | pmap_clear_modify => exact ⟨_, rfl, hm.initialized, hm.dirty, hm.mapped, nofun⟩
  | pmap_remove_all =>
    obtain ⟨m', heq, hs, -⟩ := pmap_remove_all_ok hm
    exact ⟨m', heq, hs⟩

lemma FrameReached.sound (hw : w ≤ 32) (h : FrameReached m) : m.Sound := by
  induction h with
  | alloc hv hd hmap hmod =>
    refine ⟨fun off _ h => ?_, fun i h => ?_, fun h => ?_, fun h => ?_⟩
    · simp [hv] at h
    · simp [hd] at h
    · simp [hmap] at h
    · simp [hmod] at h
  | exec e _ hl he ih =>
    obtain ⟨m₁, heq, hs⟩ := frame_exec_sound hw ih hl
    exact Except.ok.inj (heq.symm.trans he) ▸ hs

lemma vm_page_is_valid_ok (m : PageFrame w) (h : base + size ≤ pageSize w) :
    ∃ b, m.vm_page_is_valid base size = .ok b ∧
      (b = true ↔ m.valid ≠ 0 ∧ ∀ i, Touches base size i → m.valid.getLsbD i = true) := by
  obtain ⟨bits, heq, hbits⟩ := vm_page_bits_ok h
  refine ⟨decide (m.valid ≠ 0 ∧ m.valid &&& bits = bits), ?_, ?_⟩
  · simp only [PageFrame.vm_page_is_valid, heq, bind, Except.bind, pure, Except.pure]
  · rw [decide_eq_true_iff]
    refine and_congr_right fun _ => ⟨fun hsub i hi => ?_, fun hall => ?_⟩
    · have hbit := (hbits i).mpr hi
      rw [← hsub, BitVec.getLsbD_and, Bool.and_eq_true] at hbit
      exact hbit.1
    · apply BitVec.eq_of_getLsbD_eq
      intro i _
      rw [BitVec.getLsbD_and]
      cases hb : bits.getLsbD i with
      | false => simp
      | true => simp [hall i ((hbits i).mp hb)]

/-- **What is valid was stored or zeroed**: in every run a byte of a valid block is not what the
frame held before, so neither a process with a mapping nor a caller that was told that a range
is valid can read such a byte; dirty blocks are valid, and no assertion fails. -/
theorem frame_sound (hw : w ≤ 32) (h : FrameReached m) :
    (∀ off < pageSize w, m.valid.getLsbD (off / DEV_BSIZE) = true → m.bytes off ≠ none) ∧
    (∀ i, m.dirty.getLsbD i = true → m.valid.getLsbD i = true) ∧
    (m.mapped = true → ∀ off < pageSize w, m.bytes off ≠ none) ∧
    (∀ base size, base + size ≤ pageSize w → m.vm_page_is_valid base size = .ok true →
      ∀ off, base ≤ off → off < base + size → m.bytes off ≠ none) ∧
    ∀ e : FrameEvent, e.Legal m → ∃ m', e.exec m = .ok m' := by
  have hs := h.sound hw
  refine ⟨hs.initialized, hs.dirty, fun hmap off hoff => ?_, fun base size hr hval off h1 h2 => ?_,
    fun e hl => ?_⟩
  · refine hs.initialized off hoff ?_
    rw [hs.mapped hmap, BitVec.getLsbD_allOnes]
    unfold pageSize DEV_BSIZE at *
    exact decide_eq_true (by omega)
  · obtain ⟨b, heq, hiff⟩ := vm_page_is_valid_ok m hr
    obtain rfl := Except.ok.inj (heq.symm.trans hval)
    refine hs.initialized off (by omega) ((hiff.mp rfl).2 _ ?_)
    unfold Touches DEV_BSIZE
    omega
  · obtain ⟨m', heq, -⟩ := frame_exec_sound hw hs hl
    exact ⟨m', heq⟩

/-- **What a range changes**, exactly: both routines mark the blocks that it touches and zero what
of them was neither stored nor valid, and leave every other byte as it was; the one keeps the
dirty bits, the other clears those of all blocks that the range touches. -/
theorem valid_range_exact (hw : w ≤ 32) (h : FrameReached m) (hst : Stored m base size) :
    (∃ m', m.vm_page_set_valid_range base size = .ok m' ∧ Marked m base size m' ∧
      m'.dirty = m.dirty) ∧
    ∃ m', m.vm_page_set_validclean base size = .ok m' ∧ Marked m base size m' ∧
      (∀ i, m'.dirty.getLsbD i = true ↔ m.dirty.getLsbD i = true ∧ ¬Touches base size i) ∧
      m'.modified = (m.modified && decide (¬(base = 0 ∧ size = pageSize w ∧ 0 < size))) := by
  have hs := h.sound hw
  obtain ⟨m₁, h1, -, hmark, hdirty⟩ := set_valid_range_ok hw hs hst
  obtain ⟨m₂, h2, -, hmark', hdirty', hmod⟩ := set_validclean_ok hs hst
  exact ⟨⟨m₁, h1, hmark, hdirty⟩, m₂, h2, hmark', hdirty', hmod⟩

/-- A page of 4096 bytes of which the first 700 are stored. -/
def freshFrame : PageFrame 8 := ⟨0, 0, false, false, false, fun _ => none⟩

lemma freshFrame_stored : ∃ m : PageFrame 8, FrameReached m ∧ Stored m 0 700 :=
  ⟨_, .exec (.store 0 700 fun _ => 1) (.alloc (m := freshFrame) rfl rfl rfl rfl) trivial rfl,
    by decide, fun off _ h => by simp [show off < 0 + 700 from h]⟩

theorem frame_sound_fresh : ∃ m : PageFrame 8, Stored m 0 700 ∧
    ∃ m', FrameEvent.exec m (.vm_page_set_valid_range 0 700) = .ok m' := by
  obtain ⟨m, hm, hst⟩ := freshFrame_stored
  exact ⟨m, hst, (frame_sound (by decide) hm).2.2.2.2 (.vm_page_set_valid_range 0 700) hst⟩

theorem valid_range_exact_fresh : ∃ m m' : PageFrame 8,
    m.vm_page_set_valid_range 0 700 = .ok m' ∧ Marked m 0 700 m' := by
  obtain ⟨m, hm, hst⟩ := freshFrame_stored
  obtain ⟨m', heq, hmark, -⟩ := (valid_range_exact (by decide) hm hst).1
  exact ⟨m, m', heq, hmark⟩

end Messaround.Pager
