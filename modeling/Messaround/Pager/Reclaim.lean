import Messaround.Lib.Quota
import Messaround.Pager.Turn

/-!
The whole scan of the inactive queue.

It takes the ordinary pages among those that it walks along, and it walks along at most as many
elements as the queue counts. Markers are not counted, so pages at the end may stay unseen.
-/

namespace Messaround.Pager

variable {P : Type} [DecidableEq P] {s s₁ s' : Memory P} {vmd : Domain P} {m : P}
  {modified : P → Bool} {kept l removed : List P} {k : ℕ} {n : ℤ}

/-- The pages `removed` have met their fates, one after another. -/
def Reclaimed (modified : P → Bool) : Memory P → List P → Memory P → Prop
  | s, [], s' => s' = s
  | s, m :: removed, s' =>
    ∃ s₁, Taken s m (fateOf s modified m) s₁ ∧ Reclaimed modified s₁ removed s'

/-- The pages that count towards `page_shortage`. -/
def Freeable (s : Memory P) (modified : P → Bool) (m : P) : Prop :=
  ¬Skipped s m ∧ fateOf s modified m = .freed

instance : DecidablePred (Freeable s modified) := fun _ => inferInstanceAs (Decidable (_ ∧ _))

section taken

variable {f : Fate} {x : P} (ht : Taken s m f s')
include ht

lemma Taken.page (hx : x ≠ m) : s'.vm.page x = s.vm.page x := ht.stamped.moved.others x hx

lemma Taken.skipped (hx : x ≠ m) : Skipped s' x ↔ Skipped s x := by
  unfold Skipped vm_page_busied
  rw [ht.page hx, ht.use x hx]

lemma Taken.fateOf (hx : x ≠ m) : fateOf s' modified x = fateOf s modified x := by
  unfold Pager.fateOf fateIn
  rw [ht.page hx, ht.use x hx, ht.vm_object]

lemma Taken.freeable (hx : x ≠ m) : Freeable s' modified x ↔ Freeable s modified x := by
  unfold Freeable
  rw [ht.skipped hx, ht.fateOf hx]

lemma Taken.inactive (hd : (s.vm.page m).domain = vmd.index) :
    inactivePages s' vmd = (inactivePages s vmd).erase m := by
  have hpages := ht.stamped.moved.pages (Pager.inactive vmd)
  rwa [if_neg (hd ▸ f.place_ne _), List.append_nil] at hpages

lemma Taken.inactiveQueue (h : InactiveQueue s vmd) (hd : (s.vm.page m).domain = vmd.index) :
    InactiveQueue s' vmd := by
  have hq := ht.inactive hd
  constructor
  case nodup =>
    rw [hq]
    exact h.nodup.erase m
  case marker =>
    rw [hq]
    exact fun hm => h.marker (List.mem_of_mem_erase hm)
  case scannable =>
    intro x hx hf
    rw [hq, h.nodup.mem_erase_iff] at hx
    have hpage := ht.page hx.1
    rw [hpage] at hf
    have hsc := h.scannable x hx.2 hf
    refine ⟨hsc.filed.other ht.stamped.moved hx.1, ?_, ?_, ?_⟩
    · rw [hpage]
      exact hsc.managed
    · rw [hpage]
      exact hsc.real
    · rw [hpage]
      exact hsc.object

end taken

/-- **The loop**: it takes the ordinary pages among those that it walks along. -/
lemma scanLoop_reclaimed (h : InactiveQueue s vmd) (hq : inactivePages s vmd = kept ++ l) :
    ∃ s', scanLoop vmd modified k l.head? n s =
        .ok (unmet (Freeable s modified) n (walked (Freeable s modified) k n l), s') ∧
      Reclaimed modified s (ordinary s (walked (Freeable s modified) k n l)) s' := by
  induction l generalizing s kept k n with
  | nil => exact ⟨s, by cases k <;> simp [scanLoop, pure, Except.pure], by simp [ordinary, Reclaimed]⟩
  | cons m l ih =>
    cases k with
    | zero => exact ⟨s, by simp [scanLoop, pure, Except.pure], by simp [ordinary, Reclaimed]⟩
    | succ k =>
      rw [List.head?_cons, scanLoop]
      by_cases hn : n > 0
      swap
      · rw [if_neg hn, walked_met hn, unmet_nil]
        exact ⟨s, rfl, rfl⟩
      rw [if_pos hn, walked_cons hn, unmet_cons]
      by_cases hm : Skipped s m
      · have hno : ¬Freeable s modified m := fun hf => hf.1 hm
        rw [scanPage_skipped h hq hm, ok_bind, if_neg hno, ordinary_cons_skipped hm]
        have hq' : inactivePages s vmd = kept ++ [m] ++ l := by rw [hq, List.append_assoc]; rfl
        exact ih h hq'
      · have hmem : m ∈ inactivePages s vmd := by rw [hq]; simp
        obtain ⟨s₁, heq, ht⟩ : ∃ s₁, scanPage s m vmd modified n = _ ∧ _ := scanPage_taken h hq hm
        have hd := ((h.scannable_of hmem hm).filed.of_mem_inactive hmem).2
        obtain ⟨hmk, hml⟩ := notMem_parts (hq ▸ h.nodup)
        have hq₁ : inactivePages s₁ vmd = kept ++ l := by
          rw [ht.inactive hd, hq, erase_append_cons hmk]
        have hne : ∀ x ∈ l, x ≠ m := fun x hx he => hml (he ▸ hx)
        have hfree : ∀ x ∈ l, Freeable s₁ modified x ↔ Freeable s modified x :=
          fun x hx => ht.freeable (hne x hx)
        have hcount : (if Freeable s modified m then n - 1 else n) =
            if fateOf s modified m = .freed then n - 1 else n :=
          if_congr (and_iff_right hm) rfl rfl
        obtain ⟨s', hloop, hrec⟩ := @ih s₁ kept k
          (if fateOf s modified m = .freed then n - 1 else n) (ht.inactiveQueue h hd) hq₁
        rw [walked_congr hfree] at hloop hrec
        rw [unmet_congr fun x hx => hfree x (mem_of_mem_walked hx)] at hloop
        rw [heq, ok_bind, ordinary_cons hm, hcount]
        refine ⟨s', hloop, s₁, ht, ?_⟩
        have hord : ∀ w : List P, (∀ x ∈ w, x ∈ l) → ordinary s₁ w = ordinary s w := fun w hw =>
          List.filter_congr fun x hx => by simp [ht.skipped (hne x (hw x hx))]
        rwa [hord _ fun x hx => mem_of_mem_walked hx] at hrec

namespace Reclaimed

variable {x : P} (hr : Reclaimed modified s removed s')
include hr

lemma filed (h : Filed s.vm x) : Filed s'.vm x := by
  induction removed generalizing s with
  | nil => exact hr ▸ h
  | cons m removed ih =>
    obtain ⟨s₁, ht, hr⟩ := hr
    refine ih hr ?_
    rcases eq_or_ne x m with rfl | hx
    · exact h.moved ht.stamped.moved
    · exact h.other ht.stamped.moved hx

lemma same (hx : x ∉ removed) : s'.vm.page x = s.vm.page x ∧ s'.use x = s.use x := by
  induction removed generalizing s with
  | nil =>
    rw [show s' = s from hr]
    exact ⟨rfl, rfl⟩
  | cons m removed ih =>
    obtain ⟨s₁, ht, hr⟩ := hr
    obtain ⟨hxm, hx⟩ := not_or.mp fun h => hx (List.mem_cons.mpr h)
    obtain ⟨hpage, huse⟩ := ih hr hx
    exact ⟨hpage.trans (ht.page hxm), huse.trans (ht.use x hxm)⟩

end Reclaimed

/-- The laundry of all domains. -/
def laundryPages (s : Memory P) : List P := onQueue s.vm (0, 2)

/-- The pages `removed` have left the queue, each to its fate and in this order. -/
structure Reclaims (s : Memory P) (vmd : Domain P) (modified : P → Bool) (removed : List P)
    (s' : Memory P) : Prop where
  queue : inactivePages s' vmd = (inactivePages s vmd).filter (· ∉ removed)
  free : s'.free = s.free ++ removed.filter (fateOf s modified · = .freed)
  laundry : laundryPages s' =
    laundryPages s ++ removed.filter (fateOf s modified · = .laundered)
  field : ∀ m ∈ removed, (s'.vm.page m).queue = (fateOf s modified m).dest.queue
  gone : ∀ m ∈ removed, fateOf s modified m ≠ .laundered → ∀ pq, m ∉ onQueue s'.vm pq
  same : ∀ m ∉ removed, s'.vm.page m = s.vm.page m ∧ s'.use m = s.use m

lemma Taken.laundry {f : Fate} (ht : Taken s m f s') (hm : m ∉ laundryPages s) :
    laundryPages s' = laundryPages s ++ if f = .laundered then [m] else [] := by
  have hpages := ht.stamped.moved.pages (0, 2)
  have hplace : f.dest.place (s.vm.page m).domain = some (0, 2) ↔ f = .laundered := by
    cases f <;> simp [Fate.dest, Dest.place]
  unfold laundryPages at hm ⊢
  rw [hpages, List.erase_of_not_mem hm]
  simp only [hplace]

lemma Filed.notMem_laundry (h : Filed s.vm m) (hm : m ∈ inactivePages s vmd) :
    m ∉ laundryPages s := fun hl => by
  have hp : placeOf s.vm m = some (vmd.index, 0) := h.mem_iff.mp hm
  have hp' : placeOf s.vm m = some (0, 2) := h.mem_iff.mp hl
  have hidx : (0 : Fin PQ_COUNT) = 2 := congrArg Prod.snd (Option.some.inj (hp.symm.trans hp'))
  exact absurd hidx (by decide)

lemma Reclaimed.reclaims (h : InactiveQueue s vmd) (hr : Reclaimed modified s removed s')
    (hnd : removed.Nodup) (hord : ∀ m ∈ removed, m ∈ inactivePages s vmd ∧ ¬Skipped s m) :
    Reclaims s vmd modified removed s' := by
  induction removed generalizing s with
  | nil =>
    obtain rfl : s' = s := hr
    exact ⟨by simp, by simp, by simp, by simp, by simp, fun _ _ => ⟨rfl, rfl⟩⟩
  | cons m removed ih =>
    have hsame := fun x (hx : x ∉ m :: removed) => hr.same hx
    obtain ⟨s₁, ht, hr⟩ := hr
    obtain ⟨hnot, hnd⟩ := List.nodup_cons.mp hnd
    obtain ⟨⟨hmem, hm⟩, hrest⟩ := List.forall_mem_cons.mp hord
    have hf := (h.scannable_of hmem hm).filed
    have hd := (hf.of_mem_inactive hmem).2
    have hq := ht.inactive hd
    have hne : ∀ x ∈ removed, x ≠ m := fun x hx => ne_of_mem_of_not_mem hx hnot
    -- the fate of the others is not touched
    have hfate : ∀ x ∈ removed, fateOf s₁ modified x = fateOf s modified x :=
      fun x hx => ht.fateOf (hne x hx)
    have hfilter : ∀ f : Fate, removed.filter (fateOf s₁ modified · = f) =
        removed.filter (fateOf s modified · = f) :=
      fun f => List.filter_congr fun x hx => by rw [hfate x hx]
    have hih := ih (ht.inactiveQueue h hd) hr hnd fun x hx =>
      ⟨hq ▸ h.nodup.mem_erase_iff.mpr ⟨hne x hx, (hrest x hx).1⟩,
        fun hs => (hrest x hx).2 ((ht.skipped (hne x hx)).mp hs)⟩
    have hfield : (s'.vm.page m).queue = (fateOf s modified m).dest.queue := by
      rw [(hr.same hnot).1]
      exact ht.stamped.moved.queue
    constructor
    case queue =>
      rw [hih.queue, hq, h.nodup.erase_eq_filter, List.filter_filter]
      refine List.filter_congr fun x _ => ?_
      rw [Bool.eq_iff_iff]
      simp [and_comm]
    case free =>
      rw [hih.free, ht.free, hfilter, List.filter_cons, List.append_assoc]
      by_cases hfm : fateOf s modified m = .freed
      · simp [hfm]
      · simp [hfm]
    case laundry =>
      rw [hih.laundry, ht.laundry (hf.notMem_laundry hmem), hfilter, List.filter_cons,
        List.append_assoc]
      by_cases hfm : fateOf s modified m = .laundered
      · simp [hfm]
      · simp [hfm]
    case field =>
      intro x hx
      rcases List.mem_cons.mp hx with rfl | hx
      · exact hfield
      · rw [hih.field x hx, hfate x hx]
    case gone =>
      intro x hx hlaund pq
      rcases List.mem_cons.mp hx with rfl | hx
      · -- a page that is not laundered is on no queue afterwards
        refine (hr.filed (hf.moved ht.stamped.moved)).notMem (hfield.trans ?_)
        cases hfm : fateOf s modified x with
        | freed => rfl
        | laundered => exact absurd hfm hlaund
        | dropped => rfl
      · exact hih.gone x hx (by rwa [hfate x hx]) pq
    case same => exact hsame

/-- The elements that the scan walks along. -/
def scanned (s : Memory P) (vmd : Domain P) (modified : P → Bool) (n : ℤ) : List P :=
  walked (Freeable s modified) (cntOf s.vm (inactive vmd)).toNat n (inactivePages s vmd)

lemma scanInactive_reclaimed (h : InactiveQueue s vmd) (modified : P → Bool) (n : ℤ) :
    ∃ s', scanInactive s vmd modified n =
        .ok (unmet (Freeable s modified) n (scanned s vmd modified n), s') ∧
      Reclaimed modified s (ordinary s (scanned s vmd modified n)) s' :=
  scanLoop_reclaimed h (List.nil_append (inactivePages s vmd)).symm

omit [DecidableEq P] in
lemma scanned_sublist (s : Memory P) (vmd : Domain P) (modified : P → Bool) (n : ℤ) :
    (scanned s vmd modified n).Sublist (inactivePages s vmd) :=
  (prefix_walked _ _ _).sublist.trans (List.take_sublist _ _)

lemma scanInactive_eq (h : InactiveQueue s vmd) (modified : P → Bool) (n : ℤ) :
    ∃ s', scanInactive s vmd modified n =
        .ok (unmet (Freeable s modified) n (scanned s vmd modified n), s') ∧
      Reclaims s vmd modified (ordinary s (scanned s vmd modified n)) s' := by
  obtain ⟨s', heq, hr⟩ := scanInactive_reclaimed h modified n
  have hsub := scanned_sublist s vmd modified n
  refine ⟨s', heq, hr.reclaims h ((h.nodup.sublist hsub).filter _) fun m hm => ?_⟩
  obtain ⟨hm, hs⟩ := mem_ordinary.mp hm
  exact ⟨hsub.subset hm, hs⟩

/-- The result of the scan for a shortage of `n` pages: `removed` are the first ordinary pages. -/
structure FifoScan (s : Memory P) (vmd : Domain P) (modified : P → Bool) (n : ℤ)
    (removed : List P) (n' : ℤ) (s' : Memory P) : Prop where
  reclaims : Reclaims s vmd modified removed s'
  front : removed <+: ordinary s (inactivePages s vmd)
  shortage : n' = n - (removed.filter (fateOf s modified · = .freed)).length
  marker : vmd.vmd_marker ∉ inactivePages s' vmd

/-- **First in, first out**: the scan takes the ordinary pages from the front, each to its fate,
keeps the others in order and answers whether enough have been freed. -/
theorem scanInactive_fifo (h : InactiveQueue s vmd) (modified : P → Bool) (n : ℤ) :
    ∃ removed n' s', scanInactive s vmd modified n = .ok (n', s') ∧
      FifoScan s vmd modified n removed n' s' ∧
      ∀ lines, printStats s vmd = .ok lines →
        vm_pageout_scan s vmd modified n = .ok (lines, n' ≤ 0, s') := by
  obtain ⟨s', heq, hr⟩ := scanInactive_eq h modified n
  refine ⟨ordinary s (scanned s vmd modified n), _, s', heq, ?_, fun lines hl => ?_⟩
  · constructor
    case reclaims => exact hr
    case front => exact ((prefix_walked _ _ _).trans (List.take_prefix _ _)).filter _
    case shortage =>
      have hfilter : (scanned s vmd modified n).filter (fun m => Freeable s modified m) =
          (ordinary s (scanned s vmd modified n)).filter (fateOf s modified · = .freed) := by
        rw [ordinary, List.filter_filter]
        refine List.filter_congr fun m _ => ?_
        rw [Bool.eq_iff_iff, Bool.and_eq_true, decide_eq_true_iff, decide_eq_true_iff,
          decide_eq_true_iff]
        exact and_comm
      rw [unmet, List.countP_eq_length_filter, hfilter]
    case marker =>
      rw [hr.queue]
      exact fun hm => h.marker (List.mem_filter.mp hm).1
  · unfold vm_pageout_scan
    rw [hl, ok_bind, heq, ok_bind]
    rfl

/-- The scan may walk along as many elements as the queue counts. -/
def withinReach (s : Memory P) (vmd : Domain P) : List P :=
  (inactivePages s vmd).take (cntOf s.vm (inactive vmd)).toNat

def outOfReach (s : Memory P) (vmd : Domain P) : List P :=
  (inactivePages s vmd).drop (cntOf s.vm (inactive vmd)).toNat

/-- A scan that ends short of its target has taken every ordinary page. -/
def ScanComplete (s : Memory P) (vmd : Domain P) (modified : P → Bool) (n : ℤ) : Prop :=
  ∀ n' s', scanInactive s vmd modified n = .ok (n', s') → n' > 0 →
    ∀ m ∈ inactivePages s vmd, ¬Skipped s m → m ∉ inactivePages s' vmd

/-- **Completeness**: it holds exactly when the elements within reach meet the target, or no
ordinary page is out of reach. -/
theorem scanComplete_iff (h : InactiveQueue s vmd) (modified : P → Bool) (n : ℤ) :
    ScanComplete s vmd modified n ↔
      n ≤ (withinReach s vmd).countP (fun m => Freeable s modified m) ∨
        ∀ m ∈ outOfReach s vmd, Skipped s m := by
  obtain ⟨s', heq, hr⟩ := scanInactive_eq h modified n
  have hcomplete : ScanComplete s vmd modified n ↔
      (0 < unmet (Freeable s modified) n (scanned s vmd modified n) →
        ∀ m ∈ inactivePages s vmd, ¬Skipped s m → m ∉ inactivePages s' vmd) := by
    constructor
    · exact fun hc => hc _ _ heq
    · intro hc n' s'' heq' hn'
      obtain ⟨rfl, rfl⟩ := Prod.mk.inj (Except.ok.inj (heq.symm.trans heq'))
      exact hc hn'
  have hmet : 0 < unmet (Freeable s modified) n (scanned s vmd modified n) ↔
      ¬n ≤ (withinReach s vmd).countP (fun m => Freeable s modified m) := by
    rw [scanned, unmet_walked_pos, unmet, withinReach]
    omega
  rw [hcomplete, hmet, ← or_iff_not_imp_left]
  by_cases hpos : n ≤ (withinReach s vmd).countP (fun m => Freeable s modified m)
  · exact iff_of_true (Or.inl hpos) (Or.inl hpos)
  have hall : scanned s vmd modified n = withinReach s vmd :=
    walked_eq_take (hmet.mpr hpos)
  rw [or_iff_right hpos, or_iff_right hpos, hr.queue, hall]
  have happ : withinReach s vmd ++ outOfReach s vmd = inactivePages s vmd :=
    List.take_append_drop _ _
  have hnd := h.nodup
  rw [← happ] at hnd
  constructor
  · intro hgone m hm
    by_contra hs
    have hmem : m ∈ inactivePages s vmd := List.mem_of_mem_drop hm
    have hno : m ∉ ordinary s (withinReach s vmd) := fun ho =>
      (List.nodup_append.mp hnd).2.2 m (mem_ordinary.mp ho).1 m hm rfl
    exact hgone m hmem hs (List.mem_filter.mpr ⟨hmem, by simpa using hno⟩)
  · intro hskip m hm hs hmem
    have hno : m ∉ ordinary s (withinReach s vmd) := by
      simpa using (List.mem_filter.mp hmem).2
    rw [← happ] at hm
    rcases List.mem_append.mp hm with hm | hm
    · exact hno (mem_ordinary.mpr ⟨hm, hs⟩)
    · exact hs (hskip m hm)

/-! ### The small memory -/

lemma inactivePages_startedMemory (queue : List (Fin 4)) (hold_count : Fin 4 → UInt16) :
    inactivePages (startedMemory queue hold_count) smallDomain = 1 :: queue := rfl

lemma page_startedMemory (queue : List (Fin 4)) (hold_count : Fin 4 → UInt16) {m : Fin 4}
    (hm : 2 ≤ m) : (startedMemory queue hold_count).vm.page m =
      (smallMemory queue hold_count).vm.page m := by
  have h0 : m ≠ 0 := fun h => by subst h; exact absurd hm (by decide)
  have h1 : m ≠ 1 := fun h => by subst h; exact absurd hm (by decide)
  simp [startedMemory, vm_pageout_worker, vm_pageout_init_marker, smallDomain, h0, h1,
    Vm.setPagequeue]

lemma inactiveQueue_startedMemory {queue : List (Fin 4)} (hnd : queue.Nodup)
    (hq : ∀ m ∈ queue, 2 ≤ m) (hold_count : Fin 4 → UInt16) :
    InactiveQueue (startedMemory queue hold_count) smallDomain := by
  have hmarker : ∀ m : Fin 4, m < 2 → m ∉ queue := fun m hm hmem => 
    absurd hm (Fin.not_lt.mpr (hq m hmem))
  have hpages := inactivePages_startedMemory queue hold_count
  constructor
  case nodup =>
    rw [hpages]
    exact List.nodup_cons.mpr ⟨hmarker 1 (by decide), hnd⟩
  case marker =>
    rw [hpages]
    exact List.not_mem_cons_of_ne_of_not_mem (by decide) (hmarker 0 (by decide))
  case scannable =>
    intro m hm hf
    rw [hpages] at hm
    rcases List.mem_cons.mp hm with rfl | hm
    · have hflags : ((startedMemory queue hold_count).vm.page 1).flags = PG_MARKER := rfl
      rw [hflags] at hf
      exact absurd hf (by decide)
    have hpage := page_startedMemory queue hold_count (hq m hm)
    have hqueue : ((smallMemory queue hold_count).vm.page m).queue = PQ_INACTIVE := if_pos hm
    refine ⟨⟨fun pq => ?_, ⟨.inactive, by rw [hpage, hqueue]; rfl⟩, Or.inl (by rw [hpage]; rfl)⟩,
      by rw [hpage]; simp [smallMemory], by rw [hpage]; simp [smallMemory],
      by rw [hpage]; simp [smallMemory]⟩
    have hplace : placeOf (startedMemory queue hold_count).vm m = some (0, 0) := by
      unfold placeOf
      rw [hpage, hqueue]
      rfl
    have h1 : (1 : Fin 4) ≠ m := fun h => hmarker 1 (by decide) (h ▸ hm)
    rw [hplace]
    rcases eq_or_ne pq (0, 0) with rfl | hne
    · have hcount : queue.count m = 1 := List.count_eq_one_of_mem hnd hm
      change (1 :: queue).count m = _
      rw [List.count_cons_of_ne h1, hcount, if_pos rfl]
    · have hempty : onQueue (startedMemory queue hold_count).vm pq = [] := by
        simp [onQueue, startedMemory, vm_pageout_worker, Vm.setPagequeue, inactive, smallDomain,
          hne, smallMemory, vm_page_domain_init, vm_pageout_init_marker, Memory.setPage,
          Memory.setUse, Vm.setPage]
      rw [hempty, if_neg fun h => hne (Option.some.inj h).symm]
      rfl

/-- One of two clean pages is wanted. -/
theorem scanInactive_fifo_twoPages : ∃ removed n' s',
    scanInactive (startedMemory [2, 3] 0) smallDomain (fun _ => false) 1 = .ok (n', s') ∧
      FifoScan (startedMemory [2, 3] 0) smallDomain (fun _ => false) 1 removed n' s' ∧
      ∀ lines, printStats (startedMemory [2, 3] 0) smallDomain = .ok lines →
        vm_pageout_scan (startedMemory [2, 3] 0) smallDomain (fun _ => false) 1 =
          .ok (lines, n' ≤ 0, s') :=
  scanInactive_fifo (inactiveQueue_startedMemory (by decide) (by decide) 0) (fun _ => false) 1

theorem scanComplete_iff_twoPages :
    ScanComplete (startedMemory [2, 3] 0) smallDomain (fun _ => false) 1 ↔
      (1 : ℤ) ≤ (withinReach (startedMemory [2, 3] 0) smallDomain).countP
        (fun m => Freeable (startedMemory [2, 3] 0) (fun _ => false) m) ∨
      ∀ m ∈ outOfReach (startedMemory [2, 3] 0) smallDomain, Skipped (startedMemory [2, 3] 0) m :=
  scanComplete_iff (@inactiveQueue_startedMemory [2, 3] (by decide) (by decide) 0)
    (fun _ => false) 1

/-- The head marker takes up the only turn, and the clean page behind it stays. -/
theorem not_scanComplete : InactiveQueue (startedMemory [2] 0) smallDomain ∧
    inactivePages (startedMemory [2] 0) smallDomain = [1, 2] ∧
    cntOf (startedMemory [2] 0).vm (inactive smallDomain) = 1 ∧
    fateOf (startedMemory [2] 0) (fun _ => false) 2 = .freed ∧
    scanInactive (startedMemory [2] 0) smallDomain (fun _ => false) 1 =
      .ok (1, startedMemory [2] 0) ∧
    ¬ScanComplete (startedMemory [2] 0) smallDomain (fun _ => false) 1 := by
  have hrun : scanInactive (startedMemory [2] 0) smallDomain (fun _ => false) 1 =
      .ok (1, startedMemory [2] 0) := rfl
  refine ⟨@inactiveQueue_startedMemory [2] (by decide) (by decide) 0, rfl, rfl, by decide, hrun,
    fun h => ?_⟩
  exact h 1 _ hrun (by decide) 2 (by decide) (by decide) (by decide)

end Messaround.Pager
