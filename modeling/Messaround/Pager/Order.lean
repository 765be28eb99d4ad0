import Messaround.Pager.Runs

/-!
The order of the inactive queue.

A call can turn two pages round only by taking a page off the inactive queue and putting it
to the tail of the same queue again, behind pages that were behind it before.
-/

namespace Messaround.Pager

variable {P : Type} [DecidableEq P] {v v' : Vm P} {m a b : P} {l : List P}

/-- `a` stands before `b`. -/
def Ahead (l : List P) (a b : P) : Prop := [a, b].Sublist l

instance (l : List P) (a b : P) : Decidable (Ahead l a b) :=
  inferInstanceAs (Decidable (List.Sublist _ _))

omit [DecidableEq P] in
lemma Ahead.mem_left (h : Ahead l a b) : a ∈ l := h.subset (by simp)

omit [DecidableEq P] in
lemma Ahead.mem_right (h : Ahead l a b) : b ∈ l := h.subset (by simp)

omit [DecidableEq P] in
lemma Ahead.ne (h : Ahead l a b) (hl : l.Nodup) : a ≠ b := by
  have hnd := h.nodup hl
  simpa using hnd

lemma Ahead.erase (h : Ahead l a b) (ha : a ≠ m) (hb : b ≠ m) : Ahead (l.erase m) a b := by
  have hsub := List.Sublist.erase m h
  rwa [List.erase_of_not_mem (by simp [ha.symm, hb.symm])] at hsub

omit [DecidableEq P] in
lemma not_ahead_append (hm : m ∉ l) : ¬Ahead (l ++ [m]) m b := by
  intro h
  obtain ⟨l₁, l₂, heq, h₁, h₂⟩ := List.sublist_append_iff.mp h
  cases l₁ with
  | nil =>
    rw [List.nil_append] at heq
    subst heq
    exact absurd h₂.length_le (by simp)
  | cons x l₁ =>
    obtain rfl : m = x := (List.cons.inj heq).1
    exact hm (h₁.subset (by simp))

/-- The inactive queue of a domain. -/
def inactiveQueue (v : Vm P) (d : ℕ) : List P := onQueue v (d, 0)

/-- Pages that stay on an inactive queue stay in order. -/
def OrderKept (v v' : Vm P) : Prop := ∀ d a b, Ahead (inactiveQueue v d) a b →
  a ∈ inactiveQueue v' d → b ∈ inactiveQueue v' d → Ahead (inactiveQueue v' d) a b

omit [DecidableEq P] in
lemma Still.orderKept (h : Still v m v') : OrderKept v v' := by
  intro d a b hab _ _
  unfold inactiveQueue onQueue at *
  rw [h.queues]
  exact hab

lemma Dest.place_eq_inactive {k : Dest} {d d' : ℕ} (h : k.place d = some (d', 0)) :
    k = .inactive ∧ d = d' := by
  cases k with
  | off => cases h
  | inactive => cases h; exact ⟨rfl, rfl⟩
  | laundry =>
    have hidx : (2 : Fin PQ_COUNT) = 0 := congrArg Prod.snd (Option.some.inj h)
    exact absurd hidx (by decide)

/-- Some page stands behind `m` on its inactive queue. -/
def Followed (v : Vm P) (m : P) : Prop := ∃ b, Ahead (inactiveQueue v (v.page m).domain) m b

lemma Sent.orderKept_iff (h : Booked v) {k : Dest} (hs : Sent v m k v') :
    OrderKept v v' ↔ ¬(k = .inactive ∧ Followed v m) := by
  have hnd : ∀ d, (inactiveQueue v d).Nodup := fun d => h.placed.nodup _
  have hnot : ∀ d, m ∉ (inactiveQueue v d).erase m := fun d hm =>
    ((hnd d).mem_erase_iff.mp hm).1 rfl
  have hq : ∀ d, inactiveQueue v' d = (inactiveQueue v d).erase m ++
      if k.place (v.page m).domain = some (d, 0) then [m] else [] := fun d => hs.pages (d, 0)
  constructor
  · rintro hkept ⟨rfl, b, hb⟩
    have hne := hb.ne (hnd _)
    have hq' := hq (v.page m).domain
    have hplace : Dest.place (v.page m).domain .inactive = some ((v.page m).domain, 0) := rfl
    rw [if_pos hplace] at hq'
    have hmb := hkept _ m b hb (by simp [hq'])
      (by simp [hq', (hnd _).mem_erase_iff, hne.symm, hb.mem_right])
    rw [hq'] at hmb
    exact not_ahead_append (hnot _) hmb
  · intro hno d a b hab ha hb
    rw [hq d] at ha hb ⊢
    rcases eq_or_ne a m with rfl | hne
    · -- the page itself can be ahead only where it has been put
      have hlast := (List.mem_append.mp ha).resolve_left (hnot d)
      split at hlast
      next hp =>
        obtain ⟨hk, rfl⟩ := Dest.place_eq_inactive hp
        exact absurd ⟨hk, b, hab⟩ hno
      next => simp at hlast
    · rcases eq_or_ne b m with rfl | hbne
      · have hlast := (List.mem_append.mp hb).resolve_left (hnot d)
        split at hlast
        next hp =>
          rw [if_pos hp]
          have ha' : a ∈ (inactiveQueue v d).erase b :=
            (hnd d).mem_erase_iff.mpr ⟨hne, hab.mem_left⟩
          exact (List.singleton_sublist.mpr ha').append (List.Sublist.refl [b])
        next => simp at hlast
      · exact (hab.erase hne hbne).trans (List.sublist_append_left _ _)

/-! ### Calls -/

/-- Managed, and on an inactive queue with a page behind it. -/
def Passes (v : Vm P) (m : P) : Prop :=
  (v.page m).oflags &&& VPO_UNMANAGED = 0 ∧ (v.page m).queue = PQ_INACTIVE ∧ Followed v m

namespace Call

/-- The routines that put pages to the inactive queue or leave them there. -/
def Feeds : Call P → Prop
  | activate _ | deactivate _ | deactivate_noreuse _ | advise _ _ _ => True
  | _ => False

/-- The call takes an inactive page that is not the last one and puts it to the tail. -/
def Reappends (v : Vm P) : Call P → Prop
  | activate m | deactivate_noreuse m => Passes v m
  | advise m advice modified => Passes v m ∧
    (advice = MADV_WILLNEED ∨ advice = MADV_FREE ∨
      advice = MADV_DONTNEED ∧ (v.page m).dirty = 0 ∧ modified = false)
  | _ => False

end Call

lemma Booked.pageable (h : Booked v) (hq : (v.page m).queue = PQ_INACTIVE) :
    Pageable (v.page m) ↔ (v.page m).oflags &&& VPO_UNMANAGED = 0 := by
  have hw := (h.wired m).resolve_right (by rw [hq]; decide)
  exact ⟨fun hp => hp.2, fun ho => ⟨hw, ho⟩⟩

lemma Booked.queue_of_followed (h : Booked v) (hf : Followed v m) :
    (v.page m).queue = PQ_INACTIVE := by
  obtain ⟨b, hb⟩ := hf
  have hp : placeOf v m = some ((v.page m).domain, 0) := h.placed.mem_iff.mp hb.mem_left
  unfold placeOf at hp
  split at hp
  · assumption
  · split at hp
    · have hidx : (2 : Fin PQ_COUNT) = 0 := congrArg Prod.snd (Option.some.inj hp)
      exact absurd hidx (by decide)
    · cases hp

lemma orderKept_iff_passes (h : Booked v)
    (hm : Moved v m (if Pageable (v.page m) then some .inactive else none) v') :
    OrderKept v v' ↔ ¬Passes v m := by
  by_cases hp : Pageable (v.page m)
  · rw [if_pos hp] at hm
    rw [Sent.orderKept_iff h hm]
    exact not_congr ⟨fun hf => ⟨hp.2, h.queue_of_followed hf.2, hf.2⟩, fun hf => ⟨rfl, hf.2.2⟩⟩
  · rw [if_neg hp] at hm
    exact iff_of_true (Still.orderKept hm) fun hf => hp ((h.pageable hf.2.1).mpr hf.1)

lemma orderKept_of_moved (h : Booked v) {o : Option Dest} (hm : Moved v m o v')
    (ho : o ≠ some .inactive) : OrderKept v v' := by
  cases o with
  | none => exact Still.orderKept hm
  | some k => exact (Sent.orderKept_iff h hm).mpr fun hk => ho (by rw [hk.1])

lemma orderKept_deactivate (h : Booked v)
    (hm : Moved v m (if (v.page m).queue = PQ_INACTIVE ∧ !false then none
      else if Pageable (v.page m) then some .inactive else none) v') : OrderKept v v' := by
  by_cases hq : (v.page m).queue = PQ_INACTIVE
  · rw [if_pos ⟨hq, rfl⟩] at hm
    exact Still.orderKept hm
  · rw [if_neg (by tauto)] at hm
    exact (orderKept_iff_passes h hm).mpr fun hp => hq hp.2.1

lemma settledDirty_eq_zero {p : Page} {advice : ℤ} {modified : Bool} :
    settledDirty p advice modified = 0 ↔
      advice = MADV_FREE ∨ p.dirty = 0 ∧ modified = false := by
  unfold settledDirty
  by_cases hf : advice = MADV_FREE
  · simp [hf]
  · rw [if_neg hf]
    by_cases hd : p.dirty = 0
    · cases modified <;> simp [hf, hd]
    · rw [if_neg (fun h => hd h.1)]
      tauto

lemma orderKept_iff_advise (h : Booked v) {advice : ℤ} {modified : Bool}
    (hm : Moved v m (adviseDest (v.page m) advice modified) v') :
    OrderKept v v' ↔ ¬(Call.advise m advice modified).Reappends v := by
  unfold adviseDest at hm
  unfold Call.Reappends
  by_cases hno : advice ≠ MADV_FREE ∧ advice ≠ MADV_DONTNEED
  · rw [if_pos hno] at hm
    by_cases hw : advice = MADV_WILLNEED
    · rw [if_pos hw] at hm
      rw [orderKept_iff_passes h hm]
      simp [hw]
    · rw [if_neg hw] at hm
      refine iff_of_true (Still.orderKept hm) ?_
      rintro ⟨-, hw' | hf | hd⟩
      · exact hw hw'
      · exact hno.1 hf
      · exact hno.2 hd.1
  · rw [if_neg hno] at hm
    have hadv : advice = MADV_FREE ∨ advice = MADV_DONTNEED := by tauto
    unfold idleDest at hm
    by_cases hset : settledDirty (v.page m) advice modified = 0
    · rw [if_pos hset] at hm
      rw [orderKept_iff_passes h hm]
      have hset := settledDirty_eq_zero.mp hset
      tauto
    · rw [if_neg hset] at hm
      have hset := fun hs => hset (settledDirty_eq_zero.mpr hs)
      refine iff_of_true (orderKept_of_moved h hm ?_) ?_
      · split
        · split <;> simp
        · simp
      · rintro ⟨-, hw | hf | hd⟩
        · rcases hadv with rfl | rfl <;> exact absurd hw (by decide)
        · exact hset (Or.inl hf)
        · exact hset (Or.inr hd.2)

/-- **One call**: it keeps the order exactly when it re-appends no page. -/
lemma Call.orderKept_iff {c : Call P} (h : Booked v) (hc : c.Feeds) (hr : c.run v = .ok v') :
    OrderKept v v' ↔ ¬c.Reappends v := by
  cases c with
  | activate m =>
    obtain ⟨v₁, heq, hm⟩ := vm_page_activate_eq (h.filed m)
    obtain rfl := Except.ok.inj (heq.symm.trans hr)
    exact orderKept_iff_passes h hm.moved
  | deactivate m =>
    obtain ⟨v₁, heq, hm⟩ := _vm_page_deactivate_eq (h.filed m) false
    obtain rfl := Except.ok.inj (heq.symm.trans hr)
    exact iff_of_true (orderKept_deactivate h hm.moved) not_false
  | deactivate_noreuse m =>
    obtain ⟨v₁, heq, hm⟩ := _vm_page_deactivate_eq (h.filed m) true
    obtain rfl := Except.ok.inj (heq.symm.trans hr)
    rw [if_neg (by simp)] at hm
    exact orderKept_iff_passes h hm.moved
  | advise m advice modified =>
    obtain ⟨v₁, heq, hm⟩ := vm_page_advise_eq (h.filed m) advice modified
    obtain rfl := Except.ok.inj (heq.symm.trans hr)
    exact orderKept_iff_advise h hm
  | launder m => cases hc
  | dequeue m => cases hc
  | requeue m => cases hc
  | wire m => cases hc
  | unwire m queue => cases hc

/-! ### Runs -/

/-- Every call of the run is allowed in its state. -/
def AllowedRun : Vm P → List (Call P) → Prop
  | _, [] => True
  | v, c :: cs => c.Allowed v ∧ ∀ v', c.run v = .ok v' → AllowedRun v' cs

/-- Every call of the run to one of the four routines keeps the order. -/
def FifoRun : Vm P → List (Call P) → Prop
  | _, [] => True
  | v, c :: cs => (c.Feeds → ∀ v', c.run v = .ok v' → OrderKept v v') ∧
    ∀ v', c.run v = .ok v' → FifoRun v' cs

/-- No call of the run re-appends a page. -/
def NoReappend : Vm P → List (Call P) → Prop
  | _, [] => True
  | v, c :: cs => ¬c.Reappends v ∧ ∀ v', c.run v = .ok v' → NoReappend v' cs

omit [DecidableEq P] in
lemma Call.feeds_of_reappends {c : Call P} (h : c.Reappends v) : c.Feeds := by
  cases c with
  | activate m | deactivate_noreuse m | advise m advice modified => trivial
  | _ => cases h

/-- **The order of the queue**: a run of any calls keeps pages in the order in which they
entered exactly when no call of it takes an inactive page to the tail past another. -/
theorem fifoRun_iff (h : Reached v) {calls : List (Call P)} (hc : AllowedRun v calls) :
    FifoRun v calls ↔ NoReappend v calls := by
  induction calls generalizing v with
  | nil => exact Iff.rfl
  | cons c cs ih =>
    obtain ⟨v', hr⟩ := h.proceeds hc.1
    have hv : ∀ v'', c.run v = .ok v'' → v'' = v' := fun v'' h' => Except.ok.inj (h'.symm.trans hr)
    have hrest := ih (h.call hc.1 hr) (hc.2 v' hr)
    unfold FifoRun NoReappend
    constructor
    · rintro ⟨hk, hf⟩
      refine ⟨fun hre => ?_, fun v'' h' => ?_⟩
      · have hfeeds := Call.feeds_of_reappends hre
        exact (Call.orderKept_iff h.booked hfeeds hr).mp (hk hfeeds v' hr) hre
      · rw [hv v'' h']
        exact hrest.mp (hf v' hr)
    · rintro ⟨hk, hf⟩
      refine ⟨fun hfeeds v'' h' => ?_, fun v'' h' => ?_⟩
      · exact (Call.orderKept_iff h.booked hfeeds h').mpr hk
      · rw [hv v'' h']
        exact hrest.mpr (hf v' hr)

theorem fifoRun_iff_deactivate :
    FifoRun freshVm [.activate false, .activate true, .deactivate false] ↔
      NoReappend freshVm [.activate false, .activate true, .deactivate false] :=
  fifoRun_iff reached_freshVm
    ⟨trivial, fun _ _ => ⟨trivial, fun _ _ => ⟨trivial, fun _ _ => trivial⟩⟩⟩

/-- The page that entered first is activated again and is then behind the second one. -/
theorem not_fifoRun_activate :
    AllowedRun freshVm [.activate false, .activate true, .activate false] ∧
      ¬FifoRun freshVm [.activate false, .activate true, .activate false] := by
  refine ⟨⟨trivial, fun _ _ => ⟨trivial, fun _ _ => ⟨trivial, fun _ _ => trivial⟩⟩⟩, fun h => ?_⟩
  have hkept := ((h.2 _ rfl).2 _ rfl).1 trivial _ rfl 0 false true
  exact absurd (hkept (by decide) (by decide) (by decide)) (by decide)

end Messaround.Pager
