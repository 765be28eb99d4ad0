import Mathlib.Data.Finset.Card
import Messaround.Lib.Placed
import Messaround.Sched.Lottery
import Messaround.Sched.Moves

/-!
Where the queued threads stand, in every run of one processor's queue.
-/

namespace Messaround.Sched

variable {T : Type} [DecidableEq T] {s : Sys T} {td : T} {n : RunqName} {i : Fin RQ_NQS}

/-! ### The invariant -/

/-- Where a queued thread stands. -/
def placeOf (s : Sys T) (queued : Finset T) (td : T) : Option (RunqName × Fin RQ_NQS) :=
  if td ∈ queued then standsIn (s.thread td) else none

structure Kept (s : Sys T) (queued : Finset T) : Prop where
  idx : s.tdq.tdq_idx.toNat < RQ_NQS
  ridx : s.tdq.tdq_ridx.toNat < RQ_NQS
  stands : ∀ td ∈ queued, ∃ p, standsIn (s.thread td) = some p
  placed : Placed (queues s) (placeOf s queued)
  bits : ∀ p, bits s p = true ↔ queues s p ≠ []
  transferable : s.tdq.tdq_transferable = (queued.filter fun td => xferable (s.thread td)).card
  clear : ∀ td ∉ queued, xferable (s.thread td) = false

omit [DecidableEq T] in
lemma queues_setRunq {rq : Runq T} {l : List T}
    (h : rq.rq_queues = Function.update (s.tdq.tdq_runq n).rq_queues i l) :
    queues (s.setRunq n rq) = Function.update (queues s) (n, i) l := by
  funext ⟨m, j⟩
  unfold queues
  rw [Sys.runq_setRunq]
  rcases eq_or_ne m n with rfl | hm
  · rw [Function.update_self, h]
    rcases eq_or_ne j i with rfl | hj
    · simp
    · simp [hj]
  · rw [Function.update_of_ne hm, Function.update_of_ne (by simp [hm])]

omit [DecidableEq T] in
lemma bits_setRunq_self {rq : Runq T} : bits (s.setRunq n rq) (n, i) = rq.rq_status i := by
  simp [bits]

omit [DecidableEq T] in
lemma bits_setRunq_of_ne {rq : Runq T} {p : RunqName × Fin RQ_NQS}
    (h : p ≠ (n, i)) (hrq : ∀ j ≠ i, rq.rq_status j = (s.tdq.tdq_runq n).rq_status j) :
    bits (s.setRunq n rq) p = bits s p := by
  obtain ⟨m, j⟩ := p
  unfold bits
  rw [Sys.runq_setRunq]
  rcases eq_or_ne m n with rfl | hm
  · rw [Function.update_self]
    exact hrq j fun hj => h (hj ▸ rfl)
  · rw [Function.update_of_ne hm]

section placeOf

variable {queued : Finset T} {s' : Sys T} {p : Option (RunqName × Fin RQ_NQS)}

lemma placeOf_insert (hth : ∀ t ∈ queued, s'.thread t = s.thread t) (hst : standsIn (s'.thread td) = p) :
    placeOf s' (insert td queued) = Function.update (placeOf s queued) td p := by
  funext t
  rcases eq_or_ne t td with rfl | ht
  · rw [Function.update_self, placeOf, if_pos (Finset.mem_insert_self ..), hst]
  · rw [Function.update_of_ne ht]
    unfold placeOf
    simp only [Finset.mem_insert, ht, false_or]
    split
    · rw [hth t ‹_›]
    · rfl

lemma placeOf_erase (hth : ∀ t, t ≠ td → s'.thread t = s.thread t) :
    placeOf s' (queued.erase td) = Function.update (placeOf s queued) td none := by
  funext t
  rcases eq_or_ne t td with rfl | ht
  · rw [Function.update_self, placeOf, if_neg (Finset.notMem_erase t queued)]
  · rw [Function.update_of_ne ht]
    unfold placeOf
    simp only [Finset.mem_erase, ne_eq, ht, not_false_eq_true, true_and, hth t ht]

end placeOf

namespace Kept

variable {queued : Finset T}

lemma mem_queued (h : Kept s queued) {p : RunqName × Fin RQ_NQS} (hmem : td ∈ queues s p) :
    td ∈ queued ∧ standsIn (s.thread td) = some p := by
  have hp := h.placed.mem_iff.mp hmem
  unfold placeOf at hp
  split at hp
  · exact ⟨‹_›, hp⟩
  · cases hp

lemma enter (h : Kept s queued) (htd : td ∉ queued) {th : Thread} {l : List T}
    (hst : standsIn th = some (n, i)) (hl : l.Perm (td :: queues s (n, i))) :
    Kept (entered s td th (if xferable th then 1 else 0) n i l) (insert td queued) := by
  set s' := entered s td th (if xferable th then 1 else 0) n i l with hs'
  have hq : queues s' = Function.update (queues s) (n, i) l := queues_setRunq rfl
  have hth : ∀ t ∈ queued, s'.thread t = s.thread t := fun t ht =>
    Function.update_of_ne (ne_of_mem_of_not_mem ht htd) _ _
  have hself : s'.thread td = th := Function.update_self ..
  constructor
  case idx => exact h.idx
  case ridx => exact h.ridx
  case stands =>
    intro t ht
    rcases Finset.mem_insert.mp ht with rfl | ht
    · exact ⟨_, hself ▸ hst⟩
    · rw [hth t ht]
      exact h.stands t ht
  case placed =>
    rw [hq, placeOf_insert hth (hself ▸ hst)]
    exact h.placed.enter (if_neg htd) hl
  case bits =>
    intro p
    rw [hq]
    -- the bit of the slot is set, and the others stay
    rcases eq_or_ne p (n, i) with rfl | hp
    · have hne : l ≠ [] := fun he => by simpa [he] using hl.length_eq
      rw [hs', entered, bits_setRunq_self, Function.update_self]
      simp [Runq.setQueue, Runq.runq_setbit, hne]
    · rw [Function.update_of_ne hp, ← h.bits p]
      rw [hs', entered, bits_setRunq_of_ne hp fun j hj => Function.update_of_ne hj _ _]
      rfl
  case transferable =>
    -- `td` counts when it is transferable
    have hfilter : (queued.filter fun t => xferable (s'.thread t)) =
        queued.filter fun t => xferable (s.thread t) :=
      Finset.filter_congr fun t ht => by rw [hth t ht]
    rw [Finset.filter_insert, hself, hfilter]
    change s.tdq.tdq_transferable + _ = _
    rw [h.transferable]
    split
    · rw [Finset.card_insert_of_notMem fun hm => htd (Finset.mem_filter.mp hm).1]
      simp
    · simp
  case clear =>
    intro t ht
    rw [Finset.mem_insert, not_or] at ht
    rw [show s'.thread t = s.thread t from Function.update_of_ne ht.1 _ _]
    exact h.clear t ht.2

lemma leave (h : Kept s queued) (htd : td ∈ queued) {th : Thread} {r : UInt8}
    (hst : standsIn (s.thread td) = some (n, i)) (hx : xferable th = false)
    (hr : r.toNat < RQ_NQS) :
    Kept (left s td th (if xferable (s.thread td) then -1 else 0) n i r) (queued.erase td) := by
  set s' := left s td th (if xferable (s.thread td) then -1 else 0) n i r with hs'
  have hq : queues s' = Function.update (queues s) (n, i) ((queues s (n, i)).erase td) :=
    queues_setRunq without_queues
  have hth : ∀ t, t ≠ td → s'.thread t = s.thread t := fun t ht => Function.update_of_ne ht _ _
  have hpl : placeOf s queued td = some (n, i) := by rw [placeOf, if_pos htd, hst]
  constructor
  case idx => exact h.idx
  case ridx => exact hr
  case stands =>
    intro t ht
    obtain ⟨hne, ht⟩ := Finset.mem_erase.mp ht
    rw [hth t hne]
    exact h.stands t ht
  case placed =>
    rw [hq, placeOf_erase hth]
    exact h.placed.leave hpl
  case bits =>
    intro p
    rw [hq]
    rw [show Sched.bits s' p = Sched.bits (s.setRunq n (without (s.tdq.tdq_runq n) i td)) p from rfl]
    -- the bit of the slot is cleared if `td` was the last one
    rcases eq_or_ne p (n, i) with rfl | hp
    · rw [bits_setRunq_self, Function.update_self]
      have hne : queues s (n, i) ≠ [] := List.ne_nil_of_mem (h.placed.mem_iff.mpr hpl)
      exact without_status_self ((h.bits (n, i)).mpr hne)
    · rw [Function.update_of_ne hp, ← h.bits p]
      rw [bits_setRunq_of_ne hp fun j hj => without_status_of_ne hj]
  case transferable =>
    -- `td` is discounted when it was transferable
    have hfilter : ((queued.erase td).filter fun t => xferable (s'.thread t)) =
        (queued.filter fun t => xferable (s.thread t)).erase td := by
      rw [← Finset.filter_erase]
      exact Finset.filter_congr fun t ht => by rw [hth t (Finset.mem_erase.mp ht).1]
    rw [hfilter]
    change s.tdq.tdq_transferable + _ = _
    rw [h.transferable]
    split
    next hx =>
      have hmem : td ∈ queued.filter fun t => xferable (s.thread t) :=
        Finset.mem_filter.mpr ⟨htd, hx⟩
      have hpos := Finset.card_pos.mpr ⟨td, hmem⟩
      rw [Finset.card_erase_of_mem hmem]
      omega
    next hx =>
      have hnot : td ∉ queued.filter fun t => xferable (s.thread t) :=
        fun hm => hx (Finset.mem_filter.mp hm).2
      rw [Finset.erase_eq_of_notMem hnot]
      simp
  case clear =>
    intro t ht
    rcases eq_or_ne t td with rfl | hne
    · rw [show s'.thread t = th from Function.update_self ..]
      exact hx
    · rw [hth t hne]
      exact h.clear t fun ht' => ht (Finset.mem_erase.mpr ⟨hne, ht'⟩)

lemma runq_add (h : Kept s queued) (htd : td ∉ queued) (flags : BitVec 32) :
    ∃ s', tdq_runq_add s td flags = .ok s' ∧ Kept s' (insert td queued) := by
  have hflag : ¬xferable (s.thread td) := by simp [h.clear td htd]
  obtain ⟨th, n, i, l, heq, hst, hl⟩ := tdq_runq_add_eq hflag h.ridx flags
  exact ⟨_, heq, h.enter htd hst hl⟩

lemma runq_rem (h : Kept s queued) (htd : td ∈ queued) :
    ∃ s', tdq_runq_rem s td = .ok s' ∧ Kept s' (queued.erase td) := by
  obtain ⟨⟨n, i⟩, hst⟩ := h.stands td htd
  have hmem : td ∈ queues s (n, i) :=
    h.placed.mem_iff.mpr (by rw [placeOf, if_pos htd, hst])
  obtain ⟨th, r, heq, hx, hr⟩ := tdq_runq_rem_eq hst hmem h.ridx
  exact ⟨_, heq, h.leave htd hst hx hr⟩

/-- A change of the queue's own fields that keeps the run queues and the count. -/
lemma of_tdq (h : Kept s queued) {tdq : Tdq T} (hq : tdq.tdq_runq = s.tdq.tdq_runq)
    (hk : tdq.tdq_transferable = s.tdq.tdq_transferable) (hidx : tdq.tdq_idx.toNat < RQ_NQS)
    (hridx : tdq.tdq_ridx.toNat < RQ_NQS) : Kept { s with tdq := tdq } queued := by
  have hqs : queues { s with tdq := tdq } = queues s := by
    funext p
    simp only [queues, hq]
  have hbs : Sched.bits { s with tdq := tdq } = Sched.bits s := by
    funext p
    simp only [Sched.bits, hq]
  refine ⟨hidx, hridx, h.stands, ?_, ?_, ?_, h.clear⟩
  · rw [hqs]
    exact h.placed
  · rw [hqs, hbs]
    exact h.bits
  · exact hk.trans h.transferable

/-- The priority, credentials, nice value and further fields of threads change. -/
lemma of_thread (h : Kept s queued) {thread : T → Thread}
    (hth : ∀ td, (thread td).ts_runq = (s.thread td).ts_runq ∧
      (thread td).td_rqindex = (s.thread td).td_rqindex ∧
      (thread td).ts_flags = (s.thread td).ts_flags) : Kept { s with thread := thread } queued := by
  have hst : ∀ td, standsIn (thread td) = standsIn (s.thread td) := fun td => by
    simp only [standsIn, (hth td).1, (hth td).2.1]
  have hx : ∀ td, xferable (thread td) = xferable (s.thread td) := fun td => by
    simp only [xferable, (hth td).2.2]
  refine ⟨h.idx, h.ridx, fun td htd => ?_, ?_, h.bits, ?_, fun td htd => ?_⟩
  · exact (h.stands td htd).imp fun p hp => (hst td).trans hp
  · have hplace : placeOf { s with thread := thread } queued = placeOf s queued := by
      funext td
      simp only [placeOf, hst]
    rw [hplace]
    exact h.placed
  · simp only [hx]
    exact h.transferable
  · exact (hx td).trans (h.clear td htd)

lemma clock (h : Kept s queued) :
    ∃ tdq, clockAdvance s.tdq = .ok tdq ∧ Kept { s with tdq := tdq } queued := by
  unfold clockAdvance
  split
  · dsimp only
    rw [slot_eq h.ridx, ok_bind]
    split
    · exact ⟨_, rfl, h.of_tdq rfl rfl (toNat_mod_lt _) (toNat_mod_lt _)⟩
    · exact ⟨_, rfl, h.of_tdq rfl rfl (toNat_mod_lt _) h.ridx⟩
  · exact ⟨_, rfl, h⟩

end Kept

/-! ### Choosing -/

omit [DecidableEq T] in
lemma mem_of_runq_choose {rq : Runq T} (h : runq_choose rq = some td) :
    ∃ i, td ∈ rq.rq_queues i := by
  obtain ⟨i, -, hi⟩ := Option.bind_eq_some_iff.mp h
  exact ⟨i, List.mem_of_mem_head? hi⟩

omit [DecidableEq T] in
lemma mem_of_runq_choose_from {rq : Runq T} {idx : UInt8} (h : runq_choose_from rq idx = some td) :
    ∃ i, td ∈ rq.rq_queues i := by
  obtain ⟨i, -, hi⟩ := Option.bind_eq_some_iff.mp h
  exact ⟨i, List.mem_of_mem_head? hi⟩

omit [DecidableEq T] in
lemma mem_of_tdq_choose {rnd : ℕ} (h : tdq_choose s rnd = .ok (some td)) :
    ∃ p, td ∈ queues s p := by
  unfold tdq_choose at h
  split at h
  next t hr =>
    cases h
    exact (mem_of_runq_choose hr).imp' (RunqName.tdq_realtime, ·) fun _ hi => hi
  next =>
    split at h
    next t hr =>
      cases h
      exact (mem_of_runq_choose_from hr).imp' (RunqName.tdq_timeshare, ·) fun _ hi => hi
    next =>
      cases hl : lottery_q_choose s .tdq_lottery true rnd with
      | error e => rw [hl] at h; cases h
      | ok r =>
        rw [hl, ok_bind] at h
        cases r with
        | some t =>
          cases h
          exact ⟨(.tdq_lottery, 0), mem_of_lottery_q_choose hl⟩
        | none =>
          exact (mem_of_runq_choose (Except.ok.inj h)).imp' (RunqName.tdq_idle, ·) fun _ hi => hi

lemma Kept.choose {queued : Finset T} {s' : Sys T} {rnd : ℕ} {r : Option T}
    (h : Kept s queued) (hs : sched_choose s rnd = .ok (r, s')) :
    Kept s' (r.elim queued queued.erase) := by
  unfold sched_choose at hs
  cases hc : tdq_choose s rnd with
  | error e => rw [hc] at hs; cases hs
  | ok c =>
    rw [hc, ok_bind] at hs
    cases c with
    | none =>
      cases hs
      exact h.of_tdq rfl rfl h.idx h.ridx
    | some td =>
      obtain ⟨p, hp⟩ := mem_of_tdq_choose hc
      obtain ⟨s₁, heq, hk⟩ := h.runq_rem (h.mem_queued hp).1
      dsimp only at hs
      rw [heq, ok_bind] at hs
      cases hs
      exact hk.of_tdq rfl rfl hk.idx hk.ridx

/-! ### Every run -/

/-- The states of one processor's queue, with the threads that are queued on it. -/
inductive Reached : Sys T → Finset T → Prop
  | setup {thread : T → Thread} (h : ∀ td, xferable (thread td) = false) :
    Reached ⟨tdq_setup zeroTdq, thread⟩ ∅
  | add {s s' : Sys T} {queued : Finset T} {td : T} {flags : BitVec 32} (h : Reached s queued)
    (htd : td ∉ queued) (hs : tdq_runq_add s td flags = .ok s') : Reached s' (insert td queued)
  | rem {s s' : Sys T} {queued : Finset T} {td : T} (h : Reached s queued) (htd : td ∈ queued)
    (hs : tdq_runq_rem s td = .ok s') : Reached s' (queued.erase td)
  | choose {s s' : Sys T} {queued : Finset T} {rnd : ℕ} {r : Option T} (h : Reached s queued)
    (hs : sched_choose s rnd = .ok (r, s')) : Reached s' (r.elim queued queued.erase)
  | clock {s : Sys T} {queued : Finset T} {tdq : Tdq T} (h : Reached s queued)
    (hs : clockAdvance s.tdq = .ok tdq) : Reached { s with tdq := tdq } queued
  /-- Priorities, credentials and nice values change, on the queues or off them. -/
  | change {s : Sys T} {queued : Finset T} {thread : T → Thread} (h : Reached s queued)
    (hth : ∀ td, (thread td).ts_runq = (s.thread td).ts_runq ∧
      (thread td).td_rqindex = (s.thread td).td_rqindex ∧
      (thread td).ts_flags = (s.thread td).ts_flags) :
    Reached { s with thread := thread } queued

lemma kept_setup {thread : T → Thread} (h : ∀ td, xferable (thread td) = false) :
    Kept ⟨tdq_setup zeroTdq, thread⟩ ∅ := by
  constructor
  case idx => exact (by decide : (0 : UInt8).toNat < RQ_NQS)
  case ridx => exact (by decide : (0 : UInt8).toNat < RQ_NQS)
  case stands => simp
  case placed => exact Placed.empty
  case bits => exact fun p => by simp [bits, queues, tdq_setup, runq_init]
  case transferable => rfl
  case clear => exact fun td _ => h td

lemma Reached.kept {queued : Finset T} (h : Reached s queued) : Kept s queued := by
  induction h with
  | setup h => exact kept_setup h
  | @add s s' queued td flags _ htd hs ih =>
    obtain ⟨s₁, heq, hk⟩ := ih.runq_add htd flags
    rw [heq] at hs
    exact Except.ok.inj hs ▸ hk
  | @rem s s' queued td _ htd hs ih =>
    obtain ⟨s₁, heq, hk⟩ := ih.runq_rem htd
    rw [heq] at hs
    exact Except.ok.inj hs ▸ hk
  | choose _ hs ih => exact ih.choose hs
  | clock _ hs ih =>
    obtain ⟨tdq, heq, hk⟩ := ih.clock
    rw [heq] at hs
    exact Except.ok.inj hs ▸ hk
  | change _ hth ih => exact ih.of_thread hth

/-- **Progress**: in the states of a run the routines do not fault, the lottery's pick apart. -/
theorem Reached.proceeds {queued : Finset T} (h : Reached s queued) :
    (∀ td ∉ queued, ∀ flags, ∃ s', tdq_runq_add s td flags = .ok s') ∧
    (∀ td ∈ queued, ∃ s', tdq_runq_rem s td = .ok s') ∧
    (∃ tdq, clockAdvance s.tdq = .ok tdq) ∧
    ∀ rnd e, sched_choose s rnd = .error e → e = .divideByZero ∨ e = .noTicketHolder := by
  have hk := h.kept
  refine ⟨fun td htd flags => (hk.runq_add htd flags).imp fun _ h => h.1,
    fun td htd => (hk.runq_rem htd).imp fun _ h => h.1, hk.clock.imp fun _ h => h.1,
    fun rnd e he => ?_⟩
  unfold sched_choose at he
  cases hc : tdq_choose s rnd with
  | error e' =>
    rw [hc] at he
    cases he
    exact error_of_tdq_choose hc
  | ok c =>
    rw [hc, ok_bind] at he
    cases c with
    | none => cases he
    | some td =>
      obtain ⟨p, hp⟩ := mem_of_tdq_choose hc
      obtain ⟨s₁, heq, -⟩ := hk.runq_rem (hk.mem_queued hp).1
      dsimp only at he
      rw [heq, ok_bind] at he
      cases he

/-- The run queues as the scheduler relies on them. -/
structure Placement (s : Sys T) (queued : Finset T) : Prop where
  idx : s.tdq.tdq_idx.toNat < RQ_NQS
  ridx : s.tdq.tdq_ridx.toNat < RQ_NQS
  /-- A queued thread stands once, on the run queue of `ts_runq`, in the slot of
  `td_rqindex` or, in the lottery, in the first one. -/
  stands : ∀ td ∈ queued, ∃ n i, (s.thread td).ts_runq = some n ∧
    (n = .tdq_lottery → i = 0) ∧ (n ≠ .tdq_lottery → i.val = (s.thread td).td_rqindex.toNat) ∧
    ∀ m j, ((s.tdq.tdq_runq m).rq_queues j).count td = if m = n ∧ j = i then 1 else 0
  others : ∀ td ∉ queued, ∀ m j, td ∉ (s.tdq.tdq_runq m).rq_queues j
  status : ∀ m j, (s.tdq.tdq_runq m).rq_status j = true ↔ (s.tdq.tdq_runq m).rq_queues j ≠ []
  transferable : s.tdq.tdq_transferable = (queued.filter fun td => xferable (s.thread td)).card

/-- **Placement**: the run queues are kept in every state that additions, removals, choices,
clock ticks and changes of the threads lead to. -/
theorem placement_of_reached {queued : Finset T} (h : Reached s queued) : Placement s queued := by
  have hk := h.kept
  constructor
  case idx => exact hk.idx
  case ridx => exact hk.ridx
  case stands =>
    intro td htd
    obtain ⟨⟨n, i⟩, hst⟩ := hk.stands td htd
    obtain ⟨hr, hlot, hslot⟩ := standsIn_eq_some hst
    refine ⟨n, i, hr, hlot, fun hn => ?_, fun m j => ?_⟩
    · have hs := hslot hn
      unfold slot at hs
      split at hs
      · cases hs; rfl
      · cases hs
    · have hcount := hk.placed td (m, j)
      rw [placeOf, if_pos htd, hst] at hcount
      refine hcount.trans ?_
      simp only [Option.some.injEq, Prod.mk.injEq, eq_comm]
  case others =>
    intro td htd m j hmem
    exact htd (hk.mem_queued (p := (m, j)) hmem).1
  case status => exact fun m j => hk.bits (m, j)
  case transferable => exact hk.transferable

/-- A processor's queue before any thread is queued. -/
def idleSys : Sys Bool := ⟨tdq_setup zeroTdq, fun _ => ⟨200, 0, 0, .TDS_CAN_RUN, 1001, 0, none, 0⟩⟩

theorem placement_of_reached_added :
    ∃ s, tdq_runq_add idleSys true 0 = .ok s ∧ Placement s {true} := by
  have h0 : Reached idleSys ∅ := .setup fun _ => rfl
  obtain ⟨s, hs, -⟩ := h0.kept.runq_add (Finset.notMem_empty true) 0
  exact ⟨s, hs, placement_of_reached (h0.add (Finset.notMem_empty _) hs)⟩

end Messaround.Sched
