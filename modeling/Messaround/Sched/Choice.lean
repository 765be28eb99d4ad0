import Mathlib.Algebra.Group.Fin.Basic
import Messaround.Sched.Lottery

/-!
The order in which `tdq_choose` looks for a thread.

The slots of a queue in cyclic order from one of them are those at growing distance from it,
where a distance is a difference of slot numbers modulo their number.
-/

namespace Messaround.Sched

open Messaround.CInt Draw

variable {T : Type} {rq : Runq T} {td : T}

namespace Runq

def Empty (rq : Runq T) : Prop := ∀ i, rq.rq_queues i = []

/-- The bits tell which slots hold threads. -/
def Marked (rq : Runq T) : Prop := ∀ i, rq.rq_status i = true ↔ rq.rq_queues i ≠ []

/-- `td` is the first thread of the first slot with threads, in cyclic order from `start`. -/
def FirstFrom (rq : Runq T) (start : Fin RQ_NQS) (td : T) : Prop :=
  ∃ i, (rq.rq_queues i).head? = some td ∧ ∀ j, j - start < i - start → rq.rq_queues j = []

lemma Marked.status_eq_false (h : rq.Marked) {i : Fin RQ_NQS} :
    rq.rq_status i = false ↔ rq.rq_queues i = [] := by
  rw [← Bool.not_eq_true, h i, not_not]

end Runq

/-- The slot that a scan finds: the first one with threads, in cyclic order from `start`. -/
def Finds (rq : Runq T) (start : Fin RQ_NQS) (r : Option (Fin RQ_NQS)) : Prop :=
  (r = none ↔ rq.Empty) ∧ ∀ i, r = some i →
    rq.rq_queues i ≠ [] ∧ ∀ j, j - start < i - start → rq.rq_queues j = []

lemma runq_findbit_finds (h : rq.Marked) : Finds rq 0 (runq_findbit rq) := by
  constructor
  · rw [runq_findbit, find_slot_eq_none]
    exact forall_congr' fun i => h.status_eq_false
  · intro i hi
    obtain ⟨hset, hlow⟩ := find_slot_eq_some.mp hi
    refine ⟨(h i).mp hset, fun j hj => ?_⟩
    rw [sub_zero, sub_zero] at hj
    exact h.status_eq_false.mp (hlow j hj)

/-- The scan behind `pri` misses the slots below it, which the second scan starts with. -/
lemma runq_findbit_from_finds (h : rq.Marked) {pri : UInt8} (hp : pri.toNat < RQ_NQS) :
    Finds rq ⟨pri.toNat, hp⟩ (runq_findbit_from rq pri) := by
  unfold runq_findbit_from
  rw [if_pos hp]
  cases hf : (List.finRange RQ_NQS).find? fun i => decide (pri.toNat ≤ i.val) && rq.rq_status i with
  | some i =>
    obtain ⟨hset, hlow⟩ := find_slot_eq_some.mp hf
    rw [Bool.and_eq_true, decide_eq_true_eq, h i] at hset
    refine ⟨iff_of_false (by simp) fun he => hset.2 (he i), fun k hk => ?_⟩
    obtain rfl := Option.some.inj hk
    refine ⟨hset.2, fun j hj => ?_⟩
    rw [Fin.lt_def, Fin.sub_def, Fin.sub_def] at hj
    have hji : pri.toNat ≤ j.val ∧ j.val < i.val := by
      simp only [RQ_NQS] at *
      omega
    have hno := hlow j (Fin.lt_def.mpr hji.2)
    rw [decide_eq_true hji.1, Bool.true_and] at hno
    exact h.status_eq_false.mp hno
  | none =>
    have hhigh : ∀ j : Fin RQ_NQS, pri.toNat ≤ j.val → rq.rq_queues j = [] := fun j hj => by
      have hno := find_slot_eq_none.mp hf j
      rw [decide_eq_true hj, Bool.true_and] at hno
      exact h.status_eq_false.mp hno
    dsimp only
    split
    next h0 =>
      refine ⟨iff_of_true rfl fun j => hhigh j ?_, fun _ hi => by cases hi⟩
      rw [h0]
      exact Nat.zero_le _
    next h0 =>
      obtain ⟨hnone, hsome⟩ := runq_findbit_finds h
      refine ⟨hnone, fun i hi => ⟨(hsome i hi).1, fun j hj => ?_⟩⟩
      -- in the second scan the slots before `i` are those from `pri` on and those below `i`
      by_cases hjp : pri.toNat ≤ j.val
      · exact hhigh j hjp
      · refine (hsome i hi).2 j ?_
        have hip : i.val < pri.toNat := by
          by_contra hle
          exact (hsome i hi).1 (hhigh i (Nat.le_of_not_lt hle))
        rw [Fin.lt_def, Fin.sub_def, Fin.sub_def] at hj
        rw [sub_zero, sub_zero, Fin.lt_def]
        simp only [RQ_NQS] at *
        omega

lemma Finds.head {start : Fin RQ_NQS} {r : Option (Fin RQ_NQS)} (h : Finds rq start r) :
    ((r >>= fun pri => (rq.rq_queues pri).head?) = none ↔ rq.Empty) ∧
      ∀ td, (r >>= fun pri => (rq.rq_queues pri).head?) = some td → rq.FirstFrom start td := by
  cases r with
  | none => exact ⟨iff_of_true rfl (h.1.mp rfl), fun _ htd => by cases htd⟩
  | some i =>
    obtain ⟨hne, hlow⟩ := h.2 i rfl
    constructor
    · refine iff_of_false ?_ fun he => hne (he i)
      rw [Option.bind_eq_bind, Option.bind_some, List.head?_eq_none_iff]
      exact hne
    · exact fun td htd => ⟨i, htd, hlow⟩

lemma runq_choose_finds (h : rq.Marked) : (runq_choose rq = none ↔ rq.Empty) ∧
    ∀ td, runq_choose rq = some td → rq.FirstFrom 0 td :=
  (runq_findbit_finds h).head

lemma runq_choose_from_finds (h : rq.Marked) {idx : UInt8} (hidx : idx.toNat < RQ_NQS) :
    (runq_choose_from rq idx = none ↔ rq.Empty) ∧
      ∀ td, runq_choose_from rq idx = some td → rq.FirstFrom ⟨idx.toNat, hidx⟩ td :=
  (runq_findbit_from_finds h hidx).head

/-! ### The lottery -/

variable {s : Sys T} {n : RunqName} {print : Bool} {rnd : ℕ}

lemma lottery_q_choose_nil (h : lotteryQueue s n = []) :
    lottery_q_choose s n print rnd = .ok none := if_pos h

/-- The number of the ticket that an answer of `random()` draws. -/
def ticketDrawn (s : Sys T) (n : RunqName) (rnd : ℕ) : ℕ :=
  let tck_tot := toInt (ticketSum (niceOf s) (lotteryQueue s n))
  if 0 < tck_tot then (rnd % tck_tot).toNat else rnd

/-- The thread whose tickets hold the number drawn. -/
def holder (s : Sys T) (n : RunqName) (rnd : ℕ) : Option T :=
  draw (weight (niceOf s)) (lotteryQueue s n) (ticketDrawn s n rnd)

section draw

variable (hn : ∀ td ∈ lotteryQueue s n, 0 ≤ niceOf s td ∧ niceOf s td ≤ INT_MAX)
  (hr : rnd ≤ RANDOM_MAX)
include hn hr

/-- Also if the tickets do not fit their counter, the number drawn is below their total. -/
lemma exists_holder (h0 : toInt (ticketSum (niceOf s) (lotteryQueue s n)) ≠ 0) :
    ∃ td, holder s n rnd = some td := by
  refine exists_draw ?_
  have hsum := ticketSum_eq_total fun td htd => (hn td htd).1
  unfold ticketDrawn
  dsimp only
  rw [hsum] at h0 ⊢
  simp only [RANDOM_MAX] at hr
  split
  next hpos =>
    have hlt := Int.emod_lt_of_pos (rnd : ℤ) hpos
    unfold toInt at *
    omega
  next hpos =>
    unfold toInt at *
    omega

lemma lottery_q_choose_holder (hne : lotteryQueue s n ≠ [])
    (h0 : toInt (ticketSum (niceOf s) (lotteryQueue s n)) ≠ 0) :
    lottery_q_choose s n print rnd = .ok (some td) ↔ holder s n rnd = some td := by
  have hrange := toInt_range (ticketSum (niceOf s) (lotteryQueue s n))
  have hdrawn : toInt (rnd % toULong (toInt (ticketSum (niceOf s) (lotteryQueue s n)))) =
      ticketDrawn s n rnd := by
    unfold ticketDrawn
    dsimp only
    split
    next hpos =>
      rw [drawn_of_pos hpos hrange.2, Int.toNat_of_nonneg (Int.emod_nonneg _ hpos.ne')]
    next hpos => rw [drawn_of_neg (by omega) hrange.1 hr]
  have hmax : ticketDrawn s n rnd ≤ INT_MAX := by
    have hlong := toInt_range (rnd % toULong (toInt (ticketSum (niceOf s) (lotteryQueue s n))))
    rw [hdrawn] at hlong
    simp only [INT_MAX]
    omega
  rw [lottery_q_choose_iff hne, hdrawn, ticketHolder_eq_draw hn hmax, holder]
  exact and_iff_right h0

end draw

/-! ### The choice -/

/-- The queues in the order in which they are looked through. -/
structure ChosenInOrder (s : Sys T) (ridx : Fin RQ_NQS) (r : Option T) : Prop where
  realtime : ¬(s.tdq.tdq_runq .tdq_realtime).Empty →
    ∃ td, r = some td ∧ (s.tdq.tdq_runq .tdq_realtime).FirstFrom 0 td
  timeshare : (s.tdq.tdq_runq .tdq_realtime).Empty → ¬(s.tdq.tdq_runq .tdq_timeshare).Empty →
    ∃ td, r = some td ∧ (s.tdq.tdq_runq .tdq_timeshare).FirstFrom ridx td
  lottery : (s.tdq.tdq_runq .tdq_realtime).Empty → (s.tdq.tdq_runq .tdq_timeshare).Empty →
    ¬(s.tdq.tdq_runq .tdq_lottery).Empty → ∃ td ∈ lotteryQueue s .tdq_lottery, r = some td
  idle : (s.tdq.tdq_runq .tdq_realtime).Empty → (s.tdq.tdq_runq .tdq_timeshare).Empty →
    (s.tdq.tdq_runq .tdq_lottery).Empty → ¬(s.tdq.tdq_runq .tdq_idle).Empty →
    ∃ td, r = some td ∧ (s.tdq.tdq_runq .tdq_idle).FirstFrom 0 td
  none_iff : r = none ↔ ∀ n, (s.tdq.tdq_runq n).Empty

section choice

variable (hbits : ∀ n, (s.tdq.tdq_runq n).Marked)
  (hslot : ∀ i ≠ 0, (s.tdq.tdq_runq .tdq_lottery).rq_queues i = [])
  (hn : ∀ td ∈ lotteryQueue s .tdq_lottery, 0 ≤ niceOf s td ∧ niceOf s td ≤ INT_MAX)
  (hridx : s.tdq.tdq_ridx.toNat < RQ_NQS) (hr : rnd ≤ RANDOM_MAX)
include hbits

include hslot hn hr in
lemma exists_chosenInOrder
    (hT : (s.tdq.tdq_runq .tdq_realtime).Empty → (s.tdq.tdq_runq .tdq_timeshare).Empty →
      lotteryQueue s .tdq_lottery ≠ [] →
        toInt (ticketSum (niceOf s) (lotteryQueue s .tdq_lottery)) ≠ 0) :
    ∃ r, tdq_choose s rnd = .ok r ∧ ChosenInOrder s ⟨s.tdq.tdq_ridx.toNat, hridx⟩ r := by
  obtain ⟨hrt, hrt'⟩ := runq_choose_finds (hbits .tdq_realtime)
  obtain ⟨hts, hts'⟩ := runq_choose_from_finds (hbits .tdq_timeshare) hridx
  obtain ⟨hid, hid'⟩ := runq_choose_finds (hbits .tdq_idle)
  have hlot : (s.tdq.tdq_runq .tdq_lottery).Empty ↔ lotteryQueue s .tdq_lottery = [] :=
    ⟨fun h => h 0, fun h i => if hi : i = 0 then hi ▸ h else hslot i hi⟩
  unfold tdq_choose
  cases hr₁ : runq_choose (s.tdq.tdq_runq .tdq_realtime) with
  | some td =>
    have hne : ¬(s.tdq.tdq_runq .tdq_realtime).Empty := by rw [← hrt, hr₁]; simp
    refine ⟨some td, rfl, fun _ => ⟨td, rfl, hrt' td hr₁⟩, fun h => absurd h hne,
      fun h => absurd h hne, fun h => absurd h hne, iff_of_false (by simp) fun h => hne (h _)⟩
  | none =>
    have he := hrt.mp hr₁
    cases hr₂ : runq_choose_from (s.tdq.tdq_runq .tdq_timeshare) s.tdq.tdq_ridx with
    | some td =>
      have hne : ¬(s.tdq.tdq_runq .tdq_timeshare).Empty := by rw [← hts, hr₂]; simp
      refine ⟨some td, rfl, fun h => absurd he h, fun _ _ => ⟨td, rfl, hts' td hr₂⟩,
        fun _ h => absurd h hne, fun _ h => absurd h hne, iff_of_false (by simp) fun h => hne (h _)⟩
    | none =>
      have he₂ := hts.mp hr₂
      by_cases hl : lotteryQueue s .tdq_lottery = []
      · have he₃ := hlot.mpr hl
        simp only [lottery_q_choose_nil hl, ok_bind]
        refine ⟨_, rfl, fun h => absurd he h, fun _ h => absurd he₂ h, fun _ _ h => absurd he₃ h,
          fun _ _ _ h => ?_, hid.trans ⟨fun h n => ?_, fun h => h _⟩⟩
        · obtain ⟨td, htd⟩ := Option.ne_none_iff_exists'.mp fun hnone => h (hid.mp hnone)
          exact ⟨td, htd, hid' td htd⟩
        · cases n with
          | tdq_realtime => exact he
          | tdq_timeshare => exact he₂
          | tdq_lottery => exact he₃
          | tdq_idle => exact h
      · have h0 := hT he he₂ hl
        obtain ⟨td, htd⟩ := exists_holder hn hr h0
        have hmem : td ∈ lotteryQueue s .tdq_lottery := mem_of_draw htd
        have hpick : lottery_q_choose s .tdq_lottery true rnd = .ok (some td) :=
          (lottery_q_choose_holder hn hr hl h0).mpr htd
        have hne : ¬(s.tdq.tdq_runq .tdq_lottery).Empty := fun h => hl (hlot.mp h)
        simp only [hpick, ok_bind]
        refine ⟨some td, rfl, fun h => absurd he h, fun _ h => absurd he₂ h,
          fun _ _ _ => ⟨td, hmem, rfl⟩, fun _ _ h => absurd h hne,
          iff_of_false (by simp) fun h => hne (h _)⟩

include hridx in
lemma tdq_choose_divideByZero (hrt : (s.tdq.tdq_runq .tdq_realtime).Empty)
    (hts : (s.tdq.tdq_runq .tdq_timeshare).Empty) (hne : lotteryQueue s .tdq_lottery ≠ [])
    (h0 : toInt (ticketSum (niceOf s) (lotteryQueue s .tdq_lottery)) = 0) :
    tdq_choose s rnd = .error .divideByZero := by
  have hpick : lottery_q_choose s .tdq_lottery true rnd = .error .divideByZero := by
    rw [lottery_q_choose_eq hne, if_pos (toULong_toInt_eq_zero.mpr h0)]
  unfold tdq_choose
  rw [(runq_choose_finds (hbits .tdq_realtime)).1.mpr hrt]
  dsimp only
  rw [(runq_choose_from_finds (hbits .tdq_timeshare) hridx).1.mpr hts, hpick]
  rfl

include hslot hn hr in
/-- **The order of the choice**: realtime threads first, then the timeshare slots from
`tdq_ridx` around, then any thread of the lottery, then the idle ones; except where the lottery
is looked at and its tickets, counted in an `int`, are none. -/
theorem tdq_choose_inOrder :
    (∃ r, tdq_choose s rnd = .ok r ∧ ChosenInOrder s ⟨s.tdq.tdq_ridx.toNat, hridx⟩ r) ↔
      ((s.tdq.tdq_runq .tdq_realtime).Empty → (s.tdq.tdq_runq .tdq_timeshare).Empty →
        lotteryQueue s .tdq_lottery ≠ [] →
          toInt (ticketSum (niceOf s) (lotteryQueue s .tdq_lottery)) ≠ 0) := by
  refine ⟨fun ⟨r, hok, _⟩ hrt hts hne h0 => ?_, exists_chosenInOrder hbits hslot hn hridx hr⟩
  rw [tdq_choose_divideByZero hbits hridx hrt hts hne h0] at hok
  cases hok

end choice

lemma marked_slotZero {l : List T} (hl : l ≠ []) (m n : RunqName) :
    (Function.update (fun _ => runq_init) m
      (⟨fun i => decide (i = 0), Function.update (fun _ => []) 0 l⟩ : Runq T) n).Marked := by
  intro i
  rcases eq_or_ne n m with rfl | hn
  · rcases eq_or_ne i 0 with rfl | hi
    · simp [hl]
    · simp [hi]
  · simp [hn, runq_init]

lemma marked_lotteryOf {l : List T} (hl : l ≠ []) (nice : ℤ) (n : RunqName) :
    ((lotteryOf l nice).tdq.tdq_runq n).Marked := marked_slotZero hl .tdq_lottery n

lemma slots_lotteryOf (l : List T) (nice : ℤ) (i : Fin RQ_NQS) (hi : i ≠ 0) :
    ((lotteryOf l nice).tdq.tdq_runq .tdq_lottery).rq_queues i = [] := by
  simp [lotteryOf, hi]

lemma ticketSum_twoThreads :
    toInt (ticketSum (niceOf (lotteryOf [false, true] 4))
      (lotteryQueue (lotteryOf [false, true] 4) .tdq_lottery)) = 10 := by
  rw [lotteryQueue_lotteryOf, ticketSum_lotteryOf]
  decide

theorem tdq_choose_inOrder_twoThreads : ∃ r,
    tdq_choose (lotteryOf [false, true] 4) 7 = .ok r ∧
      ChosenInOrder (lotteryOf [false, true] 4) 0 r :=
  (tdq_choose_inOrder (marked_lotteryOf (by simp) 4) (slots_lotteryOf _ 4)
    (fun _ _ => ⟨by simp [niceOf, lotteryOf], by simp [niceOf, lotteryOf, INT_MAX]⟩) (by decide)
    (by decide)).mpr fun _ _ _ => by rw [ticketSum_twoThreads]; decide

/-- A thread on slot 0 of the timeshare queue, whose index is behind the last slot. -/
def lateSys : Sys Unit where
  tdq := { (zeroTdq : Tdq Unit) with
    tdq_runq := Function.update (fun _ => runq_init) .tdq_timeshare
      ⟨fun i => decide (i = 0), Function.update (fun _ => []) 0 [()]⟩
    tdq_ridx := 65 }
  thread _ := ⟨200, 0, 0, .TDS_RUNQ, 0, 0, some .tdq_timeshare, 0⟩

/-- The crowd's tickets are counted as none; the late index hides the only thread. -/
theorem not_tdq_choose_inOrder :
    ((∀ n, ((lotteryOf crowd 15).tdq.tdq_runq n).Marked) ∧
      (∀ i ≠ 0, ((lotteryOf crowd 15).tdq.tdq_runq .tdq_lottery).rq_queues i = []) ∧
      (∀ td, 0 ≤ niceOf (lotteryOf crowd 15) td) ∧
      ∀ rnd, tdq_choose (lotteryOf crowd 15) rnd = .error .divideByZero) ∧
    (∀ n, (lateSys.tdq.tdq_runq n).Marked) ∧ lotteryQueue lateSys .tdq_lottery = [] ∧
      ∀ rnd start, tdq_choose lateSys rnd = .ok none ∧ ¬ChosenInOrder lateSys start none := by
  have hne : crowd ≠ [] := List.ne_nil_of_mem (List.mem_range.mpr (by decide : 0 < 268435456))
  have hzero : toInt (ticketSum (niceOf (lotteryOf crowd 15))
      (lotteryQueue (lotteryOf crowd 15) .tdq_lottery)) = 0 := by
    rw [lotteryQueue_lotteryOf, ticketSum_lotteryOf, crowd, List.length_range]
    decide
  have hempty : ∀ n ≠ .tdq_lottery, ((lotteryOf crowd 15).tdq.tdq_runq n).Empty := fun n hn i => by
    simp [lotteryOf, hn, runq_init]
  have hlate := marked_slotZero (List.cons_ne_nil () []) .tdq_timeshare
  refine ⟨⟨marked_lotteryOf hne 15, slots_lotteryOf _ 15, fun _ => by simp [niceOf, lotteryOf],
    fun rnd => ?_⟩, hlate, rfl, fun rnd start => ⟨rfl, fun h => ?_⟩⟩
  · exact tdq_choose_divideByZero (marked_lotteryOf hne 15) (by decide) (hempty _ (by decide))
      (hempty _ (by decide)) (by rwa [lotteryQueue_lotteryOf]) hzero
  · have hempty := h.none_iff.mp rfl .tdq_timeshare 0
    cases hempty

end Messaround.Sched
