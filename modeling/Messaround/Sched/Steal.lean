import Mathlib.Data.List.Nodup
import Messaround.Sched.Choice
import Messaround.Sched.Placement

/-!
Stealing a thread for another processor: `tdq_steal` and what it finds.

The walk over the timeshare queue passes over the first thread it meets. It comes to that one
a second time if it started behind slot 0, and returns to it at its end if it met no other.
-/

namespace Messaround.Sched

variable {T : Type} {rq : Runq T} {can : T → Bool} {td : T}

/-! ### The routines -/

/-- `td_cpuset` holds the processors that each thread may run on. -/
def THREAD_CAN_SCHED (td_cpuset : T → ℕ → Bool) (td : T) (cpu : ℕ) : Bool := td_cpuset td cpu

/-- The threads that a scan meets from slot `k` on. -/
def scanned (rq : Runq T) (k : ℕ) : List T :=
  ((List.finRange RQ_NQS).filter fun i => decide (k ≤ i.val) && rq.rq_status i).flatMap rq.rq_queues

/-- The walk of `runq_steal_from` along the threads it meets: the thread it returns, or the
value of `first` at its end. -/
def stealWalk (can : T → Bool) : List T → (first : Option T) → T ⊕ Option T
  | [], first => .inr first
  | td :: l, first =>
    if first.isSome ∧ can td then .inl td else stealWalk can l (some td)

/-- `can` tells whether a thread can migrate and be scheduled on the processor in question. -/
def runq_steal_from (rq : Runq T) (can : T → Bool) (start : UInt8) : Option T :=
  let here := if start.toNat < RQ_NQS then scanned rq start.toNat else []
  match stealWalk can here none with
  | .inl td => some td
  | .inr first =>
    -- behind the last word the bit of `start` is left for the second scan to begin with
    let again := scanned rq (if start.toNat < RQ_NQS then 0 else start.toNat % RQ_NQS)
    match if start ≠ 0 then stealWalk can again first else .inr first with
    | .inl td => some td
    | .inr first => first.filter can

def runq_steal (rq : Runq T) (can : T → Bool) : Option T := (scanned rq 0).find? can

/-- A thread that the processor `cpu` may take over. -/
def canSteal (s : Sys T) (td_cpuset : T → ℕ → Bool) (cpu : ℕ) (td : T) : Bool :=
  THREAD_CAN_MIGRATE (s.thread td) && THREAD_CAN_SCHED td_cpuset td cpu

def tdq_steal (s : Sys T) (td_cpuset : T → ℕ → Bool) (cpu : ℕ) : Option T :=
  let can := canSteal s td_cpuset cpu
  match runq_steal (s.tdq.tdq_runq .tdq_realtime) can with
  | some td => some td
  | none =>
    match runq_steal_from (s.tdq.tdq_runq .tdq_timeshare) can s.tdq.tdq_ridx with
    | some td => some td
    | none => runq_steal (s.tdq.tdq_runq .tdq_idle) can

/-! ### The walk -/

/-- What the walk comes to. -/
def stealEnd (can : T → Bool) (l : List T) (first : Option T) : Option T :=
  match stealWalk can l first with
  | .inl td => some td
  | .inr first => first.filter can

lemma stealWalk_append (l l' : List T) (first : Option T) :
    stealWalk can (l ++ l') first =
      match stealWalk can l first with
      | .inl td => .inl td
      | .inr first => stealWalk can l' first := by
  induction l generalizing first with
  | nil => rfl
  | cons td l ih =>
    simp only [List.cons_append, stealWalk]
    split
    · rfl
    · exact ih (some td)

/-- Behind a first thread every one counts, and that one itself if there is no other. -/
lemma stealEnd_some_iff {l : List T} {a : T} :
    stealEnd can l (some a) ≠ none ↔ (∃ td ∈ l, can td) ∨ l = [] ∧ can a := by
  induction l generalizing a with
  | nil => simp [stealEnd, stealWalk, Option.filter_eq_none_iff]
  | cons td l ih =>
    unfold stealEnd stealWalk
    by_cases htd : can td
    · simp [htd]
    · have ih := @ih td
      unfold stealEnd at ih
      simpa [htd] using ih

lemma stealEnd_iff {a b : List T} (hsub : a ⊆ b) (hnd : b.Nodup) :
    stealEnd can (a ++ b) none ≠ none ↔
      ∃ td ∈ b, can td ∧ (b = [td] ∨ b.head? ≠ some td ∨ a ≠ []) := by
  have hstart : ∀ x l, stealEnd can (x :: l) none = stealEnd can l (some x) := fun x l => by
    simp [stealEnd, stealWalk]
  cases a with
  | nil =>
    cases b with
    | nil => simp [stealEnd, stealWalk]
    | cons x l =>
      obtain ⟨hx, -⟩ := List.nodup_cons.mp hnd
      rw [List.nil_append, hstart, stealEnd_some_iff]
      constructor
      · rintro (⟨td, htd, hc⟩ | ⟨rfl, hc⟩)
        · refine ⟨td, List.mem_cons_of_mem _ htd, hc, Or.inr (Or.inl fun he => hx ?_)⟩
          rw [List.head?_cons, Option.some.injEq] at he
          exact he ▸ htd
        · exact ⟨x, by simp, hc, Or.inl rfl⟩
      · rintro ⟨td, htd, hc, hcase⟩
        rcases List.mem_cons.mp htd with rfl | htd
        · refine Or.inr ⟨?_, hc⟩
          rcases hcase with he | he | he
          · exact (List.cons.inj he).2
          · exact absurd rfl he
          · exact absurd rfl he
        · exact Or.inl ⟨td, htd, hc⟩
  | cons x l =>
    have hxb : x ∈ b := hsub List.mem_cons_self
    rw [List.cons_append, hstart, stealEnd_some_iff]
    constructor
    · rintro (⟨td, htd, hc⟩ | ⟨he, -⟩)
      · refine ⟨td, ?_, hc, Or.inr (Or.inr (List.cons_ne_nil _ _))⟩
        exact (List.mem_append.mp htd).elim (fun h => hsub (List.mem_cons_of_mem _ h)) id
      · exact absurd (List.append_eq_nil_iff.mp he).2 (List.ne_nil_of_mem hxb)
    · rintro ⟨td, htd, hc, -⟩
      exact Or.inl ⟨td, List.mem_append_right _ htd, hc⟩

/-! ### The scans -/

namespace Runq

/-- The threads of a queue, slot by slot. -/
def threads (rq : Runq T) : List T := (List.finRange RQ_NQS).flatMap rq.rq_queues

lemma mem_threads : td ∈ rq.threads ↔ ∃ i, td ∈ rq.rq_queues i := by simp [threads]

end Runq

lemma mem_scanned (h : rq.Marked) {k : ℕ} :
    td ∈ scanned rq k ↔ ∃ i, k ≤ i.val ∧ td ∈ rq.rq_queues i := by
  simp only [scanned, List.mem_flatMap, List.mem_filter, List.mem_finRange, true_and,
    Bool.and_eq_true, decide_eq_true_eq]
  refine exists_congr fun i => ⟨fun hi => ⟨hi.1.1, hi.2⟩, fun hi => ⟨⟨hi.1, ?_⟩, hi.2⟩⟩
  exact (h i).mpr (List.ne_nil_of_mem hi.2)

lemma scanned_zero (h : rq.Marked) : scanned rq 0 = rq.threads := by
  unfold scanned Runq.threads
  induction List.finRange RQ_NQS with
  | nil => rfl
  | cons i is ih =>
    rw [List.filter_cons]
    split
    · rw [List.flatMap_cons, List.flatMap_cons, ih]
    next hi =>
      have hempty : rq.rq_queues i = [] := h.status_eq_false.mp (by simpa using hi)
      rw [List.flatMap_cons, ih, hempty, List.nil_append]

lemma runq_steal_ne_none (h : rq.Marked) :
    runq_steal rq can ≠ none ↔ ∃ td ∈ rq.threads, can td := by
  rw [runq_steal, scanned_zero h, ne_eq, List.find?_eq_none]
  simp

lemma runq_steal_from_eq (h : rq.Marked) {start : UInt8} (hs : start.toNat < RQ_NQS) :
    runq_steal_from rq can start =
      stealEnd can ((if start = 0 then [] else scanned rq start.toNat) ++ rq.threads) none := by
  unfold runq_steal_from stealEnd
  simp only [if_pos hs, scanned_zero h]
  rcases eq_or_ne start 0 with rfl | h0
  · have hz : scanned rq (0 : UInt8).toNat = rq.threads := scanned_zero h
    rw [hz, if_pos rfl, List.nil_append]
    simp only [ne_eq, not_true_eq_false, if_false]
  · rw [if_neg h0, stealWalk_append]
    cases stealWalk can (scanned rq start.toNat) none with
    | inl td => rfl
    | inr first => simp only [if_pos h0]

/-- The walk over a queue from slot `start`: whether there is more than its first thread. -/
lemma runq_steal_from_ne_none (h : rq.Marked) (hnd : rq.threads.Nodup) {start : UInt8}
    (hs : start.toNat < RQ_NQS) :
    runq_steal_from rq can start ≠ none ↔ ∃ td ∈ rq.threads, can td ∧ (rq.threads = [td] ∨
      rq.threads.head? ≠ some td ∨ start ≠ 0 ∧ ∃ i, start.toNat ≤ i.val ∧ rq.rq_queues i ≠ []) := by
  have hsub : (if start = 0 then [] else scanned rq start.toNat) ⊆ rq.threads := by
    intro x hx
    split at hx
    · cases hx
    · obtain ⟨i, -, hi⟩ := (mem_scanned h).mp hx
      exact Runq.mem_threads.mpr ⟨i, hi⟩
  have hne : (if start = 0 then [] else scanned rq start.toNat) ≠ [] ↔
      start ≠ 0 ∧ ∃ i, start.toNat ≤ i.val ∧ rq.rq_queues i ≠ [] := by
    by_cases h0 : start = 0
    · simp [h0]
    · rw [if_neg h0]
      constructor
      · intro hscan
        obtain ⟨x, hx⟩ := List.exists_mem_of_ne_nil _ hscan
        obtain ⟨i, hi, hx⟩ := (mem_scanned h).mp hx
        exact ⟨h0, i, hi, List.ne_nil_of_mem hx⟩
      · rintro ⟨-, i, hi, hq⟩
        obtain ⟨x, hx⟩ := List.exists_mem_of_ne_nil _ hq
        exact List.ne_nil_of_mem ((mem_scanned h).mpr ⟨i, hi, hx⟩)
  rw [runq_steal_from_eq h hs, stealEnd_iff hsub hnd]
  simp only [hne]

/-! ### The lottery's threads -/

/-- If the lottery holds a thread for the processor, some thread is found. -/
def LotteryStolen (s : Sys T) (td_cpuset : T → ℕ → Bool) (cpu : ℕ) : Prop :=
  (∃ td ∈ lotteryQueue s .tdq_lottery, canSteal s td_cpuset cpu td) →
    tdq_steal s td_cpuset cpu ≠ none

/-- Another queue holds a thread for the processor; on the timeshare queue it must not be the
first one, unless there is no other or the walk has met some thread before slot 0. -/
def OtherStealable (s : Sys T) (td_cpuset : T → ℕ → Bool) (cpu : ℕ) : Prop :=
  (∃ td ∈ (s.tdq.tdq_runq .tdq_realtime).threads, canSteal s td_cpuset cpu td) ∨
  (∃ td ∈ (s.tdq.tdq_runq .tdq_timeshare).threads, canSteal s td_cpuset cpu td ∧
    ((s.tdq.tdq_runq .tdq_timeshare).threads = [td] ∨
      (s.tdq.tdq_runq .tdq_timeshare).threads.head? ≠ some td ∨
      s.tdq.tdq_ridx ≠ 0 ∧ ∃ i, s.tdq.tdq_ridx.toNat ≤ i.val ∧
        (s.tdq.tdq_runq .tdq_timeshare).rq_queues i ≠ [])) ∨
  ∃ td ∈ (s.tdq.tdq_runq .tdq_idle).threads, canSteal s td_cpuset cpu td

variable [DecidableEq T] {s : Sys T} {queued : Finset T}

lemma Kept.marked (h : Kept s queued) (n : RunqName) : (s.tdq.tdq_runq n).Marked :=
  fun i => h.bits (n, i)

lemma Kept.threads_nodup (h : Kept s queued) (n : RunqName) :
    (s.tdq.tdq_runq n).threads.Nodup := by
  refine List.nodup_flatMap.mpr ⟨fun i _ => h.placed.nodup (n, i), ?_⟩
  refine (List.nodup_finRange RQ_NQS).imp fun {i j} hij => ?_
  refine List.disjoint_left.mpr ?_
  intro td hi hj
  have hpi := h.placed.mem_iff.mp (show td ∈ queues s (n, i) from hi)
  have hpj := h.placed.mem_iff.mp (show td ∈ queues s (n, j) from hj)
  exact hij (Prod.mk.inj (Option.some.inj (hpi.symm.trans hpj))).2

lemma Kept.tdq_steal_ne_none (h : Kept s queued) (td_cpuset : T → ℕ → Bool) (cpu : ℕ) :
    tdq_steal s td_cpuset cpu ≠ none ↔ OtherStealable s td_cpuset cpu := by
  unfold tdq_steal OtherStealable
  rw [← runq_steal_ne_none (h.marked .tdq_realtime), ← runq_steal_ne_none (h.marked .tdq_idle),
    ← runq_steal_from_ne_none (h.marked .tdq_timeshare) (h.threads_nodup _) h.ridx]
  dsimp only
  cases runq_steal (s.tdq.tdq_runq .tdq_realtime) (canSteal s td_cpuset cpu) with
  | some td => simp
  | none =>
    cases runq_steal_from (s.tdq.tdq_runq .tdq_timeshare) (canSteal s td_cpuset cpu)
        s.tdq.tdq_ridx with
    | some td => simp
    | none => simp

/-- **The lottery's threads are not stolen**: a thread is found exactly where one of the other
queues has it. -/
theorem lotteryStolen_iff (h : Reached s queued) (td_cpuset : T → ℕ → Bool) (cpu : ℕ) :
    LotteryStolen s td_cpuset cpu ↔
      ((∃ td ∈ lotteryQueue s .tdq_lottery, canSteal s td_cpuset cpu td) →
        OtherStealable s td_cpuset cpu) := by
  rw [LotteryStolen, h.kept.tdq_steal_ne_none td_cpuset cpu]

theorem lotteryStolen_iff_added : ∃ s, tdq_runq_add idleSys true 0 = .ok s ∧
    (LotteryStolen s (fun _ _ => true) 0 ↔
      ((∃ td ∈ lotteryQueue s .tdq_lottery, canSteal s (fun _ _ => true) 0 td) →
        OtherStealable s (fun _ _ => true) 0)) := by
  have h0 : Reached idleSys ∅ := .setup fun _ => rfl
  have hadd : tdq_runq_add idleSys true 0 = .ok _ := rfl
  exact ⟨_, rfl, lotteryStolen_iff (h0.add (Finset.notMem_empty _) hadd) (fun _ _ => true) 0⟩

/-- The only thread queued can run anywhere, is counted, and stands on the lottery queue. -/
theorem not_lotteryStolen : ∃ s, tdq_runq_add idleSys true 0 = .ok s ∧ Reached s {true} ∧
    s.tdq.tdq_transferable = 1 ∧ lotteryQueue s .tdq_lottery = [true] ∧
    canSteal s (fun _ _ => true) 0 true ∧ tdq_steal s (fun _ _ => true) 0 = none ∧
    ¬LotteryStolen s (fun _ _ => true) 0 := by
  have h0 : Reached idleSys ∅ := .setup fun _ => rfl
  have hadd : tdq_runq_add idleSys true 0 = .ok _ := rfl
  have h1 : Reached _ {true} := h0.add (Finset.notMem_empty _) hadd
  exact ⟨_, rfl, h1, rfl, rfl, rfl, rfl, fun h => h ⟨true, List.mem_singleton.mpr rfl, rfl⟩ rfl⟩

end Messaround.Sched
