import Mathlib.Order.Bounds.Basic
import Messaround.Sched.Choice

/-!
The lowest priority that `tdq_setlowpri` records.

It is that of the thread `tdq_choose` picks, or of the current one if that is better: the best
of all only where the pick is.
-/

namespace Messaround.Sched

open Messaround.CInt Draw

variable {T : Type} {s : Sys T} {n : RunqName} {print : Bool} {rnd : ℕ} {td : T}

/-- `pc_curthread` is the thread running on the processor, which stands in for a `ctd` of
`NULL`. -/
def tdq_setlowpri (s : Sys T) (pc_curthread : T) (ctd : Option T) (rnd : ℕ) :
    Except Fault (Sys T) := do
  let ctd := ctd.getD pc_curthread
  match ← tdq_choose s rnd with
  | none => return setLowpri s (s.thread ctd).td_priority
  | some td =>
    if (s.thread td).td_priority > (s.thread ctd).td_priority then
      return setLowpri s (s.thread ctd).td_priority
    else return setLowpri s (s.thread td).td_priority

def priority (s : Sys T) (td : T) : ℕ := (s.thread td).td_priority.toNat

/-- The better one of a chosen thread's priority and the current one's is recorded. -/
lemma tdq_setlowpri_eq (c : T) (ctd : Option T) {r : Option T} (h : tdq_choose s rnd = .ok r) :
    ∃ s', tdq_setlowpri s c ctd rnd = .ok s' ∧ s'.tdq.tdq_lowpri.toNat =
      r.elim (priority s (ctd.getD c)) fun td => min (priority s td) (priority s (ctd.getD c)) := by
  unfold tdq_setlowpri
  rw [h, ok_bind]
  cases r with
  | none => exact ⟨_, rfl, rfl⟩
  | some td =>
    dsimp only [Option.elim_some]
    split
    next hgt => exact ⟨_, rfl, (min_eq_right (UInt8.lt_iff_toNat_lt.mp hgt).le).symm⟩
    next hgt => exact ⟨_, rfl, (min_eq_left (Nat.le_of_not_lt fun hlt =>
        hgt (UInt8.lt_iff_toNat_lt.mpr hlt))).symm⟩

/-! ### The best priority -/

/-- The priority recorded is the best of the current thread's and the lottery's. -/
def LowpriExact (s : Sys T) (pc_curthread : T) (ctd : Option T) (rnd : ℕ) : Prop :=
  ∃ s', tdq_setlowpri s pc_curthread ctd rnd = .ok s' ∧
    IsLeast {p | p = priority s (ctd.getD pc_curthread) ∨
      ∃ td ∈ lotteryQueue s .tdq_lottery, p = priority s td} s'.tdq.tdq_lowpri.toNat

/-- The tickets do not count as none, and the thread drawn is the best of the lottery, where
that is better than the current one. On an empty lottery, no idle thread is put in its place
that is better than the current one. -/
def BestDrawn (s : Sys T) (cur : T) (rnd : ℕ) : Prop :=
  if lotteryQueue s .tdq_lottery = [] then
    ∀ td, runq_choose (s.tdq.tdq_runq .tdq_idle) = some td → priority s cur ≤ priority s td
  else
    toInt (ticketSum (niceOf s) (lotteryQueue s .tdq_lottery)) ≠ 0 ∧
      ((∀ x ∈ lotteryQueue s .tdq_lottery, priority s cur ≤ priority s x) ∨
        ∃ td, holder s .tdq_lottery rnd = some td ∧
          ∀ x ∈ lotteryQueue s .tdq_lottery, priority s td ≤ priority s x)

lemma isLeast_min_iff {l : List T} {f : T → ℕ} {c : ℕ} {td : T} (h : td ∈ l) :
    IsLeast {p | p = c ∨ ∃ td ∈ l, p = f td} (min (f td) c) ↔
      (∀ x ∈ l, c ≤ f x) ∨ ∀ x ∈ l, f td ≤ f x := by
  constructor
  · rintro ⟨-, hlow⟩
    rcases le_total c (f td) with hc | hc
    · exact Or.inl fun x hx => (min_eq_right hc).symm.le.trans (hlow (Or.inr ⟨x, hx, rfl⟩))
    · exact Or.inr fun x hx => (min_eq_left hc).symm.le.trans (hlow (Or.inr ⟨x, hx, rfl⟩))
  · intro hbest
    constructor
    · rcases min_choice (f td) c with hm | hm
      · exact Or.inr ⟨td, h, hm⟩
      · exact Or.inl hm
    · rintro p (rfl | ⟨x, hx, rfl⟩)
      · exact min_le_right _ _
      · rcases hbest with hb | hb
        · exact (min_le_right _ _).trans (hb x hx)
        · exact (min_le_left _ _).trans (hb x hx)

/-- No realtime and no timeshare thread is queued. -/
def LotteryFirst (s : Sys T) : Prop :=
  (s.tdq.tdq_runq .tdq_realtime).Empty ∧ (s.tdq.tdq_runq .tdq_timeshare).Empty

lemma LotteryFirst.tdq_choose_eq (h : LotteryFirst s) (rnd : ℕ) :
    tdq_choose s rnd = (do
      match ← lottery_q_choose s .tdq_lottery true rnd with
      | some td => return some td
      | none => return runq_choose (s.tdq.tdq_runq .tdq_idle)) := by
  have hrt : runq_choose (s.tdq.tdq_runq .tdq_realtime) = none :=
    Option.bind_eq_none_iff.mpr fun i _ => by rw [h.1 i]; rfl
  have hts : runq_choose_from (s.tdq.tdq_runq .tdq_timeshare) s.tdq.tdq_ridx = none :=
    Option.bind_eq_none_iff.mpr fun i _ => by rw [h.2 i]; rfl
  rewrite [tdq_choose, hrt, hts]
  rfl

/-- **When the lowest priority is exact**: the draw must fall on a thread of the best priority,
or none of the lottery be better than the current thread. -/
theorem lowpriExact_iff (h : LotteryFirst s)
    (hn : ∀ td ∈ lotteryQueue s .tdq_lottery, 0 ≤ niceOf s td ∧ niceOf s td ≤ INT_MAX)
    (hr : rnd ≤ RANDOM_MAX) (c : T) (ctd : Option T) :
    LowpriExact s c ctd rnd ↔ BestDrawn s (ctd.getD c) rnd := by
  have hchoose := h.tdq_choose_eq rnd
  unfold LowpriExact BestDrawn
  by_cases hne : lotteryQueue s .tdq_lottery = []
  · rw [lottery_q_choose_nil hne, ok_bind] at hchoose
    obtain ⟨s', heq, hlow⟩ := tdq_setlowpri_eq c ctd hchoose
    have hset : {p | p = priority s (ctd.getD c) ∨
        ∃ td ∈ ([] : List T), p = priority s td} = {priority s (ctd.getD c)} := by
      ext p
      simp
    rw [if_pos hne, hne, hset]
    simp only [heq, Except.ok.injEq, exists_eq_left', hlow]
    cases runq_choose (s.tdq.tdq_runq .tdq_idle) with
    | none => exact iff_of_true isLeast_singleton fun _ htd => by cases htd
    | some td =>
      simp only [Option.elim_some, Option.some.injEq, forall_eq']
      refine ⟨fun hl => (hl.1 : _ = _) ▸ min_le_left _ _, fun hle => ?_⟩
      rw [min_eq_right hle]
      exact isLeast_singleton
  · rw [if_neg hne]
    by_cases h0 : toInt (ticketSum (niceOf s) (lotteryQueue s .tdq_lottery)) = 0
    · refine iff_of_false ?_ fun hb => hb.1 h0
      rintro ⟨s', heq, -⟩
      have hfault : lottery_q_choose s .tdq_lottery true rnd = .error .divideByZero := by
        rw [lottery_q_choose_eq hne, if_pos (toULong_toInt_eq_zero.mpr h0)]
      rw [hfault] at hchoose
      unfold tdq_setlowpri at heq
      rw [hchoose] at heq
      cases heq
    · obtain ⟨td, htd⟩ := exists_holder hn hr h0
      have hmem : td ∈ lotteryQueue s .tdq_lottery := mem_of_draw htd
      rw [(lottery_q_choose_holder hn hr hne h0).mpr htd, ok_bind] at hchoose
      obtain ⟨s', heq, hlow⟩ := tdq_setlowpri_eq c ctd hchoose
      simp only [heq, Except.ok.injEq, exists_eq_left', hlow, Option.elim_some, htd,
        Option.some.injEq]
      rw [isLeast_min_iff hmem, and_iff_right h0]

/-- A thread of priority 200 at the head of the lottery, one of 180 behind it; the current one
has 220. -/
def twoPriorities : Sys (Fin 3) where
  tdq := (lotteryOf [1, 2] 0).tdq
  thread td := ⟨if td = 0 then 220 else if td = 1 then 200 else 180, 0, 0, .TDS_RUNQ, 1001, 0, some .tdq_lottery, 0⟩

lemma lotteryFirst_twoPriorities : LotteryFirst twoPriorities := by
  constructor
  all_goals
    intro i
    simp [twoPriorities, lotteryOf, runq_init]

theorem lowpriExact_iff_twoPriorities :
    LowpriExact twoPriorities 0 none 1 ↔ BestDrawn twoPriorities 0 1 :=
  lowpriExact_iff lotteryFirst_twoPriorities (fun _ _ => ⟨le_rfl, Int.natCast_nonneg _⟩)
    (by decide) 0 none

/-- The draw of the first ticket hides the better thread. -/
theorem not_lowpriExact_twoPriorities :
    LotteryFirst twoPriorities ∧ lotteryQueue twoPriorities .tdq_lottery = [1, 2] ∧
      (∀ td, niceOf twoPriorities td = 0) ∧ priority twoPriorities 2 = 180 ∧
      (∃ s', tdq_setlowpri twoPriorities 0 none 0 = .ok s' ∧ s'.tdq.tdq_lowpri = 200) ∧
      ¬LowpriExact twoPriorities 0 none 0 := by
  refine ⟨lotteryFirst_twoPriorities, rfl, fun _ => rfl, rfl,
    ⟨setLowpri twoPriorities 200, rfl, rfl⟩, ?_⟩
  rintro ⟨s', heq, -, hlow⟩
  cases heq
  have hle := hlow (Or.inr ⟨2, by decide, rfl⟩)
  exact absurd hle (by decide)

end Messaround.Sched
