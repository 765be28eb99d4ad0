import Messaround.Lib.Draw
import Messaround.Sched.Ule

/-!
The lottery: when the pick is defined, and how often it falls on each thread.

The code's walk subtracts in an `int`. A remainder that passes the ends of the type changes
its sign there, so the walk goes on exactly as long as the plain remainder stays in
`[0, 2 ^ 31)`.
-/

namespace Messaround.Sched

open Messaround.CInt Draw

variable {T : Type} {nice : T → ℤ} {l : List T} {r : ℤ}

/-- The tickets of a thread, and those of a queue. -/
def tickets (nice : T → ℤ) (td : T) : ℤ := nice td + 1
def ticketSum (nice : T → ℤ) (l : List T) : ℤ := (l.map (tickets nice)).sum

lemma toInt_add_toInt (x y : ℤ) : toInt (toInt x + y) = toInt (x + y) := by
  unfold toInt
  omega

lemma ticketTotal_eq (nice : T → ℤ) (l : List T) : ticketTotal nice l = toInt (ticketSum nice l) := by
  have hfold : ∀ a : ℤ, l.foldl (fun tck_tot td => toInt (tck_tot + (nice td + 1))) (toInt a) =
      toInt (a + ticketSum nice l) := by
    induction l with
    | nil => intro a; simp [ticketSum]
    | cons td l ih =>
      intro a
      rw [List.foldl_cons, toInt_add_toInt, ih]
      simp only [ticketSum, tickets, List.map_cons, List.sum_cons, add_assoc]
  have h0 := hfold 0
  rw [zero_add] at h0
  exact h0

lemma mem_of_ticketHolder {td : T} (h : ticketHolder nice l r = some td) : td ∈ l := by
  induction l generalizing r with
  | nil => cases h
  | cons t l ih =>
    unfold ticketHolder at h
    dsimp only at h
    split at h
    · cases h; simp
    · exact List.mem_cons_of_mem _ (ih h)

/-- The values a kernel's nice can take. -/
def NiceRange (nice : T → ℤ) (l : List T) : Prop :=
  ∀ td ∈ l, PRIO_MIN ≤ nice td ∧ nice td ≤ PRIO_MAX

/-- The walk ends behind the list when no remainder leaves the range of the type. -/
lemma ticketHolder_eq_none (hn : NiceRange nice l) (h0 : 0 ≤ r) (h1 : r < 2147483648) :
    ticketHolder nice l r = none ↔ Stays (tickets nice) 2147483648 l r := by
  induction l generalizing r with
  | nil => simp [ticketHolder, Stays, h0, h1]
  | cons t l ih =>
    have ht : -20 ≤ nice t ∧ nice t ≤ 20 := hn t (by simp)
    have hl : NiceRange nice l := fun td htd => hn td (List.mem_cons_of_mem _ htd)
    unfold ticketHolder Stays
    dsimp only
    by_cases hneg : toInt (r - (nice t + 1)) < 0
    · simp only [if_pos hneg, reduceCtorEq, false_iff, not_and]
      intro _ hst
      have hst := stays_iff.mp hst
      have hh := highest_nonneg (tickets nice) l
      have hlow := lowest_nonpos (tickets nice) l
      simp only [tickets, toInt] at *
      omega
    · rw [if_neg hneg]
      have heq : toInt (r - (nice t + 1)) = r - tickets nice t := by
        unfold toInt tickets at *
        omega
      have hr := toInt_range (r - (nice t + 1))
      rw [ih hl (by omega) hr.2, heq]
      simp [h0, h1]

/-! ### The pick -/

variable (s : Sys T) (n : RunqName)

/-- The lottery's queue, and the nice values the kernel reads. -/
def lotteryQueue : List T := (s.tdq.tdq_runq n).rq_queues 0
def niceOf (td : T) : ℤ := (s.thread td).p_nice

/-- Whatever `random()` answers, the pick neither faults nor misses the queue. -/
def PickDefined : Prop := ∀ print, ∀ rnd ≤ RANDOM_MAX,
  ∃ td ∈ lotteryQueue s n, lottery_q_choose s n print rnd = .ok (some td)

variable {s n} {print : Bool} {rnd : ℕ}

lemma toULong_toInt_eq_zero {x : ℤ} : toULong (toInt x) = 0 ↔ toInt x = 0 := by
  unfold toULong toInt
  omega

lemma lottery_q_choose_eq (hne : lotteryQueue s n ≠ []) :
    lottery_q_choose s n print rnd =
      if toULong (toInt (ticketSum (niceOf s) (lotteryQueue s n))) = 0 then .error .divideByZero
      else
        match ticketHolder (niceOf s) (lotteryQueue s n)
            (toInt (rnd % toULong (toInt (ticketSum (niceOf s) (lotteryQueue s n))))) with
        | some td => .ok (some td)
        | none => if print then .error .noTicketHolder else .ok none := by
  rw [← ticketTotal_eq]
  exact if_neg hne

lemma lottery_q_choose_iff (hne : lotteryQueue s n ≠ []) {td : T} :
    lottery_q_choose s n print rnd = .ok (some td) ↔
      toInt (ticketSum (niceOf s) (lotteryQueue s n)) ≠ 0 ∧
      ticketHolder (niceOf s) (lotteryQueue s n)
        (toInt (rnd % toULong (toInt (ticketSum (niceOf s) (lotteryQueue s n))))) = some td := by
  rw [lottery_q_choose_eq hne]
  simp only [toULong_toInt_eq_zero]
  by_cases h0 : toInt (ticketSum (niceOf s) (lotteryQueue s n)) = 0
  · simp [h0]
  · rw [if_neg h0]
    cases ticketHolder (niceOf s) (lotteryQueue s n)
        (toInt (rnd % toULong (toInt (ticketSum (niceOf s) (lotteryQueue s n))))) with
    | some t => simp [h0]
    | none => cases print <;> simp

lemma exists_pick_iff (hne : lotteryQueue s n ≠ []) :
    (∃ td ∈ lotteryQueue s n, lottery_q_choose s n print rnd = .ok (some td)) ↔
      toInt (ticketSum (niceOf s) (lotteryQueue s n)) ≠ 0 ∧
      ticketHolder (niceOf s) (lotteryQueue s n)
        (toInt (rnd % toULong (toInt (ticketSum (niceOf s) (lotteryQueue s n))))) ≠ none := by
  constructor
  · rintro ⟨td, -, h⟩
    obtain ⟨h0, h⟩ := (lottery_q_choose_iff hne).mp h
    exact ⟨h0, by rw [h]; simp⟩
  · rintro ⟨h0, h⟩
    obtain ⟨td, htd⟩ := Option.ne_none_iff_exists'.mp h
    exact ⟨td, mem_of_ticketHolder htd, (lottery_q_choose_iff hne).mpr ⟨h0, htd⟩⟩

lemma mem_of_lottery_q_choose {td : T} (h : lottery_q_choose s n print rnd = .ok (some td)) :
    td ∈ lotteryQueue s n := by
  rcases eq_or_ne (lotteryQueue s n) [] with hq | hne
  · have hnone : lottery_q_choose s n print rnd = .ok none := if_pos hq
    rw [hnone] at h
    cases h
  · exact mem_of_ticketHolder ((lottery_q_choose_iff hne).mp h).2

lemma error_of_lottery_q_choose {e : Fault}
    (h : lottery_q_choose s n print rnd = .error e) : e = .divideByZero ∨ e = .noTicketHolder := by
  rcases eq_or_ne (lotteryQueue s n) [] with hq | hne
  · have hnone : lottery_q_choose s n print rnd = .ok none := if_pos hq
    rw [hnone] at h
    cases h
  · rw [lottery_q_choose_eq hne] at h
    split at h
    · cases h; exact Or.inl rfl
    · split at h
      · cases h
      · split at h
        · cases h; exact Or.inr rfl
        · cases h

lemma error_of_tdq_choose {e : Fault} (h : tdq_choose s rnd = .error e) :
    e = .divideByZero ∨ e = .noTicketHolder := by
  unfold tdq_choose at h
  split at h
  · cases h
  · split at h
    · cases h
    · cases hl : lottery_q_choose s .tdq_lottery true rnd with
      | error e' =>
        rw [hl] at h
        cases h
        exact error_of_lottery_q_choose hl
      | ok r =>
        rw [hl, ok_bind] at h
        cases r <;> cases h

lemma drawn_of_pos {k : ℤ} (h : 0 < k) (hk : k < 2147483648) :
    toInt (rnd % toULong k) = rnd % k := by
  have h1 := Int.emod_lt_of_pos (rnd : ℤ) h
  have h2 := Int.emod_nonneg (rnd : ℤ) h.ne'
  rw [toULong_of_range h.le (by omega), toInt_of_range (by omega) (by omega)]

lemma drawn_of_neg {k : ℤ} (h : k < 0) (hk : -2147483648 ≤ k) (hr : rnd ≤ RANDOM_MAX) :
    toInt (rnd % toULong k) = rnd := by
  simp only [RANDOM_MAX] at hr
  have hlt : (rnd : ℤ) < toULong k := by
    unfold toULong
    omega
  rw [Int.emod_eq_of_lt (by omega) hlt, toInt_of_range (by omega) (by omega)]

/-- The tickets, reduced to an `int`, are more than none; or they are fewer and their
running sums lie so far apart that every draw meets one of them. -/
def Covered (nice : T → ℤ) (l : List T) : Prop :=
  0 < toInt (ticketSum nice l) ∨ toInt (ticketSum nice l) < 0 ∧
    2147483648 ≤ highest (tickets nice) l - lowest (tickets nice) l

/-- **When the lottery is defined**: a nice value below zero can leave no tickets, and then
the remainder is taken by zero, or fewer than none, and then a draw outlasts the list. -/
theorem pickDefined_iff (hne : lotteryQueue s n ≠ [])
    (hn : NiceRange (niceOf s) (lotteryQueue s n)) :
    PickDefined s n ↔ Covered (niceOf s) (lotteryQueue s n) := by
  have hrange := toInt_range (ticketSum (niceOf s) (lotteryQueue s n))
  have hsum := sum_le_highest (tickets (niceOf s)) (lotteryQueue s n)
  have hlow := lowest_nonpos (tickets (niceOf s)) (lotteryQueue s n)
  have hhigh := highest_nonneg (tickets (niceOf s)) (lotteryQueue s n)
  unfold PickDefined Covered
  simp only [exists_pick_iff hne]
  rcases lt_trichotomy (toInt (ticketSum (niceOf s) (lotteryQueue s n))) 0 with hk | hk | hk
  · -- the draw is the answer of `random()` itself
    have hstay : ∀ rnd ≤ RANDOM_MAX, ticketHolder (niceOf s) (lotteryQueue s n)
        (toInt ((rnd : ℕ) % toULong (toInt (ticketSum (niceOf s) (lotteryQueue s n))))) = none ↔
        highest (tickets (niceOf s)) (lotteryQueue s n) ≤ rnd ∧
        (rnd : ℤ) < 2147483648 + lowest (tickets (niceOf s)) (lotteryQueue s n) := by
      intro rnd hr
      rw [drawn_of_neg hk hrange.1 hr, ticketHolder_eq_none hn (by omega)
        (by simp only [RANDOM_MAX] at hr; omega), stays_iff]
    constructor
    · intro h
      refine Or.inr ⟨hk, ?_⟩
      by_contra hspan
      have hr : (highest (tickets (niceOf s)) (lotteryQueue s n)).toNat ≤ RANDOM_MAX := by
        simp only [RANDOM_MAX]
        omega
      exact (h true _ hr).2 ((hstay _ hr).mpr (by omega))
    · intro h print rnd hr
      refine ⟨hk.ne, fun hnone => ?_⟩
      have := (hstay rnd hr).mp hnone
      omega
  · simp only [hk, ne_eq, not_true_eq_false, false_and, lt_self_iff_false, or_self, iff_false]
    exact fun h => h true 0 (Nat.zero_le _)
  · -- the remainder is below the total, which the last running sum cannot stay under
    refine iff_of_true (fun print rnd _ => ⟨hk.ne', fun hnone => ?_⟩) (Or.inl hk)
    rw [drawn_of_pos hk hrange.2] at hnone
    have h1 := Int.emod_lt_of_pos (rnd : ℤ) hk
    have h2 := Int.emod_nonneg (rnd : ℤ) hk.ne'
    have hst := stays_iff.mp ((ticketHolder_eq_none hn h2 (by omega)).mp hnone)
    unfold toInt ticketSum at *
    omega

/-- A system whose lottery queue is `l`, each thread with the same nice value. -/
def lotteryOf (l : List T) (nice : ℤ) : Sys T where
  tdq := { (zeroTdq : Tdq T) with
    tdq_runq := Function.update (fun _ => runq_init) .tdq_lottery
      ⟨fun i => decide (i = 0), Function.update (fun _ => []) 0 l⟩ }
  thread _ := ⟨200, 0, 0, .TDS_RUNQ, 1001, nice, some .tdq_lottery, 0⟩

lemma lotteryQueue_lotteryOf (l : List T) (nice : ℤ) :
    lotteryQueue (lotteryOf l nice) .tdq_lottery = l := by
  simp [lotteryQueue, lotteryOf]

lemma ticketSum_lotteryOf (l : List T) (nice : ℤ) :
    ticketSum (niceOf (lotteryOf l nice)) l = l.length * (nice + 1) := by
  have hf : tickets (niceOf (lotteryOf l nice)) = fun _ => nice + 1 := rfl
  simp [ticketSum, hf]

theorem pickDefined_iff_oneThread :
    PickDefined (lotteryOf [()] 0) .tdq_lottery ↔ Covered (niceOf (lotteryOf [()] 0)) [()] :=
  pickDefined_iff (by simp [lotteryQueue_lotteryOf])
    (fun _ _ => by simp [niceOf, lotteryOf])

/-- A single thread with a nice value of `-1` holds no ticket. -/
theorem not_pickDefined_oneThread :
    lotteryQueue (lotteryOf [()] (-1)) .tdq_lottery ≠ [] ∧
      NiceRange (niceOf (lotteryOf [()] (-1)))
        (lotteryQueue (lotteryOf [()] (-1)) .tdq_lottery) ∧
      (∀ print rnd, lottery_q_choose (lotteryOf [()] (-1)) .tdq_lottery print rnd =
        .error .divideByZero) ∧
      ¬PickDefined (lotteryOf [()] (-1)) .tdq_lottery := by
  have hfault : ∀ print rnd, lottery_q_choose (lotteryOf [()] (-1)) .tdq_lottery print rnd =
      .error .divideByZero := fun _ _ => rfl
  refine ⟨by simp [lotteryQueue_lotteryOf], fun _ _ => by simp [niceOf, lotteryOf], hfault,
    fun h => ?_⟩
  obtain ⟨td, -, htd⟩ := h true 0 (Nat.zero_le _)
  rw [hfault] at htd
  cases htd

/-! ### Proportionality -/

/-- The tickets of a thread whose nice value is not negative. -/
def weight (nice : T → ℤ) (td : T) : ℕ := (tickets nice td).toNat

lemma ticketSum_eq_total (hn : ∀ td ∈ l, 0 ≤ nice td) : ticketSum nice l = total (weight nice) l := by
  induction l with
  | nil => rfl
  | cons t l ih =>
    have ht := hn t (by simp)
    have ih := ih fun td htd => hn td (List.mem_cons_of_mem _ htd)
    have hw : (weight nice t : ℤ) = tickets nice t := Int.toNat_of_nonneg (by unfold tickets; omega)
    rw [total_cons, Nat.cast_add, ← ih, hw]
    simp [ticketSum]

lemma total_pos (hne : l ≠ []) (hn : ∀ td ∈ l, 0 ≤ nice td) : 0 < total (weight nice) l := by
  obtain ⟨t, l, rfl⟩ := List.exists_cons_of_ne_nil hne
  have ht := hn t (by simp)
  rw [total_cons]
  unfold weight tickets
  omega

/-- The code's walk is the draw by weight; it never passes the lower end of the type. -/
lemma ticketHolder_eq_draw {r : ℕ} (hn : ∀ td ∈ l, 0 ≤ nice td ∧ nice td ≤ INT_MAX)
    (hr : r ≤ INT_MAX) : ticketHolder nice l r = draw (weight nice) l r := by
  induction l generalizing r with
  | nil => rfl
  | cons t l ih =>
    have ht := hn t (by simp)
    have hl := fun td htd => hn td (List.mem_cons_of_mem t htd)
    have hw : (weight nice t : ℤ) = nice t + 1 := Int.toNat_of_nonneg (by unfold tickets; omega)
    simp only [INT_MAX, Nat.cast_ofNat] at *
    have hsub : toInt (r - (nice t + 1)) = r - weight nice t := by
      rw [← hw, toInt_of_range (by omega) (by omega)]
    unfold ticketHolder
    dsimp only
    rw [draw_cons, hsub]
    by_cases hlt : r < weight nice t
    · rw [if_pos (by omega), if_pos hlt]
    · rw [if_neg (by omega), if_neg hlt, ← Nat.cast_sub (by omega)]
      exact ih hl (by omega)

/-- Of the tickets' numbers, those that make the pick fall on a thread. -/
noncomputable def winners (s : Sys T) (n : RunqName) (print : Bool) (td : T) : Finset ℕ :=
  open Classical in
  (Finset.range (ticketSum (niceOf s) (lotteryQueue s n)).toNat).filter fun r =>
    lottery_q_choose s n print r = .ok (some td)

lemma winners_eq_empty {td : T} (h : ∀ r, lottery_q_choose s n print r ≠ .ok (some td)) :
    winners s n print td = ∅ := by
  ext r
  simp [winners, h]

lemma lottery_q_choose_draw {td : T} (hne : lotteryQueue s n ≠ [])
    (hn : ∀ td ∈ lotteryQueue s n, 0 ≤ niceOf s td)
    (hT : ticketSum (niceOf s) (lotteryQueue s n) ≤ INT_MAX) :
    lottery_q_choose s n print rnd = .ok (some td) ↔
      draw (weight (niceOf s)) (lotteryQueue s n)
        (rnd % total (weight (niceOf s)) (lotteryQueue s n)) = some td := by
  have hsum := ticketSum_eq_total hn
  have hpos := total_pos hne hn
  rw [hsum] at hT
  have hT' : total (weight (niceOf s)) (lotteryQueue s n) ≤ INT_MAX := by exact_mod_cast hT
  have hint : toInt (total (weight (niceOf s)) (lotteryQueue s n)) =
      total (weight (niceOf s)) (lotteryQueue s n) := by
    simp only [INT_MAX] at hT'
    exact toInt_of_range (by omega) (by omega)
  have hrange : ∀ td ∈ lotteryQueue s n, 0 ≤ niceOf s td ∧ niceOf s td ≤ INT_MAX := fun td htd => by
    have h0 := hn td htd
    have hw := (weight_le_total (w := weight (niceOf s)) htd).trans hT'
    unfold weight tickets at hw
    omega
  rw [lottery_q_choose_iff hne, hsum, hint, drawn_of_pos (by omega)
    (by simp only [INT_MAX] at hT'; omega), ← Int.natCast_mod,
    ticketHolder_eq_draw hrange ((Nat.mod_lt _ hpos).le.trans hT')]
  simp [hpos.ne']

lemma winners_eq_winning [DecidableEq T] {td : T} (hne : lotteryQueue s n ≠ [])
    (hn : ∀ td ∈ lotteryQueue s n, 0 ≤ niceOf s td)
    (hT : ticketSum (niceOf s) (lotteryQueue s n) ≤ INT_MAX) :
    winners s n print td = winning (weight (niceOf s)) (lotteryQueue s n) td := by
  ext r
  simp only [winners, Finset.mem_filter, Finset.mem_range, lottery_q_choose_draw hne hn hT,
    mem_winning, ticketSum_eq_total hn, Int.toNat_natCast]
  refine and_congr_right fun hr => ?_
  rw [Nat.mod_eq_of_lt hr]

/-- **Proportionality of the lottery**: the pick depends on `random()` modulo the number of
tickets only, every remainder picks exactly one thread of the queue, and a thread is picked
by as many of them as it has tickets, in whatever order the queue is. -/
theorem lottery_proportional (hne : lotteryQueue s n ≠ []) (hnd : (lotteryQueue s n).Nodup)
    (hn : ∀ td ∈ lotteryQueue s n, 0 ≤ niceOf s td)
    (hT : ticketSum (niceOf s) (lotteryQueue s n) ≤ INT_MAX) (print : Bool) :
    (∀ rnd td, lottery_q_choose s n print rnd = .ok (some td) ↔ td ∈ lotteryQueue s n ∧
      rnd % (ticketSum (niceOf s) (lotteryQueue s n)).toNat ∈ winners s n print td) ∧
    (∀ r < (ticketSum (niceOf s) (lotteryQueue s n)).toNat, ∃! td, r ∈ winners s n print td) ∧
    (∀ td ∈ lotteryQueue s n, ((winners s n print td).card : ℤ) = niceOf s td + 1) ∧
    ∀ s' : Sys T, s'.thread = s.thread → (lotteryQueue s n).Perm (lotteryQueue s' n) →
      ∀ td, (winners s' n print td).card = (winners s n print td).card := by
  classical
  have hsum := ticketSum_eq_total hn
  have hpos := total_pos hne hn
  refine ⟨fun rnd td => ?_, fun r hr => ?_, fun td htd => ?_, fun s' hth hp td => ?_⟩
  · rw [winners_eq_winning hne hn hT, mem_winning, lottery_q_choose_draw hne hn hT, hsum,
      Int.toNat_natCast]
    exact ⟨fun h => ⟨mem_of_draw h, Nat.mod_lt _ hpos, h⟩, fun h => h.2.2⟩
  · rw [hsum, Int.toNat_natCast] at hr
    obtain ⟨td, htd⟩ := exists_draw hr
    refine ⟨td, ?_, fun td' h' => ?_⟩
    · dsimp only
      rw [winners_eq_winning hne hn hT]
      exact mem_winning.mpr ⟨hr, htd⟩
    · dsimp only at h'
      rw [winners_eq_winning hne hn hT, mem_winning, htd] at h'
      exact (Option.some.inj h'.2).symm
  · rw [winners_eq_winning hne hn hT, card_winning hnd htd]
    exact Int.toNat_of_nonneg (by have := hn td htd; unfold tickets; omega)
  · have hnice : niceOf s' = niceOf s := by
      funext t
      unfold niceOf
      rw [hth]
    have hn' : ∀ td ∈ lotteryQueue s' n, 0 ≤ niceOf s' td := fun t ht => by
      rw [hnice]
      exact hn t (hp.mem_iff.mpr ht)
    have hne' : lotteryQueue s' n ≠ [] := fun h => hne (by rw [h] at hp; exact hp.eq_nil)
    have hT' : ticketSum (niceOf s') (lotteryQueue s' n) ≤ INT_MAX := by
      rwa [ticketSum_eq_total hn', hnice, ← total_perm hp, ← hsum]
    rw [winners_eq_winning hne hn hT, winners_eq_winning hne' hn' hT', hnice,
      card_winning_perm hnd hp td]

theorem lottery_proportional_twoThreads :
    ((winners (lotteryOf [false, true] 4) .tdq_lottery true false).card : ℤ) = 4 + 1 :=
  (lottery_proportional (s := lotteryOf [false, true] 4) (n := .tdq_lottery)
    (by simp [lotteryQueue_lotteryOf]) (by simp [lotteryQueue_lotteryOf])
    (fun _ _ => by simp [niceOf, lotteryOf])
    (by rw [lotteryQueue_lotteryOf, ticketSum_lotteryOf]; decide) true).2.2.1 false
    (by simp [lotteryQueue_lotteryOf])

/-- So many threads that their tickets make `2 ^ 32`, which an `int` counts as none. -/
def crowd : List ℕ := List.range 268435456

theorem not_proportional_crowd :
    lotteryQueue (lotteryOf crowd 15) .tdq_lottery ≠ [] ∧
      (lotteryQueue (lotteryOf crowd 15) .tdq_lottery).Nodup ∧
      (∀ td ∈ lotteryQueue (lotteryOf crowd 15) .tdq_lottery, niceOf (lotteryOf crowd 15) td = 15) ∧
      (∀ print rnd td, lottery_q_choose (lotteryOf crowd 15) .tdq_lottery print rnd ≠
        .ok (some td)) ∧
      ¬∀ td ∈ lotteryQueue (lotteryOf crowd 15) .tdq_lottery,
        ((winners (lotteryOf crowd 15) .tdq_lottery true td).card : ℤ) =
          niceOf (lotteryOf crowd 15) td + 1 := by
  have hq := lotteryQueue_lotteryOf crowd 15
  have hmem : 0 ∈ crowd := List.mem_range.mpr (by decide)
  have hne : lotteryQueue (lotteryOf crowd 15) .tdq_lottery ≠ [] := by
    rw [hq]
    exact List.ne_nil_of_mem hmem
  have hsum : toInt (ticketSum (niceOf (lotteryOf crowd 15)) crowd) = 0 := by
    rw [ticketSum_lotteryOf, crowd, List.length_range]
    decide
  have hnone : ∀ print rnd td, lottery_q_choose (lotteryOf crowd 15) .tdq_lottery print rnd ≠
      .ok (some td) := fun print rnd td h => by
    rw [lottery_q_choose_iff hne, hq] at h
    exact h.1 hsum
  have hnd : crowd.Nodup := by
    rw [crowd]
    exact List.nodup_range
  refine ⟨hne, by rwa [hq], fun _ _ => rfl, hnone, fun h => ?_⟩
  have hcard := h 0 (by rwa [hq])
  rw [winners_eq_empty fun rnd => hnone true rnd 0] at hcard
  exact absurd hcard (by decide)

end Messaround.Sched
