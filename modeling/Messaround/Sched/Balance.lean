import Messaround.Sched.Groups
import Messaround.Sched.SmpRuns

/-!
The long-term balancer: what a transfer between two processors does, and what a pass of
`sched_balance_group` comes to while the other processors go on.

A pass ends because every round gives up a processor: as one to give, or as one to take for the
one that gives. So no processor takes part in two transfers of a pass.
-/

namespace Messaround.Sched

open Function (update)

variable {T : Type} [DecidableEq T] {n : ℕ} {m m' : Smp T n} {phase : Fin n → Phase n} {td : T}

/-! ### One transfer -/

section pair

variable [Fintype T] {high low : Fin n} {rnd : ℕ} {moved : Bool} {place : T → Place n}

/-- The view of a queue has the same threads to steal, where those are told that can migrate. -/
lemma QueuesKept.tdq_steal_ne_none (h : QueuesKept m place) (c : Fin n) (cpu : ℕ) :
    tdq_steal (m.sys c) m.td_cpuset cpu ≠ none ↔ OtherStealable (m.sys c) m.td_cpuset cpu := by
  set td_cpuset : T → ℕ → Bool := fun t cpu =>
    THREAD_CAN_MIGRATE (m.thread t) && m.td_cpuset t cpu with hset
  have hcan : canSteal (m.view place c) td_cpuset cpu = canSteal (m.sys c) m.td_cpuset cpu := by
    funext t
    simp only [canSteal, THREAD_CAN_SCHED, hset, Smp.view, Smp.sys]
    split
    · cases THREAD_CAN_MIGRATE (m.thread t) <;> simp
    · simp [THREAD_CAN_MIGRATE, absent]
  have hk := (h.kept c).tdq_steal_ne_none td_cpuset cpu
  simp only [tdq_steal, OtherStealable, hcan] at hk ⊢
  exact hk

end pair

/-- Where `sched_balance_group` is; `top` is the start of its loop. -/
inductive BalancePc (n : ℕ)
  | top
  | nextlow (high : Fin n) (lmask : Finset (Fin n)) (anylow : Bool)
  | done

lemma BalancePc.nextlow_ne_done (high : Fin n) (lmask : Finset (Fin n)) (anylow : Bool) :
    BalancePc.nextlow high lmask anylow ≠ .done := by
  simp

/-- A transfer, with the loads that both had before. -/
structure Transfer (n : ℕ) where
  high : Fin n
  low : Fin n
  high_load : ℤ
  low_load : ℤ

/-- The variables of a pass, and the transfers that were made in it. -/
structure Pass (n : ℕ) where
  hmask : Finset (Fin n)
  pc : BalancePc n
  moves : List (Transfer n)

/-- What a round reads: the queues, the load that limits the search, what the stack holds, and
the two generators. -/
structure Round (n : ℕ) where
  readings : Readings n
  high_load : ℤ
  cs_load : ℤ
  randomval : UInt32
  rnd : ℕ

/-- `sched_balance_group` up to the next search. -/
def balanceRound (cg : CpuGroup n) (r : Round n) (m : Smp T n) (p : Pass n) :
    Except Fault (Smp T n × Pass n) :=
  match p.pc with
  | .top =>
    match sched_highest r.readings cg p.hmask 2 r.cs_load r.randomval with
    | none => .ok (m, { p with pc := .done })
    | some high =>
      let hmask := p.hmask.erase high
      let pc := if hmask = ∅ then .done else .nextlow high hmask true
      .ok (m, { p with hmask := hmask, pc := pc })
  | .nextlow high lmask anylow =>
    match sched_lowest r.readings cg lmask (-1) (r.high_load - 1) high r.cs_load r.randomval with
    | none => .ok (m, { p with pc := if anylow then .done else .top })
    | some low => do
      let (moved, m') ← sched_balance_pair m high low r.rnd
      if moved then
        return (m', { hmask := p.hmask.erase low, pc := .top, moves :=
          ⟨high, low, m.tdq_load high, m.tdq_load low⟩ :: p.moves })
      else return (m', { p with pc := .nextlow high (lmask.erase low) false })
  | .done => .ok (m, p)

/-- A pass and the number of its rounds; between two of them the processors get to any state. -/
inductive PassReached (cg : CpuGroup n) : Smp T n → (Fin n → Phase n) → Pass n → ℕ → Prop
  | start {m : Smp T n} {phase : Fin n → Phase n} (h : SmpReached m phase) :
    PassReached cg m phase ⟨Finset.univ, .top, []⟩ 0
  | round {m m' : Smp T n} {phase : Fin n → Phase n} {p p' : Pass n} {k : ℕ} {r : Round n}
    (h : PassReached cg m phase p k) (hpc : p.pc ≠ .done)
    (hs : balanceRound cg r m p = .ok (m', p')) : PassReached cg m' phase p' (k + 1)
  | others {m m' : Smp T n} {phase phase' : Fin n → Phase n} {p : Pass n} {k : ℕ}
    (h : PassReached cg m phase p k) (hm : SmpReached m' phase') : PassReached cg m' phase' p k

namespace Pass

/-- The processors that took part in transfers. -/
def used (p : Pass n) : List (Fin n) := p.moves.flatMap fun mv => [mv.high, mv.low]

/-- A bound on the rounds to come. -/
def left (p : Pass n) : ℕ :=
  match p.pc with
  | .top => p.hmask.card * (n + 2) + 1
  | .nextlow _ lmask _ => p.hmask.card * (n + 2) + lmask.card + 2
  | .done => 0

/-- Who took part in a transfer is given up, and so is the one to give. -/
structure Kept (p : Pass n) : Prop where
  apart : ∀ c ∈ p.used, c ∉ p.hmask
  nodup : p.used.Nodup
  down : ∀ mv ∈ p.moves, mv.low_load < mv.high_load
  gives : ∀ high lmask anylow, p.pc = .nextlow high lmask anylow →
    high ∉ p.hmask ∧ high ∉ p.used ∧ lmask ⊆ p.hmask

end Pass

variable {cg : CpuGroup n} {p p' : Pass n} {k : ℕ} {r : Round n}

lemma card_le (S : Finset (Fin n)) : S.card ≤ n := by simpa using S.card_le_univ

lemma card_erase_mul {S : Finset (Fin n)} {c : Fin n} (hc : c ∈ S) :
    (S.erase c).card * (n + 2) + (n + 2) = S.card * (n + 2) := by
  rw [← Finset.card_erase_add_one hc, Nat.add_mul, Nat.one_mul]

lemma sched_balance_pair_downhill {high low : Fin n} {rnd : ℕ}
    (hs : sched_balance_pair m high low rnd = .ok (true, m')) :
    m.tdq_load low < m.tdq_load high := by
  unfold sched_balance_pair at hs
  split at hs
  next hcond => exact hcond.2
  next => cases hs

lemma top_kept (hg : cg.Nested) (hp : p.Kept) (htop : p.pc = .top)
    (hs : balanceRound cg r m p = .ok (m', p')) : m' = m ∧ p'.Kept ∧ p'.left < p.left := by
  unfold balanceRound at hs
  rw [htop] at hs
  dsimp only at hs
  split at hs
  next =>
    -- there is nobody to give: the pass ends
    cases hs
    exact ⟨rfl, ⟨hp.apart, hp.nodup, hp.down, by simp⟩, by simp [Pass.left, htop]⟩
  next high hhigh =>
    cases hs
    have hmem : high ∈ p.hmask := sched_highest_mem hg hhigh
    have hapart : ∀ c ∈ p.used, c ∉ p.hmask.erase high := fun c hc hmem' =>
      hp.apart c hc (Finset.mem_of_mem_erase hmem')
    refine ⟨rfl, ⟨hapart, hp.nodup, hp.down, fun h l a hpc' => ?_⟩, ?_⟩
    · dsimp only at hpc'
      split at hpc'
      · cases hpc'
      · cases hpc'
        exact ⟨Finset.notMem_erase _ _, fun hc => hp.apart _ hc hmem, subset_rfl⟩
    · -- of the `n + 2` rounds for `high` one is used, and those for `lmask` are at most `n`
      have hle := card_le (p.hmask.erase high)
      have hmul := card_erase_mul hmem
      by_cases hempty : p.hmask.erase high = ∅
      · simp [Pass.left, htop, hempty]
      · simp only [Pass.left, htop, if_neg hempty]
        omega

lemma Pass.Kept.transfer (hp : p.Kept) {high low : Fin n} {a b : ℤ} (hhigh : high ∉ p.hmask)
    (hunused : high ∉ p.used) (hlow : low ∈ p.hmask) (hload : b < a) :
    Pass.Kept ⟨p.hmask.erase low, .top, ⟨high, low, a, b⟩ :: p.moves⟩ := by
  have hfresh : low ∉ p.used := fun hc => hp.apart low hc hlow
  have hne : high ≠ low := fun he => hhigh (he ▸ hlow)
  refine ⟨fun c hc => ?_, ?_, List.forall_mem_cons.mpr ⟨hload, hp.down⟩, by simp⟩
  · rcases List.mem_cons.mp hc with rfl | hc
    · exact fun hin => hhigh (Finset.mem_of_mem_erase hin)
    · rcases List.mem_cons.mp hc with rfl | hc
      · exact Finset.notMem_erase _ _
      · exact fun hin => hp.apart c hc (Finset.mem_of_mem_erase hin)
  · refine List.nodup_cons.mpr ⟨fun hc => ?_, List.nodup_cons.mpr ⟨hfresh, hp.nodup⟩⟩
    exact (List.mem_cons.mp hc).elim hne hunused

/-- The search for a processor to take gives up one that is found, with or without a transfer. -/
lemma nextlow_kept (hm : SmpReached m phase) (hg : cg.Nested) (hp : p.Kept) {high : Fin n}
    {lmask : Finset (Fin n)} {anylow : Bool} (hscan : p.pc = .nextlow high lmask anylow)
    (hs : balanceRound cg r m p = .ok (m', p')) :
    SmpReached m' phase ∧ p'.Kept ∧ p'.left < p.left := by
  obtain ⟨hhigh, hunused, hsub⟩ := hp.gives high lmask anylow hscan
  unfold balanceRound at hs
  rw [hscan] at hs
  dsimp only at hs
  split at hs
  next =>
    -- nobody can take: the pass ends, or the next processor is to give
    cases hs
    refine ⟨hm, ⟨hp.apart, hp.nodup, hp.down, fun h l a hpc' => ?_⟩, ?_⟩
    · dsimp only at hpc'
      split at hpc' <;> cases hpc'
    · simp only [Pass.left, hscan]
      cases anylow
      · simp only [Bool.false_eq_true, if_false]
        omega
      · simp only [if_true]
        omega
  next low hlow =>
    have hmem : low ∈ lmask := sched_lowest_mem hg hlow
    cases hpair : sched_balance_pair m high low r.rnd with
    | error e =>
      rw [hpair] at hs
      cases hs
    | ok res =>
      obtain ⟨moved, m₁⟩ := res
      rw [hpair, ok_bind] at hs
      have hreach := hm.sched_balance_pair hpair
      cases moved with
      | false =>
        -- the scan goes on without `low`
        cases hs
        have hcard := Finset.card_erase_add_one hmem
        refine ⟨hreach, ⟨hp.apart, hp.nodup, hp.down, fun h l a hpc' => ?_⟩, ?_⟩
        · cases hpc'
          exact ⟨hhigh, hunused, (Finset.erase_subset _ _).trans hsub⟩
        · simp only [Pass.left, hscan]
          omega
      | true =>
        cases hs
        refine ⟨hreach, hp.transfer hhigh hunused (hsub hmem) (sched_balance_pair_downhill hpair), ?_⟩
        have hmul := card_erase_mul (hsub hmem)
        simp only [Pass.left, hscan]
        omega

/-- **A round** gives up a processor, and leaves those alone that were given up. -/
lemma balanceRound_kept (hm : SmpReached m phase) (hg : cg.Nested) (hp : p.Kept)
    (hpc : p.pc ≠ .done) (hs : balanceRound cg r m p = .ok (m', p')) :
    SmpReached m' phase ∧ p'.Kept ∧ p'.left < p.left := by
  cases hp' : p.pc with
  | top =>
    obtain ⟨rfl, hkept⟩ := top_kept hg hp hp' hs
    exact ⟨hm, hkept⟩
  | nextlow high lmask anylow => exact nextlow_kept hm hg hp hp' hs
  | done => exact absurd hp' hpc

lemma PassReached.kept {k : ℕ} (hg : cg.Nested) (h : PassReached cg m phase p k) :
    SmpReached m phase ∧ p.Kept ∧ k + p.left ≤ n * (n + 2) + 1 := by
  induction h with
  | start h => exact ⟨h, ⟨nofun, List.nodup_nil, nofun, nofun⟩, by simp [Pass.left]⟩
  | round _ hpc hs ih =>
    obtain ⟨hm, hp, hle⟩ := ih
    obtain ⟨hm', hp', hlt⟩ := balanceRound_kept hm hg hp hpc hs
    exact ⟨hm', hp', by omega⟩
  | others _ hm ih => exact ⟨hm, ih.2⟩

/-- **A pass of the balancer ends**, after a number of rounds that the number of processors
bounds; no processor takes part in two of its transfers, and every transfer went from a more to a
less loaded processor, whatever the others do in the meantime. -/
theorem balance_pass (hg : cg.Nested) (h : PassReached cg m phase p k) :
    k ≤ n * (n + 2) + 1 ∧ p.used.Nodup ∧ ∀ mv ∈ p.moves, mv.low_load < mv.high_load := by
  obtain ⟨-, hp, hle⟩ := h.kept hg
  exact ⟨by omega, hp.nodup, hp.down⟩

local instance neZero_twoCpus : NeZero 2 := ⟨two_ne_zero⟩
local instance neZero_fourThreads : NeZero 4 := ⟨four_ne_zero⟩

/-- Two processors that share nothing, the first one with two threads. -/
def twoCpusGroup : CpuGroup 2 := .mk {0, 1} []

def twoCpusRound : Round 2 where
  readings := ⟨fun c => if c = 0 then 2 else 0, fun _ => 255, fun _ => 1⟩
  high_load := 2
  cs_load := 0
  randomval := 0
  rnd := 0

lemma twoCpus_rounds : ∃ m₁ m₂ p₁ p₂, sched_add (sched_setup twoCpus 0) 3 0 SRQ_BORING = .ok m₁ ∧
    balanceRound twoCpusGroup twoCpusRound m₁ ⟨Finset.univ, .top, []⟩ = .ok (m₁, p₁) ∧
    balanceRound twoCpusGroup twoCpusRound m₁ p₁ = .ok (m₂, p₂) ∧ p₁.pc ≠ .done ∧
    p₂.moves = [⟨0, 1, 2, 0⟩] :=
  ⟨_, _, _, _, rfl, rfl, rfl, BalancePc.nextlow_ne_done _ _ _, rfl⟩

theorem balance_pass_twoCpus : ∃ p : Pass 2, p.moves = [⟨0, 1, 2, 0⟩] ∧
    2 ≤ 2 * (2 + 2) + 1 ∧ p.used.Nodup ∧ ∀ mv ∈ p.moves, mv.low_load < mv.high_load := by
  obtain ⟨m₁, m₂, p₁, p₂, hadd, htop, hlow, hpc, hmoves⟩ := twoCpus_rounds
  have hboot : SmpReached (sched_setup twoCpus 0) _ := .sched_setup twoCpus_clear (by decide)
  have hstart : PassReached twoCpusGroup m₁ _ _ 0 := .start (hboot.sched_add twoCpus_off hadd)
  have hg : twoCpusGroup.Nested := ⟨by simp, by simp, by simp⟩
  exact ⟨p₂, hmoves, balance_pass hg ((hstart.round nofun htop).round hpc hlow)⟩

end Messaround.Sched
