import Messaround.Sched.Places

/-!
Every run of all processors: no thread is lost, queued twice or run twice, and the loads are exact.

Between two steps of one processor the others may take any number of theirs.
-/

namespace Messaround.Sched

open Function (update)

variable {T : Type} [DecidableEq T] {n : ℕ} {m m' : Smp T n} {td : T} {c d : Fin n}

/-! ### Every run -/

/-- The states of all processors. -/
inductive SmpReached : Smp T n → (Fin n → Phase n) → Prop
  | sched_setup {m : Smp T n} {c : Fin n} (hclear : ∀ td, xferable (m.thread td) = false)
    (hcur : ¬m.TD_IS_IDLETHREAD (m.pc_curthread c)) :
    SmpReached (sched_setup m c) (update (fun _ => .choose) c .run)
  | sched_add {m m' : Smp T n} {phase : Fin n → Phase n} {td : T} {cpu : Fin n}
    {flags : BitVec 32} (h : SmpReached m phase) (hoff : m.Off phase td)
    (hs : sched_add m td cpu flags = .ok m') : SmpReached m' phase
  | sched_rem {m m' : Smp T n} {phase : Fin n → Phase n} {td : T} {c : Fin n} {rnd : ℕ}
    (h : SmpReached m phase) (hq : m.Queued td c) (hs : sched_rem m td rnd = .ok m') :
    SmpReached m' phase
  | sched_balance_pair {m m' : Smp T n} {phase : Fin n → Phase n} {high low : Fin n} {rnd : ℕ}
    {moved : Bool} (h : SmpReached m phase)
    (hs : sched_balance_pair m high low rnd = .ok (moved, m')) : SmpReached m' phase
  | tdq_idled {m m' : Smp T n} {phase : Fin n → Phase n} {c steal : Fin n} {steal_thresh : ℤ}
    {rnd : ℕ} {switched : Bool} (h : SmpReached m phase) (hne : steal ≠ c)
    (hs : tdq_idled m c steal steal_thresh rnd switched = .ok m') : SmpReached m' phase
  | sched_switch {m m' : Smp T n} {phase : Fin n → Phase n} {c pick : Fin n} {preempted : Bool}
    {next : Phase n} (h : SmpReached m phase) (hrun : phase c = .run)
    (hs : sched_switch m c preempted pick = .ok (m', next)) : SmpReached m' (update phase c next)
  | switchMigrated {m m' : Smp T n} {phase : Fin n → Phase n} {c tdn : Fin n} {flags : BitVec 32}
    (h : SmpReached m phase) (hmig : phase c = .migrate tdn flags)
    (hs : switchMigrated m c tdn flags = .ok m') : SmpReached m' (update phase c .choose)
  | tdq_trysteal {m m' : Smp T n} {phase : Fin n → Phase n} {c steal : Fin n} {steal_thresh : ℤ}
    {rnd : ℕ} (h : SmpReached m phase) (htry : phase c = .trysteal) (hne : steal ≠ c)
    (hs : tdq_trysteal m c steal steal_thresh rnd = .ok m') : SmpReached m' (update phase c .choose)
  /-- No queue to steal from was found. -/
  | trystealNone {m : Smp T n} {phase : Fin n → Phase n} {c : Fin n} (h : SmpReached m phase)
    (htry : phase c = .trysteal) : SmpReached m (update phase c .choose)
  | sched_throw {m : Smp T n} {phase : Fin n → Phase n} {c : Fin n} (h : SmpReached m phase)
    (hrun : phase c = .run) (hidle : ¬m.TD_IS_IDLETHREAD (m.pc_curthread c)) :
    SmpReached (sched_throw m c) (update phase c .choose)
  | choosethread {m m' : Smp T n} {phase : Fin n → Phase n} {c : Fin n} {rnd : ℕ}
    (h : SmpReached m phase) (hch : phase c = .choose) (hs : choosethread m c rnd = .ok m') :
    SmpReached m' (update phase c .run)
  | sched_clock {m : Smp T n} {phase : Fin n → Phase n} {c : Fin n} {tdq : Tdq T}
    (h : SmpReached m phase) (hs : clockAdvance (m.TDQ_CPU c) = .ok tdq) :
    SmpReached { m with TDQ_CPU := update m.TDQ_CPU c tdq } phase
  /-- Priorities, credentials, nice values, states and processor sets change, and where threads
  that are neither queued nor on their way are to be queued. -/
  | change {m : Smp T n} {phase : Fin n → Phase n} {thread : T → Thread} {ts_cpu : T → Fin n}
    {td_cpuset : T → ℕ → Bool} (h : SmpReached m phase)
    (hth : ∀ td, (thread td).ts_runq = (m.thread td).ts_runq ∧
      (thread td).td_rqindex = (m.thread td).td_rqindex ∧
      xferable (thread td) = xferable (m.thread td))
    (hcpu : ∀ td c, m.Queued td c ∨ m.Migrates phase td c → ts_cpu td = m.ts_cpu td) :
    SmpReached { m with thread := thread, ts_cpu := ts_cpu, td_cpuset := td_cpuset } phase

/-! ### The routines -/

variable [Fintype T] {place place' : T → Place n} {w : Place n} {phase : Fin n → Phase n}

/-- **The invariant** of all processors. -/
structure SmpKept (m : Smp T n) (phase : Fin n → Phase n) (place : T → Place n) : Prop where
  queues : QueuesKept m place
  loads : LoadsKept m place
  roles : RolesKept m phase place

lemma QueuesKept.queued_iff (h : QueuesKept m place) : m.Queued td c ↔ place td = .queued c := by
  refine ⟨fun ⟨p, hp⟩ => mem_queuedOn.mp ((h.kept c).mem_queued hp).1, fun htd => ?_⟩
  have hmem : td ∈ queuedOn place c := mem_queuedOn.mpr htd
  obtain ⟨p, hst⟩ := (h.kept c).stands td hmem
  exact ⟨p, (h.kept c).placed.mem_iff.mpr (by rw [placeOf, if_pos hmem, hst])⟩

lemma QueuesKept.standsIn (h : QueuesKept m place) {p : RunqName × Fin RQ_NQS}
    (hp : td ∈ Sched.queues (m.sys c) p) : standsIn (m.thread td) = some p := by
  obtain ⟨hmem, hst⟩ := (h.kept c).mem_queued hp
  simpa [Smp.view, mem_queuedOn.mp hmem] using hst

lemma SmpKept.off_iff (h : SmpKept m phase place) :
    m.Off phase td ↔ place td = .off ∧ ¬m.TD_IS_IDLETHREAD td := by
  refine ⟨fun hoff => ⟨?_, hoff.1⟩, fun ⟨hp, hidle⟩ => ⟨hidle, fun c => ?_⟩⟩
  · cases hp : place td with
    | off => rfl
    | queued c => exact absurd (h.queues.queued_iff.mpr hp) (hoff.2 c).1
    | running c => exact absurd ((h.roles.running td c).mp hp) (hoff.2 c).2.1
    | migrating c => exact absurd ((h.roles.migrating td c).mp hp) (hoff.2 c).2.2
  · rw [h.queues.queued_iff, ← h.roles.running, ← h.roles.migrating, hp]
    exact ⟨nofun, nofun, nofun⟩

lemma QueuesKept.setState (h : QueuesKept m place) (st : TdState) :
    QueuesKept (m.setState td st) place := by
  refine h.of_thread rfl fun t => ?_
  rcases eq_or_ne t td with rfl | ht
  · simp [Smp.setState, xferable]
  · simp [Smp.setState, ht]

/-- **An addition** on the queue of a processor. -/
lemma tdq_add_kept (hQ : QueuesKept m place) (hL : LoadsKept m place)
    (hq : ∀ d, place td ≠ .queued d) (hl : ∀ d, (place td).loads d = false) (c : Fin n)
    (flags : BitVec 32) :
    ∃ tdqs thread m', tdq_add m c td flags = .ok m' ∧
      m' = (m.tdq_load_add c td).withQueues tdqs thread ∧
      QueuesKept m' (update place td (.queued c)) ∧ LoadsKept m' (update place td (.queued c)) := by
  have hstart : ∃ tdqs thread, (if (m.thread td).td_priority < (m.TDQ_CPU c).tdq_lowpri then
      m.setSys c (setLowpri (m.sys c) (m.thread td).td_priority) else m) =
        m.withQueues tdqs thread ∧ QueuesKept (m.withQueues tdqs thread) place := by
    split
    · exact ⟨_, _, rfl, hQ.setLowpri c _⟩
    · exact ⟨_, _, rfl, hQ⟩
  obtain ⟨tdqs, thread, heq, hQ'⟩ := hstart
  obtain ⟨s, hs, hk⟩ := hQ'.runq_add hq c flags
  refine ⟨update tdqs c s.tdq, s.thread, _, ?_, rfl, hk.of_thread rfl fun _ => ⟨rfl, rfl, rfl⟩, ?_⟩
  · unfold tdq_add
    dsimp only
    rw [heq, hs, ok_bind]
    rfl
  · exact (hL.add hl fun d => by simp [Place.loads]).congr rfl rfl rfl

omit [Fintype T] [DecidableEq T] in
lemma tdq_setlowpri_ok {s s' : Sys T} {t : T} {ctd : Option T} {rnd : ℕ}
    (h : tdq_setlowpri s t ctd rnd = .ok s') : ∃ pri, s' = setLowpri s pri := by
  unfold tdq_setlowpri at h
  cases hc : tdq_choose s rnd with
  | error e =>
    rw [hc] at h
    cases h
  | ok r =>
    rw [hc, ok_bind] at h
    cases r with
    | none =>
      cases h
      exact ⟨_, rfl⟩
    | some td =>
      dsimp only at h
      split at h <;> cases h <;> exact ⟨_, rfl⟩

/-- **A removal** from the queue that the thread is on. -/
lemma sched_rem_kept {rnd : ℕ} (hQ : QueuesKept m place) (hL : LoadsKept m place)
    (hq : place td = .queued (m.ts_cpu td)) (hs : sched_rem m td rnd = .ok m') :
    ∃ tdqs thread, m' = (m.tdq_load_rem (m.ts_cpu td) td).withQueues tdqs thread ∧
      QueuesKept m' (update place td .off) ∧ LoadsKept m' (update place td .off) := by
  obtain ⟨s, heq, hk⟩ := hQ.runq_rem hq (w := .off) nofun
  set c := m.ts_cpu td with hc
  set m₁ := ((m.setSys c s).tdq_load_rem c td).setState td .TDS_CAN_RUN with hm₁
  have hQ : QueuesKept ((m.setSys c s).tdq_load_rem c td) (update place td .off) :=
    hk.of_thread rfl fun _ => ⟨rfl, rfl, rfl⟩
  have hQ₁ : QueuesKept m₁ (update place td .off) := hQ.setState _
  have hL₁ : LoadsKept m₁ (update place td .off) :=
    (hL.rem (c := c) (by simp [hq, Place.loads]) fun d => rfl).congr rfl rfl rfl
  unfold sched_rem at hs
  dsimp only at hs
  rw [← hc, heq, ok_bind, ← hm₁] at hs
  split at hs
  · cases hlow : tdq_setlowpri (m₁.sys c) (m₁.pc_curthread c) none rnd with
    | error e =>
      rw [hlow] at hs
      cases hs
    | ok s' =>
      rw [hlow, ok_bind] at hs
      cases hs
      obtain ⟨pri, rfl⟩ := tdq_setlowpri_ok hlow
      exact ⟨_, _, rfl, hQ₁.setLowpri c pri, hL₁.congr rfl rfl rfl⟩
  · rw [← show m₁ = m' from Except.ok.inj hs]
    exact ⟨_, _, rfl, hQ₁, hL₁⟩

/-! ### Stealing and moving -/

section steal

omit [Fintype T] [DecidableEq T]

variable {s : Sys T} {td_cpuset : T → ℕ → Bool} {cpu : ℕ} {can : T → Bool}

lemma of_stealWalk {l : List T} {first : Option T} :
    (∀ t, stealWalk can l first = .inl t → t ∈ l ∧ can t) ∧
      ∀ t, stealWalk can l first = .inr (some t) → t ∈ l ∨ first = some t := by
  induction l generalizing first with
  | nil => simp [stealWalk]
  | cons a l ih =>
    unfold stealWalk
    split
    next hcan =>
      exact ⟨fun t ht => by cases ht; exact ⟨List.mem_cons_self, hcan.2⟩, fun t ht => by cases ht⟩
    next =>
      obtain ⟨hl, hr⟩ := @ih (some a)
      refine ⟨fun t ht => (hl t ht).imp_left (List.mem_cons_of_mem a), fun t ht => .inl ?_⟩
      rcases hr t ht with hmem | hsome
      · exact List.mem_cons_of_mem a hmem
      · exact List.mem_cons.mpr (.inl (Option.some.inj hsome).symm)

lemma mem_of_scanned {rq : Runq T} {k : ℕ} (h : td ∈ scanned rq k) : ∃ i, td ∈ rq.rq_queues i := by
  obtain ⟨i, -, hi⟩ := List.mem_flatMap.mp h
  exact ⟨i, hi⟩

lemma of_runq_steal {rq : Runq T} (h : runq_steal rq can = some td) :
    can td ∧ ∃ i, td ∈ rq.rq_queues i :=
  ⟨List.find?_some h, mem_of_scanned (List.mem_of_find?_eq_some h)⟩

lemma of_runq_steal_from {rq : Runq T} {start : UInt8} (h : runq_steal_from rq can start = some td) :
    can td ∧ ∃ i, td ∈ rq.rq_queues i := by
  unfold runq_steal_from at h
  dsimp only at h
  have hhere : ∀ t ∈ if start.toNat < RQ_NQS then scanned rq start.toNat else [],
      ∃ i, t ∈ rq.rq_queues i := fun t ht => by
    split at ht
    · exact mem_of_scanned ht
    · cases ht
  split at h
  next t hwalk =>
    cases h
    obtain ⟨hmem, hcan⟩ := of_stealWalk.1 _ hwalk
    exact ⟨hcan, hhere _ hmem⟩
  next first hwalk =>
    have hfirst : ∀ t, first = some t → ∃ i, t ∈ rq.rq_queues i := fun t ht => by
      rw [ht] at hwalk
      exact hhere t ((of_stealWalk.2 t hwalk).resolve_right nofun)
    split at h
    next t hagain =>
      cases h
      split at hagain
      · obtain ⟨hmem, hcan⟩ := of_stealWalk.1 _ hagain
        exact ⟨hcan, mem_of_scanned hmem⟩
      · cases hagain
    next last hagain =>
      obtain ⟨hlast, hcan⟩ := Option.filter_eq_some_iff.mp h
      refine ⟨hcan, ?_⟩
      rw [hlast] at hagain
      split at hagain
      · exact (of_stealWalk.2 td hagain).elim mem_of_scanned (hfirst td)
      · exact hfirst td (Sum.inr.inj hagain)

lemma of_tdq_steal (h : tdq_steal s td_cpuset cpu = some td) :
    canSteal s td_cpuset cpu td ∧ ∃ p, td ∈ queues s p := by
  unfold tdq_steal at h
  dsimp only at h
  split at h
  next t hrt =>
    cases h
    exact (of_runq_steal hrt).imp_right fun ⟨i, hi⟩ => ⟨(.tdq_realtime, i), hi⟩
  next =>
    split at h
    next t hts =>
      cases h
      exact (of_runq_steal_from hts).imp_right fun ⟨i, hi⟩ => ⟨(.tdq_timeshare, i), hi⟩
    next => exact (of_runq_steal h).imp_right fun ⟨i, hi⟩ => ⟨(.tdq_idle, i), hi⟩

end steal

/-! ### The steps -/

namespace SmpKept

variable (h : SmpKept m phase place)
include h

lemma idle_off (hq : place td ≠ .off) : ¬m.TD_IS_IDLETHREAD td :=
  fun hidle => hq (h.roles.idle td hidle)

lemma sched_add (hoff : m.Off phase td) (cpu : Fin n) (flags : BitVec 32) :
    ∃ m', sched_add m td cpu flags = .ok m' ∧ SmpKept m' phase (update place td (.queued cpu)) := by
  have hp := (h.off_iff.mp hoff).1
  have hQ : QueuesKept (m.setCpu cpu td) place := h.queues.of_thread rfl fun _ => ⟨rfl, rfl, rfl⟩
  have hL : LoadsKept (m.setCpu cpu td) place := h.loads.congr rfl rfl rfl
  have hnot : ∀ d, place td ≠ .queued d := by simp [hp]
  have hload : ∀ d, (place td).loads d = false := by simp [hp, Place.loads]
  obtain ⟨tdqs, thread, m₁, heq, rfl, hQ', hL'⟩ := tdq_add_kept hQ hL hnot hload cpu flags
  exact ⟨_, heq, hQ', hL', h.roles.placed hoff.1 (by simp [hp]) rfl rfl rfl⟩

lemma sched_rem {rnd : ℕ} (hq : place td = .queued c) (hs : sched_rem m td rnd = .ok m') :
    SmpKept m' phase (update place td .off) := by
  obtain rfl := h.roles.cpu td c hq
  obtain ⟨tdqs, thread, rfl, hQ, hL⟩ := sched_rem_kept h.queues h.loads hq hs
  have hbusy : ∀ d, place td ≠ .running d ∧ place td ≠ .migrating d := by simp [hq]
  have hroles := h.roles.requeue (w := .off) (h.idle_off (by simp [hq])) hbusy
    (fun _ => ⟨nofun, nofun⟩) nofun
  exact ⟨hQ, hL, hroles.congr rfl rfl fun _ _ => rfl⟩

lemma readd {src : Fin n} {rnd : ℕ} (cpu : Fin n) (hq : place td = .queued src)
    (hs : Sched.sched_rem m td rnd = .ok m') :
    ∃ m₂, tdq_add (m'.setCpu cpu td) cpu td SRQ_YIELDING = .ok m₂ ∧
      (∃ tdqs thread, m₂ =
        (((m.tdq_load_rem src td).setCpu cpu td).tdq_load_add cpu td).withQueues tdqs thread) ∧
      SmpKept m₂ phase (update place td (.queued cpu)) := by
  obtain rfl := h.roles.cpu td src hq
  obtain ⟨tdqs, thread, rfl, hQ, hL⟩ := sched_rem_kept h.queues h.loads hq hs
  set m₁ := (m.tdq_load_rem (m.ts_cpu td) td).withQueues tdqs thread
  have hQ₁ : QueuesKept (m₁.setCpu cpu td) (update place td .off) :=
    hQ.of_thread rfl fun _ => ⟨rfl, rfl, rfl⟩
  have hL₁ : LoadsKept (m₁.setCpu cpu td) (update place td .off) := hL.congr rfl rfl rfl
  have hnot : ∀ d, update place td .off td ≠ .queued d := by simp
  have hload : ∀ d, (update place td .off td).loads d = false := by simp [Place.loads]
  obtain ⟨tdqs', thread', m₂, heq, rfl, hQ₂, hL₂⟩ :=
    tdq_add_kept hQ₁ hL₁ hnot hload cpu SRQ_YIELDING
  rw [Function.update_idem] at hQ₂ hL₂
  exact ⟨_, heq, ⟨tdqs', thread', rfl⟩, hQ₂, hL₂,
    h.roles.placed (h.idle_off (by simp [hq])) (by simp [hq]) rfl rfl rfl⟩

/-- **A move** between two queues. -/
lemma tdq_move {src cpu : Fin n} {rnd : ℕ} {r : Option T}
    (hs : tdq_move m src cpu rnd = .ok (r, m')) :
    (r = none → m' = m ∧ tdq_steal (m.sys src) m.td_cpuset cpu = none) ∧ ∀ td, r = some td →
      tdq_steal (m.sys src) m.td_cpuset cpu = some td ∧ place td = .queued src ∧
      (∃ tdqs thread, m' =
        (((m.tdq_load_rem src td).setCpu cpu td).tdq_load_add cpu td).withQueues tdqs thread) ∧
      SmpKept m' phase (update place td (.queued cpu)) := by
  unfold Sched.tdq_move at hs
  cases hsteal : tdq_steal (m.sys src) m.td_cpuset cpu with
  | none =>
    rw [hsteal] at hs
    cases hs
    exact ⟨fun _ => ⟨rfl, rfl⟩, nofun⟩
  | some td =>
    rw [hsteal] at hs
    dsimp only at hs
    have hq : place td = .queued src := h.queues.queued_iff.mp (of_tdq_steal hsteal).2
    cases hrem : Sched.sched_rem m td rnd with
    | error e =>
      rw [hrem] at hs
      cases hs
    | ok m₁ =>
      obtain ⟨m₂, heq, hform, hk⟩ := h.readd cpu hq hrem
      rw [hrem, ok_bind, heq, ok_bind] at hs
      cases hs
      refine ⟨nofun, fun t ht => ?_⟩
      cases ht
      exact ⟨rfl, hq, hform, hk⟩

lemma stealFrom {steal : Fin n} {steal_thresh : ℤ} {rnd : ℕ}
    (hs : stealFrom m c steal steal_thresh rnd = .ok m') : ∃ place', SmpKept m' phase place' := by
  unfold Sched.stealFrom at hs
  split at hs
  · cases hs
    exact ⟨place, h⟩
  · cases hmove : Sched.tdq_move m steal c rnd with
    | error e =>
      rw [hmove] at hs
      cases hs
    | ok r =>
      rw [hmove] at hs
      obtain ⟨r, m₁⟩ := r
      cases hs
      obtain ⟨hnone, hsome⟩ := h.tdq_move hmove
      cases r with
      | none => exact ⟨place, (hnone rfl).1 ▸ h⟩
      | some td => exact ⟨_, (hsome td rfl).2.2.2⟩

lemma sched_balance_pair {high low : Fin n} {rnd : ℕ} {moved : Bool}
    (hs : sched_balance_pair m high low rnd = .ok (moved, m')) :
    ∃ place', SmpKept m' phase place' := by
  unfold Sched.sched_balance_pair at hs
  split at hs
  · cases hmove : Sched.tdq_move m high low rnd with
    | error e =>
      rw [hmove] at hs
      cases hs
    | ok r =>
      rw [hmove] at hs
      obtain ⟨r, m₁⟩ := r
      cases hs
      obtain ⟨hnone, hsome⟩ := h.tdq_move hmove
      cases r with
      | none => exact ⟨place, (hnone rfl).1 ▸ h⟩
      | some td => exact ⟨_, (hsome td rfl).2.2.2⟩
  · cases hs
    exact ⟨place, h⟩

lemma pass (hold : phase c = .choose ∨ phase c = .trysteal) :
    SmpKept m (update phase c .choose) place := by
  refine ⟨h.queues, h.loads, h.roles.still (fun td => ⟨fun hr => ?_, fun hm => ?_⟩)
    ⟨nofun, nofun⟩⟩
  · have hrun := ((h.roles.running td c).mp hr).1
    simp [hrun] at hold
  · obtain ⟨⟨tdn, flags, hmig⟩, -⟩ := (h.roles.migrating td c).mp hm
    simp [hmig] at hold

lemma sched_switch (hrun : phase c = .run) (preempted : Bool) (pick : Fin n) :
    ∃ m' next place', sched_switch m c preempted pick = .ok (m', next) ∧
      SmpKept m' (update phase c next) place' := by
  have hmig : ∀ td, place td ≠ .migrating c := fun td hm => by
    obtain ⟨⟨tdn, flags, hmig⟩, -⟩ := (h.roles.migrating td c).mp hm
    simp [hrun] at hmig
  unfold Sched.sched_switch
  dsimp only
  split
  next hidle =>
    -- the idle thread goes, which counts on no queue
    have hold : ∀ td, place td ≠ .running c := fun td hr => by
      obtain ⟨-, rfl, hno⟩ := (h.roles.running td c).mp hr
      exact hno hidle
    have hroles := h.roles.still (q := .choose) (fun td => ⟨hold td, hmig td⟩) ⟨nofun, nofun⟩
    exact ⟨_, _, place, rfl, h.queues.setState _, h.loads.congr rfl rfl rfl,
      hroles.congr rfl rfl fun _ _ => rfl⟩
  next hidle =>
    have hplace : place (m.pc_curthread c) = .running c :=
      (h.roles.running _ c).mpr ⟨hrun, rfl, hidle⟩
    have hown : ∀ d, place (m.pc_curthread c) = .running d ∨
        place (m.pc_curthread c) = .migrating d → d = c := fun d hd => by
      simpa [hplace, eq_comm] using hd
    have hnot : ∀ d, place (m.pc_curthread c) ≠ .queued d := by simp [hplace]
    have hload : ∀ d, (place (m.pc_curthread c)).loads d = decide (c = d) := by
      simp [hplace, Place.loads]
    split
    next =>
      -- the thread may be told of another processor first
      have hpick : ∃ ts_cpu, (∀ t ≠ m.pc_curthread c, ts_cpu t = m.ts_cpu t) ∧
          (if THREAD_CAN_MIGRATE (m.thread (m.pc_curthread c)) ∧
            ¬THREAD_CAN_SCHED m.td_cpuset (m.pc_curthread c) (m.ts_cpu (m.pc_curthread c)) then
            m.setCpu pick (m.pc_curthread c) else m) = { m with ts_cpu := ts_cpu } := by
        split
        · exact ⟨_, fun t ht => Function.update_of_ne ht _ _, rfl⟩
        · exact ⟨_, fun t _ => rfl, rfl⟩
      obtain ⟨ts_cpu, hcpu, heq⟩ := hpick
      rw [heq]
      have hroles : RolesKept { m with ts_cpu := ts_cpu } phase place :=
        h.roles.congr rfl rfl fun t ht => hcpu t fun he => by simp [he, hplace] at ht
      have hQ : QueuesKept { m with ts_cpu := ts_cpu } place :=
        h.queues.of_thread rfl fun _ => ⟨rfl, rfl, rfl⟩
      have hL : LoadsKept { m with ts_cpu := ts_cpu } place := h.loads.congr rfl rfl rfl
      split
      next hself =>
        -- the thread stays on this processor
        obtain ⟨s, hadd, hk⟩ := hQ.runq_add hnot c
          (if preempted then SRQ_OURSELF ||| SRQ_YIELDING ||| SRQ_PREEMPTED
            else SRQ_OURSELF ||| SRQ_YIELDING)
        rw [hadd, ok_bind]
        refine ⟨_, _, _, rfl, hk, (hL.keep fun d => ?_).congr rfl rfl rfl, ?_⟩
        · rw [hload]
          rfl
        · exact (hroles.leave (w := .queued c) (q := .choose) hidle hown nofun nofun
            (fun d => by simp) nofun fun d hd => hself.trans (Place.queued.inj hd)).congr
            rfl rfl fun _ _ => rfl
      next =>
        refine ⟨_, _, _, rfl, (hQ.elsewhere (w := .migrating c) hnot nofun).of_thread rfl fun _ =>
          -- it leaves for another one
          ⟨rfl, rfl, rfl⟩, hL.rem hload fun _ => rfl, ?_⟩
        exact (hroles.leave (w := .migrating c) (q := .migrate _ _) hidle hown nofun nofun
          (fun d => by simp [eq_comm]) (fun tdn flags hn => (Phase.migrate.inj hn).1) nofun).congr
          rfl rfl fun _ _ => rfl
    next =>
      refine ⟨_, _, _, rfl, (h.queues.elsewhere (w := .off) hnot nofun).of_thread rfl fun _ =>
        -- it sleeps, or has ended
        ⟨rfl, rfl, rfl⟩, h.loads.rem hload fun _ => rfl, ?_⟩
      refine (h.roles.leave (w := .off) hidle hown ?_ nofun (fun d => ?_) ?_ nofun).congr
        rfl rfl fun _ _ => rfl
      all_goals split <;> simp

lemma switchMigrated {tdn : Fin n} {flags : BitVec 32} (hmig : phase c = .migrate tdn flags) :
    ∃ m' place', switchMigrated m c tdn flags = .ok m' ∧
      SmpKept m' (update phase c .choose) place' := by
  have hplace : place (m.pc_curthread c) = .migrating c :=
    (h.roles.migrating _ c).mpr ⟨⟨tdn, flags, hmig⟩, rfl⟩
  have hnot : ∀ d, place (m.pc_curthread c) ≠ .queued d := by simp [hplace]
  have hload : ∀ d, (place (m.pc_curthread c)).loads d = false := by simp [hplace, Place.loads]
  obtain ⟨tdqs, thread, m₁, heq, rfl, hQ, hL⟩ :=
    tdq_add_kept h.queues h.loads hnot hload tdn flags
  refine ⟨_, _, heq, hQ, hL, ?_⟩
  exact (h.roles.leave (w := .queued tdn) (q := .choose) (h.idle_off (by simp [hplace]))
    (fun d hd => by simpa [hplace, eq_comm] using hd) nofun nofun (fun d => by simp) nofun
    fun d hd => (h.roles.target c tdn flags hmig).trans (Place.queued.inj hd)).congr
    rfl rfl fun _ _ => rfl

lemma tdq_trysteal {steal : Fin n} {steal_thresh : ℤ} {rnd : ℕ} (htry : phase c = .trysteal)
    (hs : tdq_trysteal m c steal steal_thresh rnd = .ok m') :
    ∃ place', SmpKept m' (update phase c .choose) place' := by
  unfold Sched.tdq_trysteal at hs
  split at hs
  · cases hs
    exact ⟨place, h.pass (.inr htry)⟩
  · exact (h.stealFrom hs).imp fun _ hk => hk.pass (.inr htry)

lemma tdq_idled {steal : Fin n} {steal_thresh : ℤ} {rnd : ℕ} {switched : Bool}
    (hs : tdq_idled m c steal steal_thresh rnd switched = .ok m') :
    ∃ place', SmpKept m' phase place' := by
  unfold Sched.tdq_idled at hs
  split at hs
  · cases hs
    exact ⟨place, h⟩
  · exact h.stealFrom hs

lemma sched_throw (hrun : phase c = .run) (hidle : ¬m.TD_IS_IDLETHREAD (m.pc_curthread c)) :
    SmpKept (sched_throw m c) (update phase c .choose) (update place (m.pc_curthread c) .off) := by
  have hplace : place (m.pc_curthread c) = .running c :=
    (h.roles.running _ c).mpr ⟨hrun, rfl, hidle⟩
  have hnot : ∀ d, place (m.pc_curthread c) ≠ .queued d := by simp [hplace]
  refine ⟨(h.queues.elsewhere (w := .off) hnot nofun).of_thread rfl fun _ => ⟨rfl, rfl, rfl⟩,
    h.loads.rem (by simp [hplace, Place.loads]) fun _ => rfl, ?_⟩
  exact (h.roles.leave (w := .off) (q := .choose) hidle
    (fun d hd => by simpa [hplace, eq_comm] using hd) nofun nofun (fun d => by simp) nofun
    nofun).congr rfl rfl fun _ _ => rfl

lemma choosethread {rnd : ℕ} (hch : phase c = .choose) (hs : choosethread m c rnd = .ok m') :
    ∃ place', SmpKept m' (update phase c .run) place' := by
  have hold : ∀ td, place td ≠ .running c ∧ place td ≠ .migrating c := fun td => by
    refine ⟨fun hr => ?_, fun hm => ?_⟩
    · have := ((h.roles.running td c).mp hr).1
      simp [hch] at this
    · obtain ⟨⟨tdn, flags, hmig⟩, -⟩ := (h.roles.migrating td c).mp hm
      simp [hch] at hmig
  unfold Sched.choosethread sched_choose at hs
  cases hc : tdq_choose (m.sys c) rnd with
  | error e =>
    rw [hc] at hs
    cases hs
  | ok r =>
    rw [hc, ok_bind] at hs
    cases r with
    | none =>
      -- the idle thread
      cases hs
      have hidle : m.TD_IS_IDLETHREAD (m.pc_idlethread c) := ⟨c, rfl⟩
      refine ⟨place, ((h.queues.setLowpri c _).setState _).of_thread rfl fun _ => ⟨rfl, rfl, rfl⟩,
        h.loads.congr rfl rfl rfl, ?_⟩
      exact (h.roles.idles hold hidle).congr rfl rfl fun _ _ => rfl
    | some td =>
      -- the thread found leaves its queue and runs
      obtain ⟨p, hp⟩ := mem_of_tdq_choose hc
      have hq : place td = .queued c := h.queues.queued_iff.mp ⟨p, hp⟩
      obtain ⟨s, heq, hk⟩ := h.queues.runq_rem (w := .running c) hq nofun
      dsimp only at hs
      rw [heq, ok_bind] at hs
      cases hs
      have hlow := hk.setLowpri c (s.thread td).td_priority
      have hsys : (m.setSys c s).setSys c (setLowpri ((m.setSys c s).sys c) (s.thread td).td_priority)
          = m.setSys c (setLowpri s (s.thread td).td_priority) := by
        simp [Smp.setSys, Smp.sys, setLowpri]
      rw [hsys] at hlow
      refine ⟨_, (hlow.setState .TDS_RUNNING).of_thread rfl fun _ => ⟨rfl, rfl, rfl⟩,
        (h.loads.keep fun d => ?_).congr rfl rfl rfl, ?_⟩
      · rw [hq]
        rfl
      · exact (h.roles.chosen hold (by simp [hq]) (h.idle_off (by simp [hq]))).congr rfl rfl
          fun _ _ => rfl

lemma sched_clock {tdq : Tdq T} (hs : clockAdvance (m.TDQ_CPU c) = .ok tdq) :
    SmpKept { m with TDQ_CPU := update m.TDQ_CPU c tdq } phase place := by
  have hidx₀ : (m.TDQ_CPU c).tdq_idx.toNat < RQ_NQS := (h.queues.kept c).idx
  have hridx₀ : (m.TDQ_CPU c).tdq_ridx.toNat < RQ_NQS := (h.queues.kept c).ridx
  have htdq : tdq.tdq_runq = (m.TDQ_CPU c).tdq_runq ∧
      tdq.tdq_transferable = (m.TDQ_CPU c).tdq_transferable ∧
      tdq.tdq_idx.toNat < RQ_NQS ∧ tdq.tdq_ridx.toNat < RQ_NQS := by
    unfold clockAdvance at hs
    split at hs
    · dsimp only at hs
      rw [slot_eq hridx₀, ok_bind] at hs
      split at hs <;> cases hs
      · exact ⟨rfl, rfl, toNat_mod_lt _, toNat_mod_lt _⟩
      · exact ⟨rfl, rfl, toNat_mod_lt _, hridx₀⟩
    · cases hs
      exact ⟨rfl, rfl, hidx₀, hridx₀⟩
  obtain ⟨hq, htr, hidx, hridx⟩ := htdq
  exact ⟨h.queues.of_tdq hq htr hidx hridx, h.loads.congr rfl rfl rfl,
    h.roles.congr rfl rfl fun _ _ => rfl⟩

lemma change {thread : T → Thread} {ts_cpu : T → Fin n} {td_cpuset : T → ℕ → Bool}
    (hth : ∀ td, (thread td).ts_runq = (m.thread td).ts_runq ∧
      (thread td).td_rqindex = (m.thread td).td_rqindex ∧
      xferable (thread td) = xferable (m.thread td))
    (hcpu : ∀ td c, m.Queued td c ∨ m.Migrates phase td c → ts_cpu td = m.ts_cpu td) :
    SmpKept { m with thread := thread, ts_cpu := ts_cpu, td_cpuset := td_cpuset } phase place := by
  refine ⟨h.queues.of_thread rfl hth, h.loads.congr rfl rfl rfl, ?_⟩
  refine h.roles.congr rfl rfl fun td ⟨c, hc⟩ => hcpu td c ?_
  exact hc.imp h.queues.queued_iff.mpr (h.roles.migrating td c).mp

end SmpKept

lemma smpKept_setup (hclear : ∀ td, xferable (m.thread td) = false)
    (hcur : ¬m.TD_IS_IDLETHREAD (m.pc_curthread c)) :
    SmpKept (sched_setup m c) (update (fun _ => .choose) c .run)
      (update (fun _ => .off) (m.pc_curthread c) (.running c)) := by
  set m₀ : Smp T n := { m with
    TDQ_CPU := fun _ => tdq_setup zeroTdq
    tdq_load := fun _ => 0
    tdq_sysload := fun _ => 0 } with hm₀
  have hQ : QueuesKept m₀ fun _ => .off := by
    refine ⟨fun d => ?_, fun td _ => hclear td⟩
    have hnone : queuedOn (fun _ : T => Place.off) d = ∅ := by
      ext t
      simp
    rw [hnone]
    exact kept_setup fun td => by simp [absent, xferable]
  have hL : LoadsKept m₀ fun _ => .off := by
    constructor <;> exact fun d => by simp [hm₀, loadOf, Place.loads]
  have hR : RolesKept m₀ (fun _ => .choose) fun _ => .off :=
    ⟨by simp, fun _ _ => rfl, fun t d => by simp [Smp.Runs], fun t d => by simp [Smp.Migrates],
      by simp⟩
  have hQ₁ : QueuesKept (m₀.tdq_load_add c (m.pc_curthread c))
      (update (fun _ => .off) (m.pc_curthread c) (.running c)) :=
    (hQ.elsewhere (fun _ => by simp) fun _ => by simp).of_thread rfl fun _ => ⟨rfl, rfl, rfl⟩
  have hL₁ : LoadsKept (m₀.tdq_load_add c (m.pc_curthread c))
      (update (fun _ => .off) (m.pc_curthread c) (.running c)) :=
    hL.add (fun _ => rfl) fun d => rfl
  have hR₁ := hR.chosen (c := c) (fun _ => by simp) (fun _ => by simp) hcur
  refine ⟨hQ₁.setLowpri c _, hL₁.congr rfl rfl rfl, hR₁.congr ?_ rfl fun _ _ => rfl⟩
  exact (Function.update_eq_self ..).symm

lemma SmpReached.kept (h : SmpReached m phase) : ∃ place, SmpKept m phase place := by
  induction h with
  | sched_setup hclear hcur => exact ⟨_, smpKept_setup hclear hcur⟩
  | @sched_add m m' phase td cpu flags _ hoff hs ih =>
    obtain ⟨place, hk⟩ := ih
    obtain ⟨m₁, heq, hk'⟩ := hk.sched_add hoff cpu flags
    exact ⟨_, Except.ok.inj (heq.symm.trans hs) ▸ hk'⟩
  | sched_rem _ hq hs ih =>
    exact ih.elim fun place hk => ⟨_, hk.sched_rem (hk.queues.queued_iff.mp hq) hs⟩
  | sched_balance_pair _ hs ih => exact ih.elim fun place hk => hk.sched_balance_pair hs
  | tdq_idled _ _ hs ih => exact ih.elim fun place hk => hk.tdq_idled hs
  | @sched_switch m m' phase c pick preempted next _ hrun hs ih =>
    obtain ⟨place, hk⟩ := ih
    obtain ⟨m₁, next', place', heq, hk'⟩ := hk.sched_switch hrun preempted pick
    cases heq.symm.trans hs
    exact ⟨_, hk'⟩
  | switchMigrated _ hmig hs ih =>
    obtain ⟨place, hk⟩ := ih
    obtain ⟨m₁, place', heq, hk'⟩ := hk.switchMigrated hmig
    exact ⟨_, Except.ok.inj (heq.symm.trans hs) ▸ hk'⟩
  | tdq_trysteal _ htry _ hs ih => exact ih.elim fun place hk => hk.tdq_trysteal htry hs
  | trystealNone _ htry ih => exact ih.imp fun place hk => hk.pass (.inr htry)
  | sched_throw _ hrun hidle ih => exact ih.elim fun place hk => ⟨_, hk.sched_throw hrun hidle⟩
  | choosethread _ hch hs ih => exact ih.elim fun place hk => hk.choosethread hch hs
  | sched_clock _ hs ih => exact ih.imp fun place hk => hk.sched_clock hs
  | change _ hth hcpu ih => exact ih.imp fun place hk => hk.change hth hcpu

/-! ### What holds in every state -/

/-- The threads and the loads as all processors rely on them. -/
structure Scheduled (m : Smp T n) (phase : Fin n → Phase n) : Prop where
  /-- A thread that is queued stands once, in the slot its fields name, on the queue of the
  processor it is to run on. -/
  stands : ∀ td c p, td ∈ queues (m.sys c) p → (queues (m.sys c) p).count td = 1 ∧
    standsIn (m.thread td) = some p ∧ m.ts_cpu td = c
  status : ∀ c p, bits (m.sys c) p = true ↔ queues (m.sys c) p ≠ []
  /-- A thread that a processor runs or sends on is on no queue, and no other one has it. -/
  alone : ∀ td c, m.Runs phase td c ∨ m.Migrates phase td c → (∀ d, ¬m.Queued td d) ∧
    ∀ d, m.Runs phase td d ∨ m.Migrates phase td d → d = c
  idle : ∀ td, m.TD_IS_IDLETHREAD td → ∀ c, ¬m.Queued td c
  load : ∀ c, ∃ S : Finset T, (∀ td, td ∈ S ↔ m.Queued td c ∨ m.Runs phase td c) ∧
    m.tdq_load c = S.card ∧ m.tdq_sysload c = (S.filter fun td => !m.td_noload td).card
  transferable : ∀ c, ∃ S : Finset T, (∀ td, td ∈ S ↔ m.Queued td c ∧ xferable (m.thread td)) ∧
    (m.TDQ_CPU c).tdq_transferable = S.card

omit [Fintype T] in
lemma loads_iff {w : Place n} : w.loads c ↔ w = .queued c ∨ w = .running c := by
  cases w <;> simp [Place.loads]

/-- **Every thread has one place**, in every state of all processors: it is queued once, or run
by one processor, or on its way, and the loads count it there. -/
theorem scheduled_of_reached (h : SmpReached m phase) : Scheduled m phase := by
  obtain ⟨place, hk⟩ := h.kept
  have hbusy : ∀ td c, m.Runs phase td c ∨ m.Migrates phase td c ↔
      place td = .running c ∨ place td = .migrating c := fun td c => by
    rw [hk.roles.running, hk.roles.migrating]
  constructor
  case stands =>
    intro td c p hp
    have hone := (hk.queues.kept c).placed.nodup p
    have hcount : (queues (m.sys c) p).count td = 1 := List.count_eq_one_of_mem hone hp
    exact ⟨hcount, hk.queues.standsIn hp, hk.roles.cpu td c (hk.queues.queued_iff.mp ⟨p, hp⟩)⟩
  case status => exact fun c p => (hk.queues.kept c).bits p
  case alone =>
    intro td c hc
    rw [hbusy] at hc
    refine ⟨fun d hd => ?_, fun d hd => ?_⟩
    · rw [hk.queues.queued_iff] at hd
      simp [hd] at hc
    · rw [hbusy] at hd
      rcases hc with hc | hc <;> simpa [hc, eq_comm] using hd
  case idle =>
    intro td hidle c hq
    have := hk.queues.queued_iff.mp hq
    simp [hk.roles.idle td hidle] at this
  case load =>
    refine fun c => ⟨loadOf (fun _ => true) place c, fun td => ?_, hk.loads.load c, ?_⟩
    · rw [hk.queues.queued_iff, ← hk.roles.running, ← loads_iff]
      simp [loadOf]
    · rw [hk.loads.sysload c]
      congr 2
      ext td
      simp [loadOf, and_comm]
  case transferable =>
    refine fun c => ⟨(queuedOn place c).filter fun td => xferable (m.thread td), fun td => ?_, ?_⟩
    · rw [hk.queues.queued_iff]
      simp
    · refine (hk.queues.kept c).transferable.trans ?_
      congr 2
      ext td
      simp only [Finset.mem_filter, mem_queuedOn]
      refine and_congr_right fun htd => ?_
      simp [Smp.view, htd]

/-! ### Faults -/

section faults

variable {rnd : ℕ} {e : Fault}

omit [Fintype T] [DecidableEq T] in
lemma error_of_tdq_setlowpri {s : Sys T} {t : T} {ctd : Option T}
    (h : tdq_setlowpri s t ctd rnd = .error e) : e = .divideByZero ∨ e = .noTicketHolder := by
  unfold tdq_setlowpri at h
  cases hc : tdq_choose s rnd with
  | error e' =>
    rw [hc] at h
    cases h
    exact error_of_tdq_choose hc
  | ok r =>
    rw [hc, ok_bind] at h
    cases r with
    | none => cases h
    | some td =>
      dsimp only at h
      split at h <;> cases h

variable (h : SmpKept m phase place)
include h

lemma error_of_sched_rem (hq : place td = .queued c) (hs : sched_rem m td rnd = .error e) :
    e = .divideByZero ∨ e = .noTicketHolder := by
  obtain rfl := h.roles.cpu td c hq
  obtain ⟨s, heq, -⟩ := h.queues.runq_rem hq (w := .off) nofun
  unfold sched_rem at hs
  dsimp only at hs
  rw [heq, ok_bind] at hs
  split at hs
  · generalize hlow : tdq_setlowpri _ _ none rnd = r at hs
    cases r with
    | error e' =>
      cases hs
      exact error_of_tdq_setlowpri hlow
    | ok s' => cases hs
  · cases hs

lemma error_of_tdq_move {src cpu : Fin n} (hs : tdq_move m src cpu rnd = .error e) :
    e = .divideByZero ∨ e = .noTicketHolder := by
  unfold tdq_move at hs
  cases hsteal : tdq_steal (m.sys src) m.td_cpuset cpu with
  | none =>
    rw [hsteal] at hs
    cases hs
  | some td =>
    rw [hsteal] at hs
    dsimp only at hs
    have hq : place td = .queued src := h.queues.queued_iff.mp (of_tdq_steal hsteal).2
    cases hrem : sched_rem m td rnd with
    | error e' =>
      rw [hrem] at hs
      cases hs
      exact error_of_sched_rem h hq hrem
    | ok m₁ =>
      obtain ⟨m₂, heq, -⟩ := h.readd cpu hq hrem
      rw [hrem, ok_bind, heq, ok_bind] at hs
      cases hs

lemma error_of_choosethread (hs : choosethread m c rnd = .error e) :
    e = .divideByZero ∨ e = .noTicketHolder := by
  unfold choosethread sched_choose at hs
  cases hc : tdq_choose (m.sys c) rnd with
  | error e' =>
    rw [hc] at hs
    cases hs
    exact error_of_tdq_choose hc
  | ok r =>
    rw [hc, ok_bind] at hs
    cases r with
    | none => cases hs
    | some td =>
      have hq : place td = .queued c := h.queues.queued_iff.mp (mem_of_tdq_choose hc)
      obtain ⟨s, heq, -⟩ := h.queues.runq_rem (w := .off) hq nofun
      dsimp only at hs
      rw [heq, ok_bind] at hs
      cases hs

end faults

local instance neZero_two : NeZero 2 := ⟨two_ne_zero⟩
local instance neZero_four : NeZero 4 := ⟨four_ne_zero⟩

/-- Two processors with their idle threads, and a thread that runs on the first one. -/
def twoCpus : Smp (Fin 4) 2 where
  TDQ_CPU _ := zeroTdq
  tdq_load _ := 0
  tdq_sysload _ := 0
  thread _ := ⟨200, 0, 0, .TDS_RUNNING, 0, 0, none, 0⟩
  ts_cpu _ := 0
  td_cpuset _ _ := true
  td_noload _ := false
  pc_curthread c := if c = 0 then 2 else 1
  pc_idlethread c := if c = 0 then 0 else 1

lemma twoCpus_run : ∃ m₁ m₂ m₃, sched_add (sched_setup twoCpus 0) 3 0 SRQ_BORING = .ok m₁ ∧
    sched_balance_pair m₁ 0 1 0 = .ok (true, m₂) ∧ choosethread m₂ 1 0 = .ok m₃ ∧
    m₁.tdq_load 0 = 2 ∧ m₃.tdq_load 0 = 1 ∧ m₃.tdq_load 1 = 1 ∧ m₃.pc_curthread 1 = 3 :=
  ⟨_, _, _, rfl, rfl, rfl, rfl, rfl, rfl, rfl⟩

lemma twoCpus_clear (td : Fin 4) : xferable (twoCpus.thread td) = false := by
  simp [twoCpus, xferable]

lemma twoCpus_off : (sched_setup twoCpus 0).Off (update (fun _ => .choose) 0 .run) 3 :=
  (smpKept_setup twoCpus_clear (by decide)).off_iff.mpr ⟨by decide, by decide⟩

/-- A thread is queued on the busy processor, balanced to the other one and run there. -/
theorem scheduled_of_reached_twoCpus : ∃ m : Smp (Fin 4) 2, m.pc_curthread 1 = 3 ∧
    m.tdq_load 0 = 1 ∧ m.tdq_load 1 = 1 ∧ Scheduled m (fun _ => .run) := by
  obtain ⟨m₁, m₂, m₃, hadd, hbal, hch, -, h0, h1, hcur⟩ := twoCpus_run
  have hboot : SmpReached (sched_setup twoCpus 0) _ := .sched_setup twoCpus_clear (by decide)
  have h2 := (hboot.sched_add twoCpus_off hadd).sched_balance_pair hbal
  have h3 := h2.choosethread (c := 1) (by decide) hch
  refine ⟨m₃, hcur, h0, h1, ?_⟩
  have hphase : update (update (fun _ : Fin 2 => Phase.choose (n := 2)) 0 .run) 1 .run =
      fun _ => .run := by decide
  exact hphase ▸ scheduled_of_reached h3

end Messaround.Sched
