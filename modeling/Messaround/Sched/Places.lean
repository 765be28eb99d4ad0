import Mathlib.Algebra.Order.BigOperators.Group.Finset
import Mathlib.Data.Fintype.Basic
import Messaround.Sched.Placement
import Messaround.Sched.Smp

/-!
The places of the threads among all processors: what queues, loads and current threads keep.

The queue of one processor is seen alone by a view, in which the threads that are not on it have
no flags: what holds of a single queue holds of every view, and a step changes one of them or
moves a thread from one to another.
-/

namespace Messaround.Sched

open Function (update)

variable {T : Type} [DecidableEq T] {n : ℕ} {m m' : Smp T n} {td : T} {c d : Fin n}

/-! ### Places -/

namespace Smp

/-- The thread stands on a queue of the processor. -/
def Queued (m : Smp T n) (td : T) (c : Fin n) : Prop := ∃ p, td ∈ queues (m.sys c) p

/-- The current thread of a processor that has not left it. -/
def Runs (m : Smp T n) (phase : Fin n → Phase n) (td : T) (c : Fin n) : Prop :=
  phase c = .run ∧ m.pc_curthread c = td ∧ ¬m.TD_IS_IDLETHREAD td

def Migrates (m : Smp T n) (phase : Fin n → Phase n) (td : T) (c : Fin n) : Prop :=
  (∃ tdn flags, phase c = .migrate tdn flags) ∧ m.pc_curthread c = td

/-- A thread that sleeps, or is new, or is to be put on another queue. -/
def Off (m : Smp T n) (phase : Fin n → Phase n) (td : T) : Prop :=
  ¬m.TD_IS_IDLETHREAD td ∧ ∀ c, ¬m.Queued td c ∧ ¬m.Runs phase td c ∧ ¬m.Migrates phase td c

end Smp

/-- Where a thread is. -/
inductive Place (n : ℕ)
  | off
  | queued (c : Fin n)
  | running (c : Fin n)
  | migrating (c : Fin n)
  deriving DecidableEq

/-- Whether a thread there is counted by the load of a processor. -/
def Place.loads : Place n → Fin n → Bool
  | .queued c, d | .running c, d => c = d
  | _, _ => false

/-- A thread that is not on the queue looked at. -/
def absent : Thread := ⟨0, 0, 0, .TDS_INACTIVE, 0, 0, none, 0⟩

variable [Fintype T] {place place' : T → Place n} {w : Place n}

/-- The queue of one processor, and the threads on it. -/
def Smp.view (m : Smp T n) (place : T → Place n) (c : Fin n) : Sys T :=
  ⟨m.TDQ_CPU c, fun td => if place td = .queued c then m.thread td else absent⟩

def queuedOn (place : T → Place n) (c : Fin n) : Finset T := {td | place td = .queued c}

omit [DecidableEq T] in
@[simp] lemma mem_queuedOn : td ∈ queuedOn place c ↔ place td = .queued c := by simp [queuedOn]

def loadOf (p : T → Bool) (place : T → Place n) (c : Fin n) : Finset T :=
  {td | p td ∧ (place td).loads c}

lemma queuedOn_enter (place : T → Place n) (td : T) (c : Fin n) :
    queuedOn (update place td (.queued c)) c = insert td (queuedOn place c) := by
  ext t
  rcases eq_or_ne t td with rfl | ht
  · simp
  · simp [ht]

lemma queuedOn_leave (place : T → Place n) (hw : w ≠ .queued c) :
    queuedOn (update place td w) c = (queuedOn place c).erase td := by
  ext t
  rcases eq_or_ne t td with rfl | ht
  · simp [hw]
  · simp [ht]

lemma queuedOn_other (hp : place td ≠ .queued c) (hw : w ≠ .queued c) :
    queuedOn (update place td w) c = queuedOn place c := by
  rw [queuedOn_leave place hw, Finset.erase_eq_of_notMem (by simpa using hp)]

/-! ### The queues -/

/-- What the queues of all processors keep. -/
structure QueuesKept (m : Smp T n) (place : T → Place n) : Prop where
  kept : ∀ c, Kept (m.view place c) (queuedOn place c)
  clear : ∀ td, (∀ c, place td ≠ .queued c) → xferable (m.thread td) = false

namespace QueuesKept

omit [Fintype T] in
lemma view_entered {th : Thread} {k : ℤ} {r : RunqName} {i : Fin RQ_NQS} {l : List T} :
    (m.setSys c (entered (m.sys c) td th k r i l)).view (update place td (.queued c)) c =
      entered (m.view place c) td th k r i l := by
  unfold Smp.view
  congr 1
  · exact Function.update_self ..
  · funext t
    change (if update place td (.queued c) t = .queued c then update m.thread td th t else absent) =
      update (fun t => if place t = .queued c then m.thread t else absent) td th t
    rcases eq_or_ne t td with rfl | ht
    · simp
    · simp [ht]

omit [Fintype T] in
lemma view_left {k : ℤ} {th : Thread} {r : RunqName} {i : Fin RQ_NQS} {x : UInt8}
    (hw : w ≠ .queued c) :
    (m.setSys c (left (m.sys c) td th k r i x)).view (update place td w) c =
      left (m.view place c) td absent k r i x := by
  unfold Smp.view
  congr 1
  · exact Function.update_self ..
  · funext t
    change (if update place td w t = .queued c then update m.thread td th t else absent) =
      update (fun t => if place t = .queued c then m.thread t else absent) td absent t
    rcases eq_or_ne t td with rfl | ht
    · simp [hw]
    · simp [ht]

omit [Fintype T] in
lemma view_other {s : Sys T} {th : Thread} (hd : d ≠ c) (hs : s.thread = update m.thread td th)
    (hp : place td ≠ .queued d) (hw : w ≠ .queued d) :
    (m.setSys c s).view (update place td w) d = m.view place d := by
  unfold Smp.view
  congr 1
  · exact Function.update_of_ne hd ..
  · funext t
    change (if update place td w t = .queued d then s.thread t else absent) = _
    rcases eq_or_ne t td with rfl | ht
    · simp [hw, hp]
    · simp [ht, hs]

variable (h : QueuesKept m place)
include h

lemma runq_add (htd : ∀ c, place td ≠ .queued c) (c : Fin n) (flags : BitVec 32) :
    ∃ s, tdq_runq_add (m.sys c) td flags = .ok s ∧
      QueuesKept (m.setSys c s) (update place td (.queued c)) := by
  have hflag : ¬xferable ((m.sys c).thread td) := by simp [Smp.sys, h.clear td htd]
  obtain ⟨th, r, i, l, heq, hst, hl⟩ := tdq_runq_add_eq hflag (h.kept c).ridx flags
  refine ⟨_, heq, fun d => ?_, fun t ht => ?_⟩
  · rcases eq_or_ne d c with rfl | hd
    · rw [view_entered, queuedOn_enter]
      exact (h.kept d).enter (by simpa using htd d) hst hl
    · have hw : Place.queued c ≠ .queued d := fun he => hd (Place.queued.inj he).symm
      rw [view_other hd rfl (htd d) hw, queuedOn_other (htd d) hw]
      exact h.kept d
  · rcases eq_or_ne t td with rfl | hne
    · exact absurd (Function.update_self ..) (ht c)
    · have hth : (m.setSys c (entered (m.sys c) td th (if xferable th then 1 else 0) r i l)).thread
          t = m.thread t := Function.update_of_ne hne ..
      rw [hth]
      exact h.clear t fun d hp => ht d (by rwa [Function.update_of_ne hne])

lemma runq_rem (htd : place td = .queued c) (hw : ∀ d, w ≠ .queued d) :
    ∃ s, tdq_runq_rem (m.sys c) td = .ok s ∧ QueuesKept (m.setSys c s) (update place td w) := by
  have hk := h.kept c
  have hmem : td ∈ queuedOn place c := mem_queuedOn.mpr htd
  have hth : (m.view place c).thread td = m.thread td := if_pos htd
  obtain ⟨⟨r, i⟩, hst⟩ := hk.stands td hmem
  have hin : td ∈ queues (m.sys c) (r, i) :=
    hk.placed.mem_iff.mpr (by rw [placeOf, if_pos hmem, hst])
  rw [hth] at hst
  obtain ⟨th, x, heq, hx, hx64⟩ := tdq_runq_rem_eq (s := m.sys c) hst hin hk.ridx
  refine ⟨_, heq, fun d => ?_, fun t ht => ?_⟩
  · rcases eq_or_ne d c with rfl | hd
    · rw [view_left (hw d), queuedOn_leave place (hw d)]
      have habsent : xferable absent = false := rfl
      have hleave := hk.leave hmem (by rw [hth]; exact hst) habsent hx64
      rwa [hth] at hleave
    · have hp : place td ≠ .queued d := fun he => hd (Place.queued.inj (he.symm.trans htd))
      rw [view_other hd rfl hp (hw d), queuedOn_other hp (hw d)]
      exact h.kept d
  · rcases eq_or_ne t td with rfl | hne
    · exact (congrArg xferable (Function.update_self ..)).trans hx
    · have hth : (m.setSys c (left (m.sys c) td th (if xferable (m.thread td) then -1 else 0) r i
          x)).thread t = m.thread t := Function.update_of_ne hne ..
      exact (congrArg xferable hth).trans
        (h.clear t fun d hp => ht d (by rwa [Function.update_of_ne hne]))

lemma of_thread (htdq : m'.TDQ_CPU = m.TDQ_CPU)
    (hth : ∀ td, (m'.thread td).ts_runq = (m.thread td).ts_runq ∧
      (m'.thread td).td_rqindex = (m.thread td).td_rqindex ∧
      xferable (m'.thread td) = xferable (m.thread td)) : QueuesKept m' place := by
  refine ⟨fun c => ?_, fun td htd => (hth td).2.2.trans (h.clear td htd)⟩
  have hk := h.kept c
  have hst : ∀ td, standsIn ((m'.view place c).thread td) =
      standsIn ((m.view place c).thread td) := fun td => by
    simp only [Smp.view]
    split
    · simp only [standsIn, (hth td).1, (hth td).2.1]
    · rfl
  have hx : ∀ td, xferable ((m'.view place c).thread td) =
      xferable ((m.view place c).thread td) := fun td => by
    simp only [Smp.view]
    split
    · exact (hth td).2.2
    · rfl
  have hv : (m'.view place c).tdq = (m.view place c).tdq := congrFun htdq c
  have hplace : placeOf (m'.view place c) (queuedOn place c) =
      placeOf (m.view place c) (queuedOn place c) := by
    funext td
    simp only [placeOf, hst]
  refine ⟨hv ▸ hk.idx, hv ▸ hk.ridx, fun td htd => ?_, ?_, ?_, ?_, fun td htd => ?_⟩
  · exact (hk.stands td htd).imp fun p hp => (hst td).trans hp
  · rw [hplace, show queues (m'.view place c) = queues (m.view place c) from
      funext fun p => by simp only [queues, hv]]
    exact hk.placed
  · simpa only [bits, queues, hv] using hk.bits
  · simp only [hx, hv]
    exact hk.transferable
  · exact (hx td).trans (hk.clear td htd)

lemma of_tdq {tdq : Tdq T} (hq : tdq.tdq_runq = (m.TDQ_CPU c).tdq_runq)
    (hk : tdq.tdq_transferable = (m.TDQ_CPU c).tdq_transferable) (hidx : tdq.tdq_idx.toNat < RQ_NQS)
    (hridx : tdq.tdq_ridx.toNat < RQ_NQS) :
    QueuesKept (m.setSys c ⟨tdq, m.thread⟩) place := by
  refine ⟨fun d => ?_, h.clear⟩
  rcases eq_or_ne d c with rfl | hd
  · have := (h.kept d).of_tdq hq hk hidx hridx
    simpa only [Smp.view, Smp.setSys, Function.update_self] using this
  · have hv : (m.setSys c ⟨tdq, m.thread⟩).view place d = m.view place d := by
      simp only [Smp.view, Smp.setSys, Function.update_of_ne hd]
    rw [hv]
    exact h.kept d

lemma setLowpri (c : Fin n) (pri : UInt8) :
    QueuesKept (m.setSys c (Sched.setLowpri (m.sys c) pri)) place :=
  h.of_tdq rfl rfl (h.kept c).idx (h.kept c).ridx

lemma elsewhere (hp : ∀ c, place td ≠ .queued c) (hw : ∀ c, w ≠ .queued c) :
    QueuesKept m (update place td w) := by
  have hiff : ∀ t c, update place td w t = .queued c ↔ place t = .queued c := fun t c => by
    rcases eq_or_ne t td with rfl | ht
    · simp [hp, hw]
    · simp [ht]
  refine ⟨fun c => ?_, fun t ht => h.clear t fun c hc => ht c ((hiff t c).mpr hc)⟩
  have hv : m.view (update place td w) c = m.view place c := by
    simp only [Smp.view, hiff]
  rw [hv, queuedOn_other (hp c) (hw c)]
  exact h.kept c

end QueuesKept

/-! ### The loads -/

/-- The load of every processor is the number of the threads in question that are its. -/
def Counts (load : Fin n → ℤ) (p : T → Bool) (place : T → Place n) : Prop :=
  ∀ c, load c = (loadOf p place c).card

/-- What a thread with `p` that is at `w` adds to a load. -/
def share (p : Bool) (w : Place n) (c : Fin n) : ℤ := if p ∧ w.loads c then 1 else 0

lemma Counts.move {load load' : Fin n → ℤ} {p : T → Bool} (h : Counts load p place)
    (hload : ∀ c, load' c = load c - share (p td) (place td) c + share (p td) w c) :
    Counts load' p (update place td w) := by
  intro c
  have hcard : ∀ S : Finset T, (S.card : ℤ) = (S.erase td).card + if td ∈ S then 1 else 0 :=
    fun S => by
      split
      next hmem => exact_mod_cast (Finset.card_erase_add_one hmem).symm
      next hmem => rw [Finset.erase_eq_of_notMem hmem, add_zero]
  have herase : (loadOf p (update place td w) c).erase td = (loadOf p place c).erase td := by
    ext t
    rcases eq_or_ne t td with rfl | ht
    · simp
    · simp [loadOf, ht]
  have hold := h c
  rw [hcard] at hold
  rw [hload, hcard, herase, hold]
  simp only [loadOf, share, Finset.mem_filter_univ, Function.update_self]
  omega

/-- What the counters of load keep. -/
structure LoadsKept (m : Smp T n) (place : T → Place n) : Prop where
  load : Counts m.tdq_load (fun _ => true) place
  sysload : Counts m.tdq_sysload (fun td => !m.td_noload td) place

namespace LoadsKept

variable (h : LoadsKept m place)
include h

omit [DecidableEq T] in
lemma congr (hload : m'.tdq_load = m.tdq_load) (hsys : m'.tdq_sysload = m.tdq_sysload)
    (hno : m'.td_noload = m.td_noload) : LoadsKept m' place :=
  ⟨hload ▸ h.load, by rw [hsys, hno]; exact h.sysload⟩

lemma keep (hw : ∀ d, w.loads d = (place td).loads d) : LoadsKept m (update place td w) := by
  constructor
  · exact h.load.move fun c => by simp [share, hw]
  · exact h.sysload.move fun c => by simp [share, hw]

lemma add (hp : ∀ d, (place td).loads d = false) (hw : ∀ d, w.loads d = decide (c = d)) :
    LoadsKept (m.tdq_load_add c td) (update place td w) := by
  constructor
  · refine h.load.move fun d => ?_
    rcases eq_or_ne c d with rfl | hd
    · simp [Smp.tdq_load_add, share, hp, hw]
    · simp [Smp.tdq_load_add, share, hp, hw, hd, hd.symm]
  · refine h.sysload.move fun d => ?_
    rcases eq_or_ne c d with rfl | hd
    · cases hno : m.td_noload td <;> simp [Smp.tdq_load_add, share, hp, hw, hno]
    · cases hno : m.td_noload td <;> simp [Smp.tdq_load_add, share, hp, hw, hno, hd, hd.symm]

lemma rem (hp : ∀ d, (place td).loads d = decide (c = d)) (hw : ∀ d, w.loads d = false) :
    LoadsKept (m.tdq_load_rem c td) (update place td w) := by
  constructor
  · refine h.load.move fun d => ?_
    rcases eq_or_ne c d with rfl | hd
    · simp [Smp.tdq_load_rem, share, hp, hw]
    · simp [Smp.tdq_load_rem, share, hp, hw, hd, hd.symm]
  · refine h.sysload.move fun d => ?_
    rcases eq_or_ne c d with rfl | hd
    · cases hno : m.td_noload td <;> simp [Smp.tdq_load_rem, share, hp, hw, hno]
    · cases hno : m.td_noload td <;> simp [Smp.tdq_load_rem, share, hp, hw, hno, hd, hd.symm]

end LoadsKept

/-! ### What the processors do -/

omit [Fintype T]

/-- Where the threads are, by what the processors do. -/
structure RolesKept (m : Smp T n) (phase : Fin n → Phase n) (place : T → Place n) : Prop where
  cpu : ∀ td c, place td = .queued c → m.ts_cpu td = c
  idle : ∀ td, m.TD_IS_IDLETHREAD td → place td = .off
  running : ∀ td c, place td = .running c ↔ m.Runs phase td c
  migrating : ∀ td c, place td = .migrating c ↔ m.Migrates phase td c
  target : ∀ c tdn flags, phase c = .migrate tdn flags → m.ts_cpu (m.pc_curthread c) = tdn

namespace RolesKept

variable {phase : Fin n → Phase n} {q : Phase n} (h : RolesKept m phase place)
include h

omit [DecidableEq T] in
lemma congr (hcur : m'.pc_curthread = m.pc_curthread) (hidle : m'.pc_idlethread = m.pc_idlethread)
    (hcpu : ∀ td, (∃ c, place td = .queued c ∨ place td = .migrating c) →
      m'.ts_cpu td = m.ts_cpu td) : RolesKept m' phase place := by
  have hid : ∀ td, m'.TD_IS_IDLETHREAD td ↔ m.TD_IS_IDLETHREAD td := fun td => by
    simp only [Smp.TD_IS_IDLETHREAD, hidle]
  refine ⟨fun td c hp => ?_, fun td hi => h.idle td ((hid td).mp hi), fun td c => ?_,
    fun td c => ?_, fun c tdn flags hp => ?_⟩
  · rw [hcpu td ⟨c, .inl hp⟩]
    exact h.cpu td c hp
  · rw [h.running, Smp.Runs, Smp.Runs, hcur, hid]
  · rw [h.migrating, Smp.Migrates, Smp.Migrates, hcur]
  · have hmig := (h.migrating (m.pc_curthread c) c).mpr ⟨⟨tdn, flags, hp⟩, rfl⟩
    rw [hcur, hcpu _ ⟨c, .inr hmig⟩]
    exact h.target c tdn flags hp

lemma requeue (hidle : ¬m.TD_IS_IDLETHREAD td)
    (hp : ∀ c, place td ≠ .running c ∧ place td ≠ .migrating c)
    (hw : ∀ c, w ≠ .running c ∧ w ≠ .migrating c) (hcpu : ∀ c, w = .queued c → m.ts_cpu td = c) :
    RolesKept m phase (update place td w) := by
  refine ⟨fun t c ht => ?_, fun t ht => ?_, fun t c => ?_, fun t c => ?_, h.target⟩
  all_goals rcases eq_or_ne t td with rfl | hne
  · exact hcpu c (by simpa using ht)
  · exact h.cpu t c (by simpa [hne] using ht)
  · exact absurd ht hidle
  · simpa [hne] using h.idle t ht
  · simpa [(hw c).1] using fun hr => (hp c).1 ((h.running t c).mpr hr)
  · simpa [hne] using h.running t c
  · simpa [(hw c).2] using fun hr => (hp c).2 ((h.migrating t c).mpr hr)
  · simpa [hne] using h.migrating t c

lemma placed (hidle : ¬m.TD_IS_IDLETHREAD td)
    (hp : ∀ c, place td ≠ .running c ∧ place td ≠ .migrating c)
    (hcur : m'.pc_curthread = m.pc_curthread) (hid : m'.pc_idlethread = m.pc_idlethread)
    (hcpu : m'.ts_cpu = update m.ts_cpu td c) : RolesKept m' phase (update place td (.queued c)) := by
  have hoff := h.requeue (w := .off) hidle hp (fun _ => ⟨nofun, nofun⟩) nofun
  have hm' : RolesKept m' phase (update place td .off) := hoff.congr hcur hid fun t ht => by
    have hne : t ≠ td := fun he => by simp [he] at ht
    rw [hcpu, Function.update_of_ne hne]
  have hidle' : ¬m'.TD_IS_IDLETHREAD td := by simpa only [Smp.TD_IS_IDLETHREAD, hid] using hidle
  have := hm'.requeue (w := .queued c) hidle' (fun _ => by simp) (fun _ => ⟨nofun, nofun⟩)
    fun d hd => by rw [hcpu, Function.update_self]; exact Place.queued.inj hd
  rwa [Function.update_idem] at this

omit [DecidableEq T] in
lemma still (hold : ∀ td, place td ≠ .running c ∧ place td ≠ .migrating c)
    (hnext : q ≠ .run ∧ ∀ tdn flags, q ≠ .migrate tdn flags) :
    RolesKept m (update phase c q) place := by
  refine ⟨h.cpu, h.idle, fun t d => ?_, fun t d => ?_, fun d tdn flags hd => ?_⟩
  all_goals rcases eq_or_ne d c with rfl | hne
  · simp [Smp.Runs, hnext.1, (hold t).1]
  · simpa [Smp.Runs, hne] using h.running t d
  · simp [Smp.Migrates, hnext.2, (hold t).2]
  · simpa [Smp.Migrates, hne] using h.migrating t d
  · exact absurd (by simpa using hd) (hnext.2 tdn flags)
  · exact h.target d tdn flags (by simpa [hne] using hd)

lemma leave (hidle : ¬m.TD_IS_IDLETHREAD (m.pc_curthread c))
    (hp : ∀ d, place (m.pc_curthread c) = .running d ∨ place (m.pc_curthread c) = .migrating d →
      d = c)
    (hnext : q ≠ .run) (hw : ∀ d, w ≠ .running d)
    (hmig : ∀ d, w = .migrating d ↔ d = c ∧ ∃ tdn flags, q = .migrate tdn flags)
    (htarget : ∀ tdn flags, q = .migrate tdn flags → m.ts_cpu (m.pc_curthread c) = tdn)
    (hcpu : ∀ d, w = .queued d → m.ts_cpu (m.pc_curthread c) = d) :
    RolesKept m (update phase c q) (update place (m.pc_curthread c) w) := by
  have hown := fun d (hd : d ≠ c) => not_or.mp fun hr => hd (hp d hr)
  refine ⟨fun t d ht => ?_, fun t ht => ?_, fun t d => ?_, fun t d => ?_, fun d tdn flags hd => ?_⟩
  case refine_1 =>
    rcases eq_or_ne t (m.pc_curthread c) with rfl | hne
    · exact hcpu d (by simpa using ht)
    · exact h.cpu t d (by simpa [hne] using ht)
  case refine_2 =>
    have hne : t ≠ m.pc_curthread c := fun he => hidle (he ▸ ht)
    simpa [hne] using h.idle t ht
  case refine_3 =>
    rcases eq_or_ne t (m.pc_curthread c) with rfl | hne <;> rcases eq_or_ne d c with rfl | hd
    · simp [Smp.Runs, hnext, hw]
    · have := (h.running (m.pc_curthread c) d).not.mp (hown d hd).1
      simpa [Smp.Runs, hd, hw] using this
    · have : place t ≠ .running d := fun hr => hne ((h.running t d).mp hr).2.1.symm
      simp [Smp.Runs, hnext, hne, this]
    · simpa [Smp.Runs, hd, hne] using h.running t d
  case refine_4 =>
    rcases eq_or_ne t (m.pc_curthread c) with rfl | hne <;> rcases eq_or_ne d c with rfl | hd
    · simp [Smp.Migrates, hmig]
    · have := (h.migrating (m.pc_curthread c) d).not.mp (hown d hd).2
      simpa [Smp.Migrates, hd, hmig] using this
    · have : place t ≠ .migrating d := fun hr => hne ((h.migrating t d).mp hr).2.symm
      simp [Smp.Migrates, hne, hne.symm, this]
    · simpa [Smp.Migrates, hd, hne] using h.migrating t d
  case refine_5 =>
    rcases eq_or_ne d c with rfl | hne
    · exact htarget tdn flags (by simpa using hd)
    · exact h.target d tdn flags (by simpa [hne] using hd)

lemma chosen (hold : ∀ td, place td ≠ .running c ∧ place td ≠ .migrating c)
    (htd : ∀ d, place td ≠ .running d ∧ place td ≠ .migrating d) (hidle : ¬m.TD_IS_IDLETHREAD td) :
    RolesKept (m.cpu_switch c td) (update phase c .run)
      (update place td (.running c)) := by
  refine ⟨fun t d ht => ?_, fun t ht => ?_, fun t d => ?_, fun t d => ?_, fun d tdn flags hd => ?_⟩
  case refine_1 =>
    rcases eq_or_ne t td with rfl | hne
    · simp at ht
    · exact h.cpu t d (by simpa [hne] using ht)
  case refine_2 =>
    have hne : t ≠ td := fun he => hidle (he ▸ ht)
    simpa [hne] using h.idle t ht
  case refine_3 =>
    have hiff := h.running t d
    rcases eq_or_ne t td with rfl | hne <;> rcases eq_or_ne d c with rfl | hd
    · simpa [Smp.Runs] using hidle
    · simp only [(htd d).1, false_iff] at hiff
      simpa [Smp.Runs, hd, hd.symm] using hiff
    · simp [Smp.Runs, hne, hne.symm, (hold t).1]
    · simpa [Smp.Runs, hd, hne] using hiff
  case refine_4 =>
    have hiff := h.migrating t d
    rcases eq_or_ne t td with rfl | hne <;> rcases eq_or_ne d c with rfl | hd
    · simp [Smp.Migrates]
    · simp only [(htd d).2, false_iff] at hiff
      simpa [Smp.Migrates, hd] using hiff
    · simp [Smp.Migrates, hne, (hold t).2]
    · simpa [Smp.Migrates, hd, hne] using hiff
  case refine_5 =>
    rcases eq_or_ne d c with rfl | hne
    · simp at hd
    · simpa [hne] using h.target d tdn flags (by simpa [hne] using hd)

omit [DecidableEq T] in
lemma idles (hold : ∀ td, place td ≠ .running c ∧ place td ≠ .migrating c)
    (hidle : m.TD_IS_IDLETHREAD td) :
    RolesKept (m.cpu_switch c td) (update phase c .run) place := by
  refine ⟨h.cpu, h.idle, fun t d => ?_, fun t d => ?_, fun d tdn flags hd => ?_⟩
  all_goals rcases eq_or_ne d c with rfl | hne
  · simp only [(hold t).1, false_iff]
    rintro ⟨-, hcur, hno⟩
    exact hno (by simpa [← hcur] using hidle)
  · simpa [Smp.Runs, hne] using h.running t d
  · simp [Smp.Migrates, (hold t).2]
  · simpa [Smp.Migrates, hne] using h.migrating t d
  · simp at hd
  · simpa [hne] using h.target d tdn flags (by simpa [hne] using hd)

end RolesKept

end Messaround.Sched
