import Messaround.Sched.Ule

/-!
What an addition and a removal do to the queue of a processor.

A thread's own fields name the run queue and the slot it is on. Each of the two operations
is brought into one form, whatever branch it takes: the thread enters, or leaves, the slot
its fields name.
-/

namespace Messaround.Sched

variable {T : Type} [DecidableEq T] {s : Sys T} {td : T} {n : RunqName} {i : Fin RQ_NQS}

def xferable (th : Thread) : Bool := th.ts_flags &&& TSF_XFERABLE != 0

/-- The run queue and the slot that a thread's fields name. -/
def standsIn (th : Thread) : Option (RunqName × Fin RQ_NQS) :=
  match th.ts_runq with
  | none => none
  | some .tdq_lottery => some (.tdq_lottery, 0)
  | some n => (slot th.td_rqindex).toOption.map (n, ·)

/-- All slots of the four run queues, and their bits. -/
def queues (s : Sys T) (p : RunqName × Fin RQ_NQS) : List T := (s.tdq.tdq_runq p.1).rq_queues p.2
def bits (s : Sys T) (p : RunqName × Fin RQ_NQS) : Bool := (s.tdq.tdq_runq p.1).rq_status p.2

/-! ### What an addition does -/

/-- The state in which `td` has entered a slot: `l` is the slot's queue, `th` the thread. -/
def entered (s : Sys T) (td : T) (th : Thread) (k : ℤ) (n : RunqName) (i : Fin RQ_NQS)
    (l : List T) : Sys T :=
  ((s.setThread td th).addTransferable k).setRunq n
    (((s.tdq.tdq_runq n).runq_setbit i).setQueue i l)

lemma xferable_or (f : BitVec 16) : ((f ||| TSF_XFERABLE) &&& TSF_XFERABLE != 0) = true := by
  refine bne_iff_ne.mpr fun h => ?_
  have h1 := congrArg (fun x => x.getLsbD 1) h
  simp at h1

lemma xferable_andNot (f : BitVec 16) : f &&& ~~~TSF_XFERABLE &&& TSF_XFERABLE = 0 := by
  rw [BitVec.and_assoc, show ~~~TSF_XFERABLE &&& TSF_XFERABLE = 0 by decide]
  exact BitVec.and_zero

lemma countIn_eq (hflag : ¬xferable (s.thread td)) :
    ∃ th k, countIn s td = (s.setThread td th).addTransferable k ∧
      th.td_priority = (s.thread td).td_priority ∧ k = if xferable th then 1 else 0 := by
  unfold countIn
  dsimp only
  split
  · refine ⟨{ s.thread td with
      td_state := .TDS_RUNQ
      ts_flags := (s.thread td).ts_flags ||| TSF_XFERABLE }, 1, by simp, rfl, ?_⟩
    exact (if_pos (xferable_or _)).symm
  · exact ⟨{ s.thread td with td_state := .TDS_RUNQ }, 0, by simp, rfl, (if_neg hflag).symm⟩

lemma runq_put_eq (s : Sys T) (td : T) (n : RunqName) {pri : UInt8} (hpri : pri.toNat < RQ_NQS)
    (flags : BitVec 32) :
    ∃ l, l.Perm (td :: queues s (n, ⟨pri.toNat, hpri⟩)) ∧ runq_put s n td pri flags =
      .ok (entered s td { s.thread td with td_rqindex := pri } 0 n ⟨pri.toNat, hpri⟩ l) := by
  refine ⟨if flags &&& SRQ_PREEMPTED ≠ 0 then td :: queues s (n, ⟨pri.toNat, hpri⟩)
    else queues s (n, ⟨pri.toNat, hpri⟩) ++ [td], ?_, ?_⟩
  · split
    · exact List.Perm.refl _
    · exact List.perm_append_singleton _ _
  · unfold runq_put entered
    rw [slot_eq hpri, Sys.addTransferable_zero]
    rfl

lemma toNat_mod_lt (x : ℕ) : (UInt8.ofNat (x % RQ_NQS)).toNat < RQ_NQS := by
  rw [UInt8.toNat_ofNat']
  exact (Nat.mod_le _ _).trans_lt (Nat.mod_lt _ (by decide))

omit [DecidableEq T] in
lemma timeshareSlot_lt (tdq : Tdq T) (pri : UInt8) : (timeshareSlot tdq pri).toNat < RQ_NQS := by
  unfold timeshareSlot
  dsimp only
  split <;> exact toNat_mod_lt _

/-- **An addition**: `td` enters the slot its fields name afterwards, counted as transferable
if it is flagged so. -/
lemma tdq_runq_add_eq (hflag : ¬xferable (s.thread td)) (hidx : s.tdq.tdq_ridx.toNat < RQ_NQS)
    (flags : BitVec 32) :
    ∃ th n i l, tdq_runq_add s td flags =
        .ok (entered s td th (if xferable th then 1 else 0) n i l) ∧
      standsIn th = some (n, i) ∧ l.Perm (td :: queues s (n, i)) := by
  obtain ⟨th, k, hs, hpri, rfl⟩ := countIn_eq hflag
  -- the two linear queues and the timeshare queue take the thread in the same way
  have hput : ∀ (n : RunqName) (pri : UInt8), n ≠ .tdq_lottery → pri.toNat < RQ_NQS →
      ∃ th' n' i l, runq_put ((countIn s td).setThread td { th with ts_runq := some n }) n td pri
          flags = .ok (entered s td th' (if xferable th' then 1 else 0) n' i l) ∧
        standsIn th' = some (n', i) ∧ l.Perm (td :: queues s (n', i)) := by
    intro n pri hn hlt
    obtain ⟨l, hl, hput⟩ := runq_put_eq ((countIn s td).setThread td { th with ts_runq := some n })
      td n hlt flags
    refine ⟨{ th with ts_runq := some n, td_rqindex := pri }, n, ⟨pri.toNat, hlt⟩, l, ?_, ?_, ?_⟩
    · rw [hput, hs]
      simp [entered, xferable]
    · cases n <;> first
        | exact absurd rfl hn
        | simp only [standsIn, slot_eq hlt]; rfl
    · rwa [hs] at hl
  have hth : (countIn s td).thread td = th := by rw [hs]; simp
  have hadd : ∀ n : RunqName, n ≠ .tdq_lottery →
      ∃ th' n' i l, runq_add ((countIn s td).setThread td { th with ts_runq := some n }) n td
          flags = .ok (entered s td th' (if xferable th' then 1 else 0) n' i l) ∧
        standsIn th' = some (n', i) ∧ l.Perm (td :: queues s (n', i)) := by
    intro n hn
    have hlt : (UInt8.ofNat (th.td_priority.toNat / RQ_PPQ)).toNat < RQ_NQS := by
      have hp := th.td_priority.toNat_lt
      rw [UInt8.toNat_ofNat']
      simp only [RQ_PPQ, RQ_NQS]
      omega
    unfold runq_add
    rw [show ((countIn s td).setThread td { th with ts_runq := some n }).thread td =
      { th with ts_runq := some n } from Function.update_self ..]
    dsimp only
    exact hput n _ hn hlt
  have htdq : (countIn s td).tdq.tdq_ridx = s.tdq.tdq_ridx := by rw [hs]; rfl
  unfold tdq_runq_add
  dsimp only
  rw [hth]
  split
  · exact hadd _ (by decide)
  · split
    · split
      · -- the lottery takes the thread at its head, in no slot
        refine ⟨{ th with ts_runq := some .tdq_lottery }, .tdq_lottery, 0,
          td :: queues s (.tdq_lottery, 0), ?_, rfl, List.Perm.refl _⟩
        rw [hs]
        simp [entered, lottery_q_add, queues, xferable]
      · -- a slot of the timeshare queue, or the one that is drained
        refine hput .tdq_timeshare _ (by decide) ?_
        split
        · exact timeshareSlot_lt _ _
        · rw [Sys.tdq_setThread, htdq]
          exact hidx
    · exact hadd _ (by decide)

/-! ### What a removal does -/

/-- A run queue without `td` in the slot, whose bit is cleared with the last thread. -/
def without (rq : Runq T) (i : Fin RQ_NQS) (td : T) : Runq T :=
  let q := (rq.rq_queues i).erase td
  if q = [] then (rq.setQueue i q).runq_clrbit i else rq.setQueue i q

section without

variable {rq : Runq T} {i j : Fin RQ_NQS} {td : T}

lemma without_queues : (without rq i td).rq_queues =
    Function.update rq.rq_queues i ((rq.rq_queues i).erase td) := by
  unfold without
  dsimp only
  split <;> rfl

lemma without_status_of_ne (hj : j ≠ i) : (without rq i td).rq_status j = rq.rq_status j := by
  unfold without
  dsimp only
  split
  · exact Function.update_of_ne hj _ _
  · rfl

lemma without_status_self (hi : rq.rq_status i = true) :
    (without rq i td).rq_status i = true ↔ (rq.rq_queues i).erase td ≠ [] := by
  unfold without
  dsimp only
  split
  next he =>
    simp only [Runq.runq_clrbit, Function.update_self]
    exact iff_of_false Bool.false_ne_true (not_not.mpr he)
  next he => exact iff_of_true hi he

end without

/-- The state in which `td` has left a slot; `r` is the removal index then. -/
def left (s : Sys T) (td : T) (th : Thread) (k : ℤ) (n : RunqName) (i : Fin RQ_NQS) (r : UInt8) :
    Sys T :=
  (((s.setThread td th).addTransferable k).setRunq n (without (s.tdq.tdq_runq n) i td)).setRidx r

lemma countOut_eq (s : Sys T) (td : T) :
    ∃ th, countOut s td =
        (s.setThread td th).addTransferable (if xferable (s.thread td) then -1 else 0) ∧
      xferable th = false ∧ th.ts_runq = (s.thread td).ts_runq ∧
      th.td_rqindex = (s.thread td).td_rqindex := by
  unfold countOut
  split
  next h =>
    refine ⟨{ s.thread td with ts_flags := (s.thread td).ts_flags &&& ~~~TSF_XFERABLE }, ?_, ?_,
      rfl, rfl⟩
    · rw [show xferable (s.thread td) = true from bne_iff_ne.mpr h]
      simp
    · unfold xferable
      rw [xferable_andNot]
      rfl
  next h =>
    have hx : xferable (s.thread td) = false := bne_eq_false_iff_eq.mpr (not_ne_iff.mp h)
    exact ⟨s.thread td, by simp [hx], hx, rfl, rfl⟩

lemma lottery_q_remove_eq (h : td ∈ (s.tdq.tdq_runq n).rq_queues 0) :
    lottery_q_remove s n td = .ok (s.setRunq n (without (s.tdq.tdq_runq n) 0 td)) := by
  unfold lottery_q_remove without
  dsimp only
  rw [TAILQ_REMOVE_eq h, ok_bind]
  rfl

lemma runq_remove_idx_eq (idx : Bool) (hridx : s.tdq.tdq_ridx.toNat < RQ_NQS)
    (hslot : slot (s.thread td).td_rqindex = .ok i) (h : td ∈ (s.tdq.tdq_runq n).rq_queues i) :
    ∃ r : UInt8, r.toNat < RQ_NQS ∧ runq_remove_idx s n td idx =
      .ok ((s.setRunq n (without (s.tdq.tdq_runq n) i td)).setRidx r) := by
  unfold runq_remove_idx without
  dsimp only
  rw [hslot, ok_bind, TAILQ_REMOVE_eq h, ok_bind]
  by_cases hq : ((s.tdq.tdq_runq n).rq_queues i).erase td = []
  · rw [if_pos hq, if_pos hq]
    split
    · exact ⟨_, toNat_mod_lt _, rfl⟩
    · exact ⟨s.tdq.tdq_ridx, hridx, rfl⟩
  · rw [if_neg hq, if_neg hq]
    exact ⟨s.tdq.tdq_ridx, hridx, rfl⟩

lemma standsIn_eq_some {th : Thread} (h : standsIn th = some (n, i)) :
    th.ts_runq = some n ∧ (n = .tdq_lottery → i = 0) ∧
      (n ≠ .tdq_lottery → slot th.td_rqindex = .ok i) := by
  have hslot : ∀ m, (slot th.td_rqindex).toOption.map (m, ·) = some (n, i) →
      m = n ∧ slot th.td_rqindex = .ok i := by
    intro m hm
    cases hs : slot th.td_rqindex with
    | error e => rw [hs] at hm; cases hm
    | ok k => rw [hs] at hm; cases hm; exact ⟨rfl, rfl⟩
  unfold standsIn at h
  rcases hr : th.ts_runq with _ | m
  · rw [hr] at h
    cases h
  · rw [hr] at h
    cases m with
    | tdq_lottery =>
      cases h
      exact ⟨rfl, fun _ => rfl, fun h => absurd rfl h⟩
    | tdq_realtime =>
      obtain ⟨rfl, hs⟩ := hslot _ h
      exact ⟨rfl, (fun h => by cases h), fun _ => hs⟩
    | tdq_timeshare =>
      obtain ⟨rfl, hs⟩ := hslot _ h
      exact ⟨rfl, (fun h => by cases h), fun _ => hs⟩
    | tdq_idle =>
      obtain ⟨rfl, hs⟩ := hslot _ h
      exact ⟨rfl, (fun h => by cases h), fun _ => hs⟩

/-- **A removal**: `td` leaves the slot its fields name and is no longer counted. -/
lemma tdq_runq_rem_eq (hst : standsIn (s.thread td) = some (n, i)) (hmem : td ∈ queues s (n, i))
    (hridx : s.tdq.tdq_ridx.toNat < RQ_NQS) :
    ∃ th r, tdq_runq_rem s td =
        .ok (left s td th (if xferable (s.thread td) then -1 else 0) n i r) ∧
      xferable th = false ∧ r.toNat < RQ_NQS := by
  obtain ⟨hrunq, hlot, hslot⟩ := standsIn_eq_some hst
  obtain ⟨th, hs, hx, hr, hi⟩ := countOut_eq s td
  have hth : (countOut s td).thread td = th := by rw [hs]; simp
  have hqs : (countOut s td).tdq.tdq_runq = s.tdq.tdq_runq := by rw [hs]; rfl
  have hrid : (countOut s td).tdq.tdq_ridx = s.tdq.tdq_ridx := by rw [hs]; rfl
  have hmem' : td ∈ ((countOut s td).tdq.tdq_runq n).rq_queues i := by rwa [hqs]
  have hidx : ∀ idx, n ≠ .tdq_lottery → ∃ th r, runq_remove_idx (countOut s td) n td idx =
        .ok (left s td th (if xferable (s.thread td) then -1 else 0) n i r) ∧
      xferable th = false ∧ r.toNat < RQ_NQS := by
    intro idx hn
    obtain ⟨r, hr64, heq⟩ := runq_remove_idx_eq idx (hrid ▸ hridx)
      (by rw [hth, hi]; exact hslot hn) hmem'
    refine ⟨th, r, ?_, hx, hr64⟩
    rw [heq, hqs, hs]
    rfl
  unfold tdq_runq_rem
  dsimp only
  rw [hth, hr, hrunq]
  cases n with
  | tdq_timeshare => exact hidx _ (by decide)
  | tdq_lottery =>
    obtain rfl := hlot rfl
    refine ⟨th, s.tdq.tdq_ridx, ?_, hx, hridx⟩
    dsimp only
    rw [lottery_q_remove_eq hmem', hqs, hs]
    rfl
  | tdq_realtime => exact hidx false (by decide)
  | tdq_idle => exact hidx false (by decide)

end Messaround.Sched
