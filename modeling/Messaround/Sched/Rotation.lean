import Mathlib.Data.Prod.Lex
import Mathlib.Data.ENat.Basic
import Messaround.Lib.Fair
import Messaround.Sched.Choice
import Messaround.Sched.Placement

/-!
The turning of the timeshare queue: the slot that threads are taken from never passes one that
holds a thread, and a thread that waits is chosen in the end.
-/

namespace Messaround.Sched

variable {T : Type} [DecidableEq T] {s s' : Sys T} {td : T} {n : RunqName} {i : Fin RQ_NQS}
  {queued : Finset T}

/-! ### Where the indices go -/

lemma runq_put_indices {pri : UInt8} {flags : BitVec 32} (h : runq_put s n td pri flags = .ok s') :
    s'.tdq.tdq_idx = s.tdq.tdq_idx ∧ s'.tdq.tdq_ridx = s.tdq.tdq_ridx ∧
      s'.thread td = { s.thread td with td_rqindex := pri } := by
  unfold runq_put at h
  dsimp only at h
  cases hi : slot pri with
  | error e =>
    rw [hi] at h
    cases h
  | ok i =>
    rw [hi, ok_bind] at h
    cases h
    exact ⟨rfl, rfl, Function.update_self ..⟩

lemma countIn_indices (s : Sys T) (td : T) :
    (countIn s td).tdq.tdq_idx = s.tdq.tdq_idx ∧ (countIn s td).tdq.tdq_ridx = s.tdq.tdq_ridx ∧
      ((countIn s td).thread td).td_priority = (s.thread td).td_priority := by
  unfold countIn
  dsimp only
  split <;> simp [Sys.setThread, Sys.addTransferable]

/-- An addition leaves the indices; a thread of the timeshare queue goes to its slot, or to that
of the removal index when it was preempted or borrows a priority. -/
lemma tdq_runq_add_indices {flags : BitVec 32} (h : tdq_runq_add s td flags = .ok s') :
    s'.tdq.tdq_idx = s.tdq.tdq_idx ∧ s'.tdq.tdq_ridx = s.tdq.tdq_ridx ∧
      ((s'.thread td).ts_runq = some .tdq_timeshare →
        flags &&& (SRQ_BORROWING ||| SRQ_PREEMPTED) = 0 →
        (s'.thread td).td_rqindex = timeshareSlot s.tdq (s.thread td).td_priority) := by
  obtain ⟨hidx, hridx, hpri⟩ := countIn_indices s td
  unfold tdq_runq_add at h
  dsimp only at h
  split at h
  · obtain ⟨hi, hr, hth⟩ := runq_put_indices h
    refine ⟨hi.trans hidx, hr.trans hridx, fun hts => ?_⟩
    rw [hth] at hts
    simp at hts
  · split at h
    · split at h
      · cases h
        refine ⟨hidx, hridx, fun hts => ?_⟩
        simp at hts
      · obtain ⟨hi, hr, hth⟩ := runq_put_indices h
        refine ⟨hi.trans hidx, hr.trans hridx, fun _ hflags => ?_⟩
        rw [hth, if_pos hflags]
        simp only [timeshareSlot, Sys.tdq_setThread, hidx, hridx]
    · obtain ⟨hi, hr, hth⟩ := runq_put_indices h
      refine ⟨hi.trans hidx, hr.trans hridx, fun hts => ?_⟩
      rw [hth] at hts
      simp at hts

omit [DecidableEq T] in
/-- While threads are to be taken from the slot of the removal index, no other is put there. -/
lemma timeshareSlot_ne {tdq : Tdq T} (h : tdq.tdq_idx ≠ tdq.tdq_ridx) (pri : UInt8) :
    timeshareSlot tdq pri ≠ tdq.tdq_ridx := by
  unfold timeshareSlot
  dsimp only
  split
  case isFalse hno => exact fun heq => hno ⟨h.symm, heq⟩
  case isTrue hridx =>
    intro heq
    have hlt : tdq.tdq_ridx.toNat < RQ_NQS := hridx.2 ▸ toNat_mod_lt _
    rw [hridx.2, ← UInt8.toNat_inj, UInt8.toNat_ofNat', UInt8.toNat_sub] at heq
    simp only [RQ_NQS, UInt8.toNat_one] at heq hlt
    omega

lemma runq_remove_idx_indices {idx : Bool} (hslot : slot (s.thread td).td_rqindex = .ok i)
    (hmem : td ∈ queues s (n, i)) (h : runq_remove_idx s n td idx = .ok s') :
    s'.tdq.tdq_idx = s.tdq.tdq_idx ∧
      s'.tdq.tdq_ridx = if idx = true ∧ s.tdq.tdq_ridx = (s.thread td).td_rqindex ∧
          (queues s (n, i)).erase td = []
        then .ofNat ((s.tdq.tdq_ridx.toNat + 1) % RQ_NQS) else s.tdq.tdq_ridx := by
  unfold runq_remove_idx at h
  dsimp only at h
  have hmem' : td ∈ (s.tdq.tdq_runq n).rq_queues i := hmem
  rw [hslot, ok_bind, TAILQ_REMOVE_eq hmem', ok_bind] at h
  change (if (queues s (n, i)).erase td = [] then _ else _) = _ at h
  split at h
  case isTrue he =>
    split at h <;> cases h
    case isTrue hridx =>
      rw [if_pos ⟨hridx.1, hridx.2, he⟩, ← hridx.2]
      exact ⟨rfl, rfl⟩
    case isFalse hridx =>
      rw [if_neg fun hall => hridx ⟨hall.1, hall.2.1⟩]
      exact ⟨rfl, rfl⟩
  case isFalse he =>
    cases h
    rw [if_neg fun hall => he hall.2.2]
    exact ⟨rfl, rfl⟩

/-- A removal passes the slot of the removal index when it empties it while threads are to be
taken from it. -/
lemma tdq_runq_rem_indices (hst : standsIn (s.thread td) = some (n, i))
    (hmem : td ∈ queues s (n, i)) (h : tdq_runq_rem s td = .ok s') :
    s'.tdq.tdq_idx = s.tdq.tdq_idx ∧
      s'.tdq.tdq_ridx = if n = .tdq_timeshare ∧ s.tdq.tdq_idx ≠ s.tdq.tdq_ridx ∧
          i.val = s.tdq.tdq_ridx.toNat ∧ (queues s (n, i)).erase td = []
        then .ofNat ((s.tdq.tdq_ridx.toNat + 1) % RQ_NQS) else s.tdq.tdq_ridx := by
  obtain ⟨hrunq, hlot, hslot⟩ := standsIn_eq_some hst
  obtain ⟨th, hs, -, hr, hi⟩ := countOut_eq s td
  have hth : (countOut s td).thread td = th := by rw [hs]; simp
  have hqs : queues (countOut s td) = queues s := by rw [hs]; rfl
  have hidx : (countOut s td).tdq.tdq_idx = s.tdq.tdq_idx ∧
      (countOut s td).tdq.tdq_ridx = s.tdq.tdq_ridx := by rw [hs]; exact ⟨rfl, rfl⟩
  have hmem' : td ∈ queues (countOut s td) (n, i) := by rwa [hqs]
  have hslot' : n ≠ .tdq_lottery → slot ((countOut s td).thread td).td_rqindex = .ok i :=
    fun hn => by rw [hth, hi]; exact hslot hn
  unfold tdq_runq_rem at h
  dsimp only at h
  rw [hth, hr, hrunq] at h
  cases n with
  | tdq_lottery =>
    obtain rfl := hlot rfl
    rw [if_neg (by simp)]
    rw [lottery_q_remove_eq hmem'] at h
    cases h
    exact hidx
  | tdq_realtime =>
    obtain ⟨h1, h2⟩ := runq_remove_idx_indices (hslot' (by decide)) hmem' h
    rw [if_neg (by simp)] at h2 ⊢
    exact ⟨h1.trans hidx.1, h2.trans hidx.2⟩
  | tdq_idle =>
    obtain ⟨h1, h2⟩ := runq_remove_idx_indices (hslot' (by decide)) hmem' h
    rw [if_neg (by simp)] at h2 ⊢
    exact ⟨h1.trans hidx.1, h2.trans hidx.2⟩
  | tdq_timeshare =>
    -- only here does the source pass the removal index on
    obtain ⟨h1, h2⟩ := runq_remove_idx_indices (hslot' (by decide)) hmem' h
    have hval : (s.tdq.tdq_ridx = (s.thread td).td_rqindex) ↔ i.val = s.tdq.tdq_ridx.toNat := by
      have hs := hslot (by decide)
      unfold slot at hs
      split at hs
      · cases hs
        rw [← UInt8.toNat_inj]
        exact eq_comm
      · cases hs
    refine ⟨h1.trans hidx.1, ?_⟩
    rw [h2, hqs, hth, hi, hidx.1, hidx.2]
    simp only [hval, decide_eq_true_eq, true_and]

/-! ### The head of the queue -/

/-- The slot of the removal index. -/
def ridxSlot (s : Sys T) : Fin RQ_NQS := Fin.ofNat RQ_NQS s.tdq.tdq_ridx.toNat

omit [DecidableEq T] in
lemma ridxSlot_val (h : s.tdq.tdq_ridx.toNat < RQ_NQS) : (ridxSlot s).val = s.tdq.tdq_ridx.toNat :=
  Nat.mod_eq_of_lt h

def waiting (s : Sys T) (i : Fin RQ_NQS) : List T := queues s (.tdq_timeshare, i)

/-- The removal index is that of insertions, or the one before it while its slot is drained. -/
structure Rotating (s : Sys T) : Prop where
  next : s.tdq.tdq_idx ≠ s.tdq.tdq_ridx →
    s.tdq.tdq_idx.toNat = (s.tdq.tdq_ridx.toNat + 1) % RQ_NQS
  busy : s.tdq.tdq_idx ≠ s.tdq.tdq_ridx → waiting s (ridxSlot s) ≠ []

/-- What a step does to the head of the queue. -/
inductive Turn (s s' : Sys T) : Prop
  /-- No thread comes to a slot that is drained. -/
  | stays (hidx : s'.tdq.tdq_idx = s.tdq.tdq_idx) (hridx : s'.tdq.tdq_ridx = s.tdq.tdq_ridx)
    (hlen : s.tdq.tdq_idx ≠ s.tdq.tdq_ridx → waiting s' (ridxSlot s) ≠ [] ∧
      (waiting s' (ridxSlot s)).length ≤ (waiting s (ridxSlot s)).length)
  /-- The slot is to be drained. -/
  | drains (heq : s.tdq.tdq_idx = s.tdq.tdq_ridx) (hridx : s'.tdq.tdq_ridx = s.tdq.tdq_ridx)
    (hidx : s'.tdq.tdq_idx.toNat = (s.tdq.tdq_ridx.toNat + 1) % RQ_NQS)
    (hbusy : waiting s' (ridxSlot s) ≠ [])
  /-- It is empty, and passed. -/
  | passes (hidx : s'.tdq.tdq_idx = s'.tdq.tdq_ridx)
    (hridx : s'.tdq.tdq_ridx.toNat = (s.tdq.tdq_ridx.toNat + 1) % RQ_NQS)
    (hempty : waiting s' (ridxSlot s) = [])

omit [DecidableEq T] in
lemma Turn.rotating (h : Turn s s') (hr : Rotating s) : Rotating s' := by
  cases h with
  | stays hidx hridx hlen =>
    refine ⟨fun hne => ?_, fun hne => ?_⟩ <;> rw [hidx, hridx] at hne
    · rw [hidx, hridx]
      exact hr.next hne
    · rw [ridxSlot, hridx]
      exact (hlen hne).1
  | drains heq hridx hidx hbusy =>
    refine ⟨fun _ => ?_, fun _ => ?_⟩
    · rw [hidx, hridx]
    · rw [ridxSlot, hridx]
      exact hbusy
  | passes hidx hridx hempty => exact ⟨fun hne => absurd hidx hne, fun hne => absurd hidx hne⟩

/-- How many slots are to be passed before slot `i`, and how many threads are to be drained first. -/
def rank (s : Sys T) (i : Fin RQ_NQS) : ℕ ×ₗ ℕ∞ :=
  toLex ((i - ridxSlot s).val,
    if s.tdq.tdq_idx = s.tdq.tdq_ridx then ⊤ else ((waiting s (ridxSlot s)).length : ℕ∞))

omit [DecidableEq T] in
lemma rank_le_of_stays (hidx : s'.tdq.tdq_idx = s.tdq.tdq_idx)
    (hridx : s'.tdq.tdq_ridx = s.tdq.tdq_ridx) (hlen : s.tdq.tdq_idx ≠ s.tdq.tdq_ridx →
      (waiting s' (ridxSlot s)).length ≤ (waiting s (ridxSlot s)).length) :
    rank s' i ≤ rank s i := by
  have hslot : ridxSlot s' = ridxSlot s := by rw [ridxSlot, hridx]; rfl
  rw [rank, rank, Prod.Lex.toLex_le_toLex, hslot, hidx, hridx]
  refine .inr ⟨rfl, ?_⟩
  split
  · exact le_rfl
  · exact Nat.cast_le.mpr (hlen ‹_›)

omit [DecidableEq T] in
lemma rank_lt_of_shorter (hidx : s'.tdq.tdq_idx = s.tdq.tdq_idx)
    (hridx : s'.tdq.tdq_ridx = s.tdq.tdq_ridx) (hne : s.tdq.tdq_idx ≠ s.tdq.tdq_ridx)
    (hlen : (waiting s' (ridxSlot s)).length < (waiting s (ridxSlot s)).length) :
    rank s' i < rank s i := by
  have hslot : ridxSlot s' = ridxSlot s := by rw [ridxSlot, hridx]; rfl
  rw [rank, rank, Prod.Lex.toLex_lt_toLex, hslot, hidx, hridx, if_neg hne, if_neg hne]
  exact .inr ⟨rfl, Nat.cast_lt.mpr hlen⟩

omit [DecidableEq T] in
lemma rank_lt_of_drains (heq : s.tdq.tdq_idx = s.tdq.tdq_ridx)
    (hridx : s'.tdq.tdq_ridx = s.tdq.tdq_ridx)
    (hidx : s'.tdq.tdq_idx.toNat = (s.tdq.tdq_ridx.toNat + 1) % RQ_NQS) :
    rank s' i < rank s i := by
  have hslot : ridxSlot s' = ridxSlot s := by rw [ridxSlot, hridx]; rfl
  have hne : s'.tdq.tdq_idx ≠ s'.tdq.tdq_ridx := fun h => by
    rw [h, hridx, RQ_NQS] at hidx
    omega
  rw [rank, rank, Prod.Lex.toLex_lt_toLex, hslot, if_pos heq, if_neg hne]
  exact .inr ⟨rfl, ENat.natCast_lt_top _⟩

omit [DecidableEq T] in
lemma rank_lt_of_passes (hridx : s'.tdq.tdq_ridx.toNat = (s.tdq.tdq_ridx.toNat + 1) % RQ_NQS)
    (hi : i ≠ ridxSlot s) : rank s' i < rank s i := by
  rw [rank, rank, Prod.Lex.toLex_lt_toLex]
  refine .inl ?_
  have hne : i.val ≠ s.tdq.tdq_ridx.toNat % RQ_NQS := fun h => hi (Fin.ext h)
  have hlt := i.isLt
  simp only [ridxSlot, Fin.sub_def, Fin.ofNat, hridx, RQ_NQS] at hne hlt ⊢
  omega

omit [DecidableEq T] in
lemma Turn.rank_le (h : Turn s s') (hi : waiting s' i ≠ []) :
    rank s' i ≤ rank s i := by
  cases h with
  | stays hidx hridx hlen => exact rank_le_of_stays hidx hridx fun hne => (hlen hne).2
  | drains heq hridx hidx hbusy => exact (rank_lt_of_drains heq hridx hidx).le
  | passes hidx hridx hempty =>
    refine (rank_lt_of_passes hridx fun he => hi ?_).le
    rwa [he]

/-! ### What each step does to it -/

lemma entered_waiting {th : Thread} {k : ℤ} {l : List T} {j : Fin RQ_NQS} :
    waiting (entered s td th k n i l) j =
      if (.tdq_timeshare, j) = (n, i) then l else waiting s j := by
  have hq : queues (entered s td th k n i l) = Function.update (queues s) (n, i) l :=
    queues_setRunq rfl
  rw [waiting, hq, Function.update_apply]
  rfl

lemma Kept.add_turn {flags : BitVec 32} (hk : Kept s queued) (hr : Rotating s)
    (htd : td ∉ queued) (hflags : flags &&& (SRQ_BORROWING ||| SRQ_PREEMPTED) = 0)
    (h : tdq_runq_add s td flags = .ok s') : Turn s s' := by
  obtain ⟨hidx, hridx, hslot⟩ := tdq_runq_add_indices h
  have hflag : ¬xferable (s.thread td) := by simp [hk.clear td htd]
  obtain ⟨th, n, i, l, heq, hst, hl⟩ := tdq_runq_add_eq hflag hk.ridx flags
  obtain rfl := Except.ok.inj (heq.symm.trans h)
  have hth : (entered s td th (if xferable th then 1 else 0) n i l).thread td = th :=
    Function.update_self ..
  rw [hth] at hslot
  refine .stays hidx hridx fun hne => ?_
  have hother : (RunqName.tdq_timeshare, ridxSlot s) ≠ (n, i) := fun hsame => by
    obtain ⟨rfl, rfl⟩ := Prod.mk.inj hsame
    obtain ⟨hrunq, -, hindex⟩ := standsIn_eq_some hst
    have hpri := hslot hrunq hflags
    have hat := hindex (by decide)
    unfold slot at hat
    split at hat
    case isFalse => cases hat
    case isTrue hlt =>
      have hval := congrArg Fin.val (Except.ok.inj hat)
      rw [ridxSlot_val hk.ridx] at hval
      exact timeshareSlot_ne hne _ (hpri ▸ UInt8.toNat_inj.mp hval)
  rw [entered_waiting, if_neg hother]
  exact ⟨hr.busy hne, le_rfl⟩

lemma left_waiting {th : Thread} {k : ℤ} {r : UInt8} {j : Fin RQ_NQS} :
    waiting (left s td th k n i r) j =
      if (.tdq_timeshare, j) = (n, i) then (queues s (n, i)).erase td else waiting s j := by
  have hq : queues (left s td th k n i r) =
      Function.update (queues s) (n, i) ((queues s (n, i)).erase td) :=
    queues_setRunq without_queues
  rw [waiting, hq, Function.update_apply]
  rfl

/-- What the removal of a queued thread does, and that it helps where the thread stands in the
slot that is drained. -/
lemma Kept.rem_turn (hk : Kept s queued) (hr : Rotating s) (htd : td ∈ queued)
    (h : tdq_runq_rem s td = .ok s') : Turn s s' ∧
      (∀ j, waiting s' j = if standsIn (s.thread td) = some (.tdq_timeshare, j) then
        (waiting s j).erase td else waiting s j) ∧
      (s.tdq.tdq_idx ≠ s.tdq.tdq_ridx → td ∈ waiting s (ridxSlot s) → waiting s' i ≠ [] →
        rank s' i < rank s i) := by
  obtain ⟨⟨n, j⟩, hst⟩ := hk.stands td htd
  have hmem : td ∈ queues s (n, j) := hk.placed.mem_iff.mpr (by rw [placeOf, if_pos htd, hst])
  obtain ⟨hidx, hridx⟩ := tdq_runq_rem_indices hst hmem h
  obtain ⟨th, r, heq, -, -⟩ := tdq_runq_rem_eq hst hmem hk.ridx
  obtain rfl := Except.ok.inj (heq.symm.trans h)
  have hwait : ∀ k, waiting (left s td th (if xferable (s.thread td) then -1 else 0) n j r) k =
      if standsIn (s.thread td) = some (.tdq_timeshare, k) then (waiting s k).erase td
      else waiting s k := fun k => by
    rw [left_waiting, hst]
    by_cases hk : (RunqName.tdq_timeshare, k) = (n, j)
    · rw [if_pos hk, if_pos (congrArg some hk.symm), ← hk]
      rfl
    · rw [if_neg hk, if_neg fun h => hk (Option.some.inj h).symm]
  by_cases hhead : standsIn (s.thread td) = some (.tdq_timeshare, ridxSlot s) ∧
      s.tdq.tdq_idx ≠ s.tdq.tdq_ridx
  · obtain ⟨hstand, hne⟩ := hhead
    obtain ⟨rfl, rfl⟩ := Prod.mk.inj (Option.some.inj (hst.symm.trans hstand))
    have hgone := hwait (ridxSlot s)
    rw [if_pos hstand] at hgone
    by_cases hempty : (waiting s (ridxSlot s)).erase td = []
    · -- `td` was the last thread of the slot, and the index moves on
      have hpass := hridx.trans (if_pos ⟨rfl, hne, ridxSlot_val hk.ridx, hempty⟩)
      have hridx' := congrArg UInt8.toNat hpass
      rw [UInt8.toNat_ofNat', Nat.mod_eq_of_lt (by simp only [RQ_NQS]; omega)] at hridx'
      have hlast := hgone.trans hempty
      refine ⟨.passes ?_ hridx' hlast, hwait, fun _ _ hi => rank_lt_of_passes hridx' fun he => hi ?_⟩
      · rw [← UInt8.toNat_inj, hidx, hridx', hr.next hne]
      · rwa [he]
    · -- the slot has one thread less
      have hmem' : td ∈ waiting s (ridxSlot s) := hmem
      have hlen := List.length_erase_of_mem hmem'
      have hpos := List.length_pos_of_mem hmem'
      have hkeep := hridx.trans (if_neg fun hall => hempty hall.2.2.2)
      have hshort : (waiting (left s td th (if xferable (s.thread td) then -1 else 0)
          .tdq_timeshare (ridxSlot s) r) (ridxSlot s)).length <
          (waiting s (ridxSlot s)).length := by
        rw [hgone, hlen]
        omega
      exact ⟨.stays hidx hkeep fun _ => ⟨hgone ▸ hempty, hshort.le⟩, hwait,
        fun _ _ _ => rank_lt_of_shorter hidx hkeep hne hshort⟩
  · -- `td` stood elsewhere, or the slot is not drained
    have hnot : ¬(n = .tdq_timeshare ∧ s.tdq.tdq_idx ≠ s.tdq.tdq_ridx ∧
        j.val = s.tdq.tdq_ridx.toNat ∧ (queues s (n, j)).erase td = []) := by
      rintro ⟨rfl, hne, hval, -⟩
      have hj : j = ridxSlot s := Fin.ext (hval.trans (ridxSlot_val hk.ridx).symm)
      exact hhead ⟨hj ▸ hst, hne⟩
    refine ⟨.stays hidx (hridx.trans (if_neg hnot)) fun hne => ?_, hwait, fun hne hin _ => ?_⟩
    · rw [hwait, if_neg fun hstand => hhead ⟨hstand, hne⟩]
      exact ⟨hr.busy hne, le_rfl⟩
    · exact absurd ⟨(hk.mem_queued hin).2, hne⟩ hhead

/-- A tick moves the index of insertions on, and that of removals with it from an empty slot. -/
lemma Kept.clock_turn {tdq : Tdq T} (hk : Kept s queued) (hr : Rotating s)
    (h : clockAdvance s.tdq = .ok tdq) :
    Turn s { s with tdq := tdq } ∧ waiting { s with tdq := tdq } = waiting s ∧
      (s.tdq.tdq_idx = s.tdq.tdq_ridx → waiting s i ≠ [] →
        rank { s with tdq := tdq } i < rank s i) := by
  have hval : ∀ x : ℕ, (UInt8.ofNat (x % RQ_NQS)).toNat = x % RQ_NQS := fun x => by
    rw [UInt8.toNat_ofNat']
    exact Nat.mod_eq_of_lt (by simp only [RQ_NQS]; omega)
  unfold clockAdvance at h
  split at h
  case isTrue heq =>
    dsimp only at h
    rw [slot_eq hk.ridx, ok_bind] at h
    have hslot : (⟨s.tdq.tdq_ridx.toNat, hk.ridx⟩ : Fin RQ_NQS) = ridxSlot s :=
      Fin.ext (ridxSlot_val hk.ridx).symm
    rw [hslot] at h
    split at h <;> cases h
    case isTrue hempty =>
      have hridx := (hval (s.tdq.tdq_idx.toNat + 1)).trans (by rw [heq])
      refine ⟨.passes rfl hridx hempty, rfl, fun _ hi => rank_lt_of_passes hridx fun he => hi ?_⟩
      rw [he]
      exact hempty
    case isFalse hbusy =>
      have hidx := (hval (s.tdq.tdq_idx.toNat + 1)).trans (by rw [heq])
      exact ⟨.drains heq rfl hidx hbusy, rfl, fun _ _ => rank_lt_of_drains heq rfl hidx⟩
  case isFalse hne =>
    cases h
    exact ⟨.stays rfl rfl fun hne => ⟨hr.busy hne, le_rfl⟩, rfl, fun heq => absurd heq hne⟩

omit [DecidableEq T] in
lemma Rotating.same_turn (hr : Rotating s) (hidx : s'.tdq.tdq_idx = s.tdq.tdq_idx)
    (hridx : s'.tdq.tdq_ridx = s.tdq.tdq_ridx) (hq : waiting s' = waiting s) : Turn s s' :=
  .stays hidx hridx fun hne => by
    rw [hq]
    exact ⟨hr.busy hne, le_rfl⟩

omit [DecidableEq T] in
lemma Turn.setLowpri {pri : UInt8} (h : Turn s s') : Turn s (setLowpri s' pri) := by
  cases h with
  | stays hidx hridx hlen => exact .stays hidx hridx hlen
  | drains heq hridx hidx hbusy => exact .drains heq hridx hidx hbusy
  | passes hidx hridx hempty => exact .passes hidx hridx hempty

/-- With no real-time thread waiting, the choice is made from the slot that is drained. -/
lemma Kept.choose_head {rnd : ℕ} {r : Option T} (hk : Kept s queued) (hr : Rotating s)
    (hne : s.tdq.tdq_idx ≠ s.tdq.tdq_ridx) (hrt : (s.tdq.tdq_runq .tdq_realtime).Empty)
    (h : tdq_choose s rnd = .ok r) : ∃ td ∈ waiting s (ridxSlot s), r = some td := by
  have hmarked : ∀ n, (s.tdq.tdq_runq n).Marked := fun n i => hk.bits (n, i)
  obtain ⟨hts, hts'⟩ := runq_choose_from_finds (hmarked .tdq_timeshare) hk.ridx
  have hbusy := hr.busy hne
  unfold tdq_choose at h
  rw [(runq_choose_finds (hmarked .tdq_realtime)).1.mpr hrt] at h
  dsimp only at h
  cases hc : runq_choose_from (s.tdq.tdq_runq .tdq_timeshare) s.tdq.tdq_ridx with
  | none => exact absurd (hts.mp hc (ridxSlot s)) hbusy
  | some td =>
    rw [hc] at h
    cases h
    obtain ⟨j, hj, hfirst⟩ := hts' td hc
    have hslot : (⟨s.tdq.tdq_ridx.toNat, hk.ridx⟩ : Fin RQ_NQS) = ridxSlot s :=
      Fin.ext (ridxSlot_val hk.ridx).symm
    rw [hslot] at hfirst
    have hhead : j = ridxSlot s := by
      by_contra hne'
      refine hbusy (hfirst (ridxSlot s) ?_)
      rw [sub_self]
      exact Fin.pos_iff_ne_zero.mpr (sub_ne_zero.mpr hne')
    exact ⟨td, hhead ▸ List.mem_of_mem_head? hj, rfl⟩

lemma Kept.choose_turn {rnd : ℕ} {r : Option T} (hk : Kept s queued) (hr : Rotating s)
    (h : sched_choose s rnd = .ok (r, s')) : Turn s s' ∧
      (∀ j, ∀ t ∈ waiting s j, r ≠ some t → t ∈ waiting s' j) ∧
      (s.tdq.tdq_idx ≠ s.tdq.tdq_ridx → (s.tdq.tdq_runq .tdq_realtime).Empty →
        waiting s' i ≠ [] → rank s' i < rank s i) := by
  unfold sched_choose at h
  cases hc : tdq_choose s rnd with
  | error e =>
    rw [hc] at h
    cases h
  | ok c =>
    have hhead : s.tdq.tdq_idx ≠ s.tdq.tdq_ridx → (s.tdq.tdq_runq .tdq_realtime).Empty →
        ∃ td ∈ waiting s (ridxSlot s), c = some td := fun hne hrt => hk.choose_head hr hne hrt hc
    rw [hc, ok_bind] at h
    cases c with
    | none =>
      -- the idle thread
      cases h
      refine ⟨hr.same_turn rfl rfl rfl, fun j t ht _ => ht, fun hne hrt => ?_⟩
      obtain ⟨td, -, htd⟩ := hhead hne hrt
      cases htd
    | some td =>
      obtain ⟨p, hp⟩ := mem_of_tdq_choose hc
      dsimp only at h
      cases hrem : tdq_runq_rem s td with
      | error e =>
        rw [hrem] at h
        cases h
      | ok s₁ =>
        rw [hrem, ok_bind] at h
        cases h
        obtain ⟨hturn, hwait, hlt⟩ := hk.rem_turn (i := i) hr (hk.mem_queued hp).1 hrem
        refine ⟨hturn.setLowpri, fun j t ht hne => ?_, fun hne hrt => ?_⟩
        · change t ∈ waiting s₁ j
          rw [hwait]
          split
          · exact (List.mem_erase_of_ne fun he : t = td => hne (congrArg some he.symm)).mpr ht
          · exact ht
        · -- the thread chosen stood in the slot that is drained
          obtain ⟨td', hmem, he⟩ := hhead hne hrt
          obtain rfl := Option.some.inj he
          exact hlt hne hmem

/-! ### Infinite runs -/

/-- What happens to the queue of a processor. -/
inductive SchedEvent (T : Type)
  | add (td : T) (flags : BitVec 32)
  | rem (td : T)
  | choose (r : Option T)
  | clock
  /-- Priorities, credentials and nice values change. -/
  | change

/-- The step of an event; the threads queued go along with the state. -/
inductive SchedStep : SchedEvent T → Sys T × Finset T → Sys T × Finset T → Prop
  | add {s s' : Sys T} {queued : Finset T} {td : T} {flags : BitVec 32} (htd : td ∉ queued)
    (hs : tdq_runq_add s td flags = .ok s') :
    SchedStep (.add td flags) (s, queued) (s', insert td queued)
  | rem {s s' : Sys T} {queued : Finset T} {td : T} (htd : td ∈ queued)
    (hs : tdq_runq_rem s td = .ok s') : SchedStep (.rem td) (s, queued) (s', queued.erase td)
  | choose {s s' : Sys T} {queued : Finset T} {rnd : ℕ} {r : Option T}
    (hs : sched_choose s rnd = .ok (r, s')) :
    SchedStep (.choose r) (s, queued) (s', r.elim queued queued.erase)
  | clock {s : Sys T} {queued : Finset T} {tdq : Tdq T} (hs : clockAdvance s.tdq = .ok tdq) :
    SchedStep .clock (s, queued) ({ s with tdq := tdq }, queued)
  | change {s : Sys T} {queued : Finset T} {thread : T → Thread}
    (hth : ∀ td, (thread td).ts_runq = (s.thread td).ts_runq ∧
      (thread td).td_rqindex = (s.thread td).td_rqindex ∧
      (thread td).ts_flags = (s.thread td).ts_flags) :
    SchedStep .change (s, queued) ({ s with thread := thread }, queued)

variable {x y : Sys T × Finset T} {ev : SchedEvent T}

lemma SchedStep.reached (h : SchedStep ev x y) (hx : Reached x.1 x.2) : Reached y.1 y.2 := by
  cases h with
  | add htd hs => exact hx.add htd hs
  | rem htd hs => exact hx.rem htd hs
  | choose hs => exact hx.choose hs
  | clock hs => exact hx.clock hs
  | change hth => exact hx.change hth

/-- No thread is added that was preempted or borrows a priority. -/
def SchedEvent.Plain : SchedEvent T → Prop
  | add _ flags => flags &&& (SRQ_BORROWING ||| SRQ_PREEMPTED) = 0
  | _ => True

/-- The steps that bring a waiting thread nearer: a tick, or a choice with no real-time thread
waiting. -/
def Helps (ev : SchedEvent T) (s : Sys T) : Bool → Prop
  | true => ev = .clock
  | false => (∃ r, ev = .choose r) ∧ (s.tdq.tdq_runq .tdq_realtime).Empty

omit [DecidableEq T] in
lemma not_helps {b : Bool} (hclock : ev ≠ .clock) (hchoose : ∀ r, ev ≠ .choose r) :
    ¬Helps ev s b := by
  cases b with
  | true => exact hclock
  | false => exact fun ⟨⟨r, hr⟩, _⟩ => hchoose r hr

omit [DecidableEq T] in
lemma waiting_ne {j : Fin RQ_NQS} (h : td ∈ waiting s j) : waiting s j ≠ [] :=
  List.ne_nil_of_mem h

/-- **A step**: the queue turns on, a thread that waits and is neither removed nor chosen stays
where it is and comes no later, and comes sooner by a step that helps. -/
lemma SchedStep.turn (h : SchedStep ev x y) (hx : Reached x.1 x.2) (hr : Rotating x.1)
    (hplain : ev.Plain) (hrem : ev ≠ .rem td) (htd : td ∈ waiting x.1 i) :
    Turn x.1 y.1 ∧ (ev ≠ .choose (some td) → td ∈ waiting y.1 i ∧
      rank y.1 i ≤ rank x.1 i ∧ (Helps ev x.1 (x.1.tdq.tdq_idx = x.1.tdq.tdq_ridx) →
        rank y.1 i < rank x.1 i)) := by
  have hk := hx.kept
  cases h with
  | @add s s' queued u flags hu hs =>
    have hturn := hk.add_turn hr hu hplain hs
    -- the slot of `td` may have got one more thread
    have hstay : td ∈ waiting s' i := by
      have hflag : ¬xferable (s.thread u) := by simp [hk.clear u hu]
      obtain ⟨th, n, j, l, heq, -, hl⟩ := tdq_runq_add_eq hflag hk.ridx flags
      obtain rfl := Except.ok.inj (heq.symm.trans hs)
      rw [entered_waiting]
      split
      case isTrue he =>
        rw [← he] at hl
        exact hl.mem_iff.mpr (List.mem_cons_of_mem _ htd)
      case isFalse => exact htd
    exact ⟨hturn, fun _ => ⟨hstay, hturn.rank_le (waiting_ne hstay),
      fun hhelp => absurd hhelp (not_helps nofun nofun)⟩⟩
  | @rem s s' queued u hu hs =>
    obtain ⟨hturn, hwait, -⟩ := hk.rem_turn (i := i) hr hu hs
    have hstay : td ∈ waiting s' i := by
      rw [hwait]
      split
      · exact (List.mem_erase_of_ne fun he : td = u => hrem (congrArg _ he.symm)).mpr htd
      · exact htd
    exact ⟨hturn, fun _ => ⟨hstay, hturn.rank_le (waiting_ne hstay),
      fun hhelp => absurd hhelp (not_helps nofun nofun)⟩⟩
  | @choose s s' queued rnd r hs =>
    obtain ⟨hturn, hstay, hlt⟩ := hk.choose_turn (i := i) hr hs
    -- a choice helps while the slots are drained
    refine ⟨hturn, fun hne => ?_⟩
    have hin := hstay i td htd fun he => hne (congrArg _ he)
    refine ⟨hin, hturn.rank_le (waiting_ne hin), fun hhelp => ?_⟩
    by_cases hphase : s.tdq.tdq_idx = s.tdq.tdq_ridx
    · rw [decide_eq_true hphase] at hhelp
      cases hhelp
    · rw [decide_eq_false hphase] at hhelp
      exact hlt hphase hhelp.2 (waiting_ne hin)
  | @clock s queued tdq hs =>
    obtain ⟨hturn, hwait, hlt⟩ := hk.clock_turn (i := i) hr hs
    have hin : td ∈ waiting { s with tdq := tdq } i := by rwa [hwait]
    -- a tick helps where the two indices have met
    refine ⟨hturn, fun _ => ⟨hin, hturn.rank_le (waiting_ne hin), fun hhelp => ?_⟩⟩
    by_cases hphase : s.tdq.tdq_idx = s.tdq.tdq_ridx
    · exact hlt hphase (waiting_ne htd)
    · rw [decide_eq_false hphase] at hhelp
      obtain ⟨⟨r, hr'⟩, -⟩ := hhelp
      cases hr'
  | @change s queued thread hth =>
    have hturn : Turn s { s with thread := thread } := hr.same_turn rfl rfl rfl
    exact ⟨hturn, fun _ => ⟨htd, hturn.rank_le (waiting_ne htd),
      fun hhelp => absurd hhelp (not_helps nofun nofun)⟩⟩

lemma Reached.rotating (h : Reached s queued) : Rotating s := by
  induction h with
  | setup => exact ⟨fun hne => absurd rfl hne, fun hne => absurd rfl hne⟩
  | @add s s' queued u flags h hu hs ih =>
    -- the slot may grow here, but it is not emptied
    obtain ⟨hidx, hridx, -⟩ := tdq_runq_add_indices hs
    have hflag : ¬xferable (s.thread u) := by simp [h.kept.clear u hu]
    obtain ⟨th, n, j, l, heq, -, hl⟩ := tdq_runq_add_eq hflag h.kept.ridx flags
    obtain rfl := Except.ok.inj (heq.symm.trans hs)
    refine ⟨fun hne => ?_, fun hne => ?_⟩ <;> rw [hidx, hridx] at hne
    · rw [hidx, hridx]
      exact ih.next hne
    · rw [ridxSlot, hridx, entered_waiting]
      split
      · exact fun he => by simpa [he] using hl.length_eq
      · exact ih.busy hne
  | rem h hu hs ih => exact (h.kept.rem_turn (i := 0) ih hu hs).1.rotating ih
  | choose h hs ih => exact (h.kept.choose_turn (i := 0) ih hs).1.rotating ih
  | clock h hs ih => exact (h.kept.clock_turn (i := 0) ih hs).1.rotating ih
  | @change s queued thread h hth ih =>
    have hturn : Turn s { s with thread := thread } := ih.same_turn rfl rfl rfl
    exact hturn.rotating ih

section

variable {σ : ℕ → Sys T × Finset T} {e : ℕ → SchedEvent T}

lemma reached_run (h : Reached (σ 0).1 (σ 0).2)
    (hstep : ∀ n, SchedStep (e n) (σ n) (σ (n + 1))) (n : ℕ) : Reached (σ n).1 (σ n).2 := by
  induction n with
  | zero => exact h
  | succ n ih => exact (hstep n).reached ih

/-- **No starvation**: a thread of the timeshare queue is chosen in the end, whatever else is
added, removed and chosen, when the clock goes on ticking, choices go on being made with no
real-time thread waiting, and no thread is added ahead of its turn. -/
theorem timeshare_chosen (h : Reached (σ 0).1 (σ 0).2)
    (hstep : ∀ n, SchedStep (e n) (σ n) (σ (n + 1))) (htd : td ∈ (σ 0).2)
    (hts : ((σ 0).1.thread td).ts_runq = some .tdq_timeshare) (hplain : ∀ n, (e n).Plain)
    (hrem : ∀ n, e n ≠ .rem td) (hclock : Fair.Often fun n => e n = .clock)
    (hchoose : Fair.Often fun n => (∃ r, e n = .choose r) ∧
      ((σ n).1.tdq.tdq_runq .tdq_realtime).Empty) :
    ∃ n, e n = .choose (some td) := by
  by_contra hnever
  have hnot : ∀ n, e n ≠ .choose (some td) := fun n hn => hnever ⟨n, hn⟩
  have hreached := reached_run h hstep
  obtain ⟨i, hi⟩ : ∃ i, td ∈ waiting (σ 0).1 i := by
    obtain ⟨⟨n, i⟩, hst⟩ := h.kept.stands td htd
    obtain rfl : n = .tdq_timeshare :=
      Option.some.inj ((standsIn_eq_some hst).1.symm.trans hts)
    exact ⟨i, h.kept.placed.mem_iff.mpr (by rw [placeOf, if_pos htd, hst])⟩
  have hturn := fun n (hin : td ∈ waiting (σ n).1 i) =>
    ((hstep n).turn (hreached n) (hreached n).rotating (hplain n) (hrem n) hin).2 (hnot n)
  have hwait : ∀ n, td ∈ waiting (σ n).1 i := fun n => by
    induction n with
    | zero => exact hi
    | succ n ih => exact (hturn n ih).1
  have hkind : ∀ n, decide ((ofLex (rank (σ n).1 i)).2 = ⊤) =
      decide ((σ n).1.tdq.tdq_idx = (σ n).1.tdq.tdq_ridx) := fun n => by
    unfold rank
    split <;> simp_all
  obtain ⟨n, hn⟩ := Fair.eventually (fun _ => False) (fun n => rank (σ n).1 i)
    (fun w => decide ((ofLex w).2 = ⊤)) (fun b n => Helps (e n) (σ n).1 b)
    (fun n _ => (hturn n (hwait n)).2.1)
    (fun n _ hhelp => (hturn n (hwait n)).2.2 (hkind n ▸ hhelp))
    (fun b => by
      cases b with
      | true => exact hclock
      | false => exact hchoose)
  exact hn

/-- A processor with one thread of root, which is not queued. -/
def rootSys : Sys Unit := ⟨tdq_setup zeroTdq, fun _ => ⟨200, 0, 0, .TDS_CAN_RUN, 0, 0, none, 0⟩⟩

/-- With no thread queued, a choice answers with the idle thread and the clock ticks on. -/
lemma resting_step (s : {s : Sys Unit // Reached s ∅}) (b : Bool) :
    (s.val.tdq.tdq_runq .tdq_realtime).Empty ∧ ∃ s' : {s : Sys Unit // Reached s ∅},
      SchedStep (if b then .clock else .choose none) (s.val, ∅) (s'.val, ∅) := by
  obtain ⟨s, hs⟩ := s
  have hempty : ∀ n, (s.tdq.tdq_runq n).Empty := fun n i =>
    List.eq_nil_iff_forall_not_mem.mpr fun td htd =>
      Finset.notMem_empty _ (hs.kept.mem_queued (p := (n, i)) htd).1
  refine ⟨hempty _, ?_⟩
  cases b with
  | true =>
    obtain ⟨tdq, htdq, -⟩ := hs.kept.clock
    exact ⟨⟨_, hs.clock htdq⟩, .clock htdq⟩
  | false =>
    have hlot : lotteryQueue s .tdq_lottery = [] := hempty .tdq_lottery 0
    obtain ⟨r, hr, hord⟩ := exists_chosenInOrder (fun n i => hs.kept.bits (n, i))
      (fun i _ => hempty .tdq_lottery i) (by simp [hlot]) hs.kept.ridx (Nat.zero_le _)
      fun _ _ h => absurd hlot h
    obtain rfl : r = none := hord.none_iff.mpr hempty
    have hchoose : sched_choose s 0 = .ok (none, setLowpri s (.ofNat PRI_MAX_IDLE)) := by
      rw [sched_choose, hr]
      rfl
    exact ⟨⟨_, hs.choose hchoose⟩, .choose hchoose⟩

lemma rootSys_chosen : ∃ s₁ s₂, tdq_runq_add rootSys () 0 = .ok s₁ ∧
    sched_choose s₁ 0 = .ok (some (), s₂) ∧
    (s₁.thread ()).ts_runq = some .tdq_timeshare := ⟨_, _, rfl, rfl, rfl⟩

/-- The thread of root is chosen first; from then on the processor rests. -/
theorem timeshare_chosen_rootThread : ∃ (σ : ℕ → Sys Unit × Finset Unit) (e : ℕ → SchedEvent Unit),
    (∀ n, SchedStep (e n) (σ n) (σ (n + 1))) ∧ () ∈ (σ 0).2 ∧ ∃ n, e n = .choose (some ()) := by
  obtain ⟨s₁, s₂, hadd, hchoose, hts⟩ := rootSys_chosen
  have h0 : Reached rootSys ∅ := .setup fun _ => rfl
  have h1 := h0.add (Finset.notMem_empty ()) hadd
  choose hempty next hnext using resting_step
  let rest : ℕ → {s : Sys Unit // Reached s ∅} := fun n =>
    n.rec ⟨s₂, h1.choose hchoose⟩ fun n s => next s (decide (n % 2 = 0))
  let σ : ℕ → Sys Unit × Finset Unit := fun n => n.casesOn (s₁, {()}) fun n => ((rest n).val, ∅)
  let e : ℕ → SchedEvent Unit := fun n =>
    n.casesOn (.choose (some ())) fun n => if n % 2 = 0 then .clock else .choose none
  have hstep : ∀ n, SchedStep (e n) (σ n) (σ (n + 1)) := fun n => by
    cases n with
    | zero => exact SchedStep.choose hchoose
    | succ n => simpa [e, σ, rest] using hnext (rest n) (decide (n % 2 = 0))
  have hclock : ∀ n, e (2 * n + 1) = .clock := fun n => by simp [e]
  have hnone : ∀ n, e (2 * n + 2) = .choose none := fun n => by
    have hodd : (2 * n + 1) % 2 = 1 := by omega
    simp [e, hodd]
  refine ⟨σ, e, hstep, Finset.mem_singleton_self (), timeshare_chosen h1 hstep
    (Finset.mem_singleton_self ()) hts (fun n => ?_) (fun n => ?_)
    (fun n => ⟨2 * n + 1, by omega, hclock n⟩)
    fun n => ⟨2 * n + 2, by omega, ⟨none, hnone n⟩, hempty (rest (2 * n + 1)) true⟩⟩
  all_goals cases n with
    | zero => simp [e, SchedEvent.Plain]
    | succ n =>
      rcases Nat.mod_two_eq_zero_or_one n with hn | hn <;> simp [e, hn, SchedEvent.Plain]

end

end Messaround.Sched
