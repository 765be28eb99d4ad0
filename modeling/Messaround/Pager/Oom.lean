import Mathlib.Data.Fintype.Card
import Mathlib.Data.Int.Basic
import Messaround.Lib.Threads

/-!
The vote of the domains of memory on killing a process, `vm_pageout_mightbe_oom`.

Every domain has a thread that calls the function after each of its passes over the queues. The
fields of a domain are its thread's own; the threads share the number of votes, and a step is one
access to it.
-/

namespace Messaround.Pager

open Messaround.Threads

variable {D : Type}

/-- What the threads share. `voters` and `failed` are no memory of the kernel: the domains whose
votes have been counted and not taken back, and how many of the last passes of each domain, of
those whose calls are over, have freed nothing. -/
structure OomVotes (D : Type) where
  vm_pageout_oom_vote : ℤ
  voters : Finset D
  failed : D → ℕ

/-- Where the thread of a domain stands; the argument becomes the domain's count of failed
passes with the end of the call. -/
inductive OomPc
  | idle
  /-- Before the `atomic_fetchadd_int`. -/
  | fetchadd (failed : ℕ)
  | vm_pageout_oom
  /-- Before the `atomic_subtract_int`. -/
  | subtract (failed : ℕ)
  deriving DecidableEq

structure OomDomain where
  vmd_oom : Bool
  vmd_oom_seq : ℤ
  pc : OomPc

/-- The thread goes on, or makes a call after a pass. -/
inductive OomMove
  | run
  | vm_pageout_mightbe_oom (page_shortage starting_page_shortage : ℤ)

variable [DecidableEq D]

namespace OomVotes

variable (s : OomVotes D) (d : D)

def setFailed (n : ℕ) : OomVotes D := { s with failed := Function.update s.failed d n }

def add : OomVotes D :=
  { s with vm_pageout_oom_vote := s.vm_pageout_oom_vote + 1, voters := insert d s.voters }

def subtract : OomVotes D :=
  { s with vm_pageout_oom_vote := s.vm_pageout_oom_vote - 1, voters := s.voters.erase d }

end OomVotes

section

variable (vm_pageout_oom_seq vm_ndomains : ℤ)

/-- The call up to its first access to the votes. -/
def vm_pageout_mightbe_oom (page_shortage starting_page_shortage : ℤ) (d : D) (s : OomVotes D)
    (vmd : OomDomain) : OomVotes D × OomDomain :=
  let all := starting_page_shortage ≤ 0 ∨ starting_page_shortage ≠ page_shortage
  let seq := if all then 0 else vmd.vmd_oom_seq + 1
  let failed := if all then 0 else s.failed d + 1
  if seq < vm_pageout_oom_seq then
    if vmd.vmd_oom then (s, ⟨false, seq, .subtract failed⟩)
    else (s.setFailed d failed, ⟨false, seq, .idle⟩)
  else if vmd.vmd_oom then (s.setFailed d failed, ⟨true, 0, .idle⟩)
  else (s, ⟨true, 0, .fetchadd failed⟩)

/-- The rest of the call. -/
def OomDomain.run (d : D) (s : OomVotes D) (vmd : OomDomain) : Option (OomVotes D × OomDomain) :=
  match vmd.pc with
  | .idle => none
  | .fetchadd failed =>
    let old_vote := s.vm_pageout_oom_vote
    let s := (s.add d).setFailed d failed
    if old_vote ≠ vm_ndomains - 1 then some (s, { vmd with pc := .idle })
    else some (s, { vmd with pc := .vm_pageout_oom })
  | .vm_pageout_oom => some (s, ⟨false, vmd.vmd_oom_seq, .subtract (s.failed d)⟩)
  | .subtract failed => some ((s.subtract d).setFailed d failed, { vmd with pc := .idle })

def oomExec : OomMove → D → OomVotes D → OomDomain → Option (OomVotes D × OomDomain)
  | .run, d, s, vmd => vmd.run vm_ndomains d s
  | .vm_pageout_mightbe_oom page_shortage starting_page_shortage, d, s, vmd =>
    if vmd.pc = .idle then
      some (Pager.vm_pageout_mightbe_oom vm_pageout_oom_seq page_shortage starting_page_shortage
        d s vmd)
    else none

end

def oomInit : Conf D (OomVotes D) OomDomain :=
  ⟨⟨0, ∅, fun _ => 0⟩, fun _ => ⟨false, 0, .idle⟩⟩

/-! ### What every run keeps -/

/-- Whether the vote of a domain counts. -/
def OomDomain.votes (vmd : OomDomain) : Bool :=
  match vmd.pc with
  | .idle => vmd.vmd_oom
  | .fetchadd _ => false
  | .vm_pageout_oom | .subtract _ => true

/-- The failed passes of a domain, with the one whose call is under way. -/
def OomDomain.passes (n : ℕ) (vmd : OomDomain) : ℕ :=
  match vmd.pc with
  | .idle | .vm_pageout_oom => n
  | .fetchadd failed | .subtract failed => failed

/-- What `vmd_oom` is within a call. -/
def OomDomain.flagged (vmd : OomDomain) : OomPc → Prop
  | .idle => True
  | .fetchadd _ | .vm_pageout_oom => vmd.vmd_oom = true
  | .subtract _ => vmd.vmd_oom = false

structure OomDomain.Fits (K : ℤ) (d : D) (s : OomVotes D) (vmd : OomDomain) : Prop where
  voter : d ∈ s.voters ↔ vmd.votes = true
  flag : vmd.flagged vmd.pc
  fresh : vmd.vmd_oom = true → vmd.vmd_oom_seq = 0
  nonneg : 0 ≤ vmd.vmd_oom_seq
  bound : vmd.vmd_oom_seq = 0 ∨ vmd.vmd_oom_seq < K
  seq_le : vmd.vmd_oom_seq ≤ vmd.passes (s.failed d)
  quorum : d ∈ s.voters → K ≤ s.failed d
  pending : ∀ n, vmd.pc = .fetchadd n → K ≤ n

/-- What a step of the domain may do to the others. -/
structure OomStep (d : D) (s s' : OomVotes D) : Prop where
  voters : ∀ e ≠ d, e ∈ s'.voters ↔ e ∈ s.voters
  failed : ∀ e ≠ d, s'.failed e = s.failed e

variable {K n : ℤ} {d e : D} {s s' : OomVotes D} {vmd vmd' : OomDomain}

omit [DecidableEq D] in
lemma OomDomain.Fits.other (he : e ≠ d) (h : OomStep d s s') (hf : vmd.Fits K e s) :
    vmd.Fits K e s' where
  voter := by rw [h.voters e he]; exact hf.voter
  flag := hf.flag
  fresh := hf.fresh
  nonneg := hf.nonneg
  bound := hf.bound
  seq_le := by rw [h.failed e he]; exact hf.seq_le
  quorum := by rw [h.voters e he, h.failed e he]; exact hf.quorum
  pending := hf.pending

lemma setFailed_step (s : OomVotes D) (d : D) (n : ℕ) : OomStep d s (s.setFailed d n) :=
  ⟨fun _ _ => .rfl, fun _ he => Function.update_of_ne he _ _⟩

lemma add_step (s : OomVotes D) (d : D) (n : ℕ) : OomStep d s ((s.add d).setFailed d n) :=
  ⟨fun e he => by simp [OomVotes.add, OomVotes.setFailed, he],
    fun _ he => Function.update_of_ne he _ _⟩

lemma subtract_step (s : OomVotes D) (d : D) (n : ℕ) :
    OomStep d s ((s.subtract d).setFailed d n) :=
  ⟨fun e he => by simp [OomVotes.subtract, OomVotes.setFailed, he],
    fun _ he => Function.update_of_ne he _ _⟩

@[simp] lemma failed_setFailed (s : OomVotes D) (d : D) (n : ℕ) :
    (s.setFailed d n).failed d = n := Function.update_self ..

@[simp] lemma voters_setFailed (s : OomVotes D) (d : D) (n : ℕ) :
    (s.setFailed d n).voters = s.voters := rfl

lemma mightbe_oom_ok {page_shortage starting_page_shortage : ℤ} (hf : vmd.Fits K d s)
    (hpc : vmd.pc = .idle)
    (h : vm_pageout_mightbe_oom K page_shortage starting_page_shortage d s vmd = (s', vmd')) :
    s'.vm_pageout_oom_vote = s.vm_pageout_oom_vote ∧ s'.voters = s.voters ∧
      vmd'.Fits K d s' ∧ OomStep d s s' := by
  have hvoter : d ∈ s.voters ↔ vmd.vmd_oom = true := by simpa [OomDomain.votes, hpc] using hf.voter
  have hseq := hf.seq_le
  simp only [OomDomain.passes, hpc] at hseq
  have hnonneg := hf.nonneg
  simp only [vm_pageout_mightbe_oom] at h
  generalize hseq' : (if starting_page_shortage ≤ 0 ∨ starting_page_shortage ≠ page_shortage
    then 0 else vmd.vmd_oom_seq + 1) = seq at h
  generalize hfailed' : (if starting_page_shortage ≤ 0 ∨ starting_page_shortage ≠ page_shortage
    then 0 else s.failed d + 1) = failed at h
  have hle : 0 ≤ seq ∧ seq ≤ failed := by
    subst hseq' hfailed'
    split_ifs
    · exact ⟨le_rfl, le_rfl⟩
    · push_cast
      omega
  split_ifs at h with hlt hoom hoom <;> cases h
  · -- the vote is taken back
    exact ⟨rfl, rfl, ⟨by simpa [OomDomain.votes, hvoter] using hoom, rfl, nofun, hle.1,
      .inr hlt, hle.2, hf.quorum, nofun⟩, ⟨fun _ _ => .rfl, fun _ _ => rfl⟩⟩
  · refine ⟨rfl, rfl, ⟨?_, trivial, nofun, hle.1, .inr hlt, ?_, fun hd => ?_, nofun⟩,
      setFailed_step s d failed⟩
    · simpa [OomDomain.votes, hvoter] using hoom
    · simpa [OomDomain.passes] using hle.2
    · exact absurd (hvoter.mp hd) hoom
  · refine ⟨rfl, rfl, ⟨?_, trivial, fun _ => rfl, le_rfl, .inl rfl, ?_, fun _ => ?_, nofun⟩,
      setFailed_step s d failed⟩
    · simpa [OomDomain.votes, hvoter] using hoom
    · simp [OomDomain.passes]
    · rw [failed_setFailed]
      omega
  · refine ⟨rfl, rfl, ⟨?_, rfl, fun _ => rfl, le_rfl, .inl rfl, ?_, fun hd => ?_, fun n hn => ?_⟩,
      ⟨fun _ _ => .rfl, fun _ _ => rfl⟩⟩
    · simpa [OomDomain.votes, hvoter] using hoom
    · simp [OomDomain.passes]
    · exact absurd (hvoter.mp hd) hoom
    · cases hn
      omega

lemma oomRun_ok (hv : s.vm_pageout_oom_vote = s.voters.card) (hf : vmd.Fits K d s)
    (h : vmd.run n d s = some (s', vmd')) :
    s'.vm_pageout_oom_vote = s'.voters.card ∧ vmd'.Fits K d s' ∧ OomStep d s s' := by
  have hvoter := hf.voter
  have hflag := hf.flag
  unfold OomDomain.run at h
  split at h
  · cases h
  · rename_i failed hpc
    have hout : d ∉ s.voters := by simp [hvoter, OomDomain.votes, hpc]
    have hcard : ((s.add d).setFailed d failed).vm_pageout_oom_vote =
        ((s.add d).setFailed d failed).voters.card := by
      simp [OomVotes.add, OomVotes.setFailed, Finset.card_insert_of_notMem hout, hv]
    have hin : d ∈ (s.add d).voters := Finset.mem_insert_self ..
    have hle := hf.seq_le
    have hK := hf.pending failed hpc
    simp only [hpc, OomDomain.flagged, OomDomain.passes] at hflag hle
    dsimp only at h
    split_ifs at h <;> cases h <;> refine ⟨hcard, ⟨?_, ?_, hf.fresh, hf.nonneg, hf.bound, ?_, ?_,
      nofun⟩, add_step s d failed⟩ <;> simp [OomDomain.votes, OomDomain.flagged,
      OomDomain.passes, *]
  · rename_i hpc
    cases h
    have hin : d ∈ s.voters := by simp [hvoter, OomDomain.votes, hpc]
    have hle := hf.seq_le
    simp only [hpc, OomDomain.passes] at hle
    exact ⟨hv, ⟨by simp [OomDomain.votes, hin], rfl, nofun, hf.nonneg, hf.bound, hle, hf.quorum,
      nofun⟩, ⟨fun _ _ => .rfl, fun _ _ => rfl⟩⟩
  · rename_i failed hpc
    cases h
    have hin : d ∈ s.voters := by simp [hvoter, OomDomain.votes, hpc]
    have hle := hf.seq_le
    simp only [hpc, OomDomain.flagged, OomDomain.passes] at hflag hle
    have hpos : 1 ≤ s.voters.card := Finset.card_pos.mpr ⟨d, hin⟩
    refine ⟨?_, ⟨?_, trivial, hf.fresh, hf.nonneg, hf.bound, ?_, ?_, nofun⟩,
      subtract_step s d failed⟩
    · simp only [OomVotes.subtract, OomVotes.setFailed, Finset.card_erase_of_mem hin, hv]
      omega
    · simp [OomDomain.votes, OomVotes.subtract, hflag]
    · simpa [OomDomain.passes] using hle
    · simp [OomVotes.subtract]

lemma oomExec_ok {m : OomMove} (hv : s.vm_pageout_oom_vote = s.voters.card)
    (hf : vmd.Fits K d s) (h : oomExec K n m d s vmd = some (s', vmd')) :
    s'.vm_pageout_oom_vote = s'.voters.card ∧ vmd'.Fits K d s' ∧ OomStep d s s' := by
  cases m with
  | run => exact oomRun_ok hv hf h
  | vm_pageout_mightbe_oom page_shortage starting_page_shortage =>
    simp only [oomExec] at h
    split_ifs at h with hpc
    obtain ⟨hvote, hvoters, hfits, hstep⟩ := mightbe_oom_ok hf hpc (Option.some.inj h)
    exact ⟨by rw [hvote, hvoters, hv], hfits, hstep⟩

variable {c c' : Conf D (OomVotes D) OomDomain}

lemma oomReached_ok (h : Threads.Reached (oomExec K n) (fun _ => True) oomInit c) :
    c.shared.vm_pageout_oom_vote = c.shared.voters.card ∧
      ∀ d, (c.loc d).Fits K d c.shared := by
  refine h.invariant (I := fun s => s.vm_pageout_oom_vote = s.voters.card)
    (J := fun d s vmd => vmd.Fits K d s) rfl (fun d => ?_)
    (fun m d s l s' l' hI hJ he _ => oomExec_ok hI hJ he) fun d e s s' l he hE hJ => hJ.other he hE
  exact ⟨by simp [oomInit, OomDomain.votes], trivial, nofun, le_rfl, .inl rfl, le_rfl,
    fun h => absurd h (Finset.notMem_empty d), nofun⟩

/-- The last vote of the quorum. -/
lemma enters_iff {m : OomMove} (h : oomExec K n m d s vmd = some (s', vmd'))
    (hpc : vmd.pc ≠ .vm_pageout_oom) : vmd'.pc = .vm_pageout_oom ↔
      m = .run ∧ (∃ f, vmd.pc = .fetchadd f) ∧ s.vm_pageout_oom_vote = n - 1 := by
  cases m with
  | run =>
    simp only [oomExec, OomDomain.run] at h
    split at h
    · cases h
    · rename_i f hf
      split_ifs at h with hlast <;> cases h
      · simp [hf, hlast]
      · simpa [hf] using hlast
    · contradiction
    · rename_i hf
      cases h
      simp [hf]
  | vm_pageout_mightbe_oom page_shortage starting_page_shortage =>
    simp only [oomExec, vm_pageout_mightbe_oom] at h
    split_ifs at h <;> cases h <;> simp

lemma voters_run {f : ℕ} (h : oomExec K n .run d s vmd = some (s', vmd'))
    (hpc : vmd.pc = .fetchadd f) : s'.voters = insert d s.voters := by
  simp only [oomExec, OomDomain.run, hpc] at h
  split_ifs at h <;> cases h <;> rfl

lemma card_others [Fintype D] {t : Finset D} (hd : d ∉ t) :
    (t.card : ℤ) = Fintype.card D - 1 ↔ ∀ e ≠ d, e ∈ t := by
  have hcard := Finset.card_insert_of_notMem hd
  have huniv : t.card + 1 = Fintype.card D ↔ insert d t = Finset.univ := by
    rw [← hcard, Finset.card_eq_iff_eq_univ]
  calc (t.card : ℤ) = Fintype.card D - 1 ↔ t.card + 1 = Fintype.card D := by omega
    _ ↔ insert d t = Finset.univ := huniv
    _ ↔ ∀ e ≠ d, e ∈ t := by
      rw [Finset.eq_univ_iff_forall]
      exact forall_congr' fun e => by rw [Finset.mem_insert, or_iff_not_imp_left]

/-- Both of two domains fail twice, and the second is about to vote. -/
def oomMoves : List (Fin 2 × OomMove) :=
  [(0, .vm_pageout_mightbe_oom 5 5), (1, .vm_pageout_mightbe_oom 7 7),
    (0, .vm_pageout_mightbe_oom 5 5), (0, .run), (1, .vm_pageout_mightbe_oom 3 3)]

def oomConf : Option (Conf (Fin 2) (OomVotes (Fin 2)) OomDomain) :=
  runMoves (oomExec 2 (Fintype.card (Fin 2))) (fun _ => True) oomMoves oomInit

lemma oomConf_isSome : oomConf.isSome := by decide

def oomLast : Option (Conf (Fin 2) (OomVotes (Fin 2)) OomDomain) :=
  (oomConf.get oomConf_isSome).move (oomExec 2 (Fintype.card (Fin 2))) 1 .run

lemma oomLast_isSome : oomLast.isSome := by decide

lemma oomConf_reached :
    Threads.Reached (oomExec 2 (Fintype.card (Fin 2))) (fun _ => True) oomInit
      (oomConf.get oomConf_isSome) :=
  Threads.Reached.init.runMoves (Option.some_get _).symm

/-- **The votes**: their number is that of the domains whose votes count, each domain that is not
in a call votes as its `vmd_oom` says, and its count of passes stays below the bound. -/
theorem oom_votes_exact [Fintype D] (h : Threads.Reached (oomExec K n) (fun _ => True) oomInit c) :
    c.shared.vm_pageout_oom_vote = c.shared.voters.card ∧
    0 ≤ c.shared.vm_pageout_oom_vote ∧ c.shared.vm_pageout_oom_vote ≤ Fintype.card D ∧
    ∀ d, ((c.loc d).pc = .idle → (d ∈ c.shared.voters ↔ (c.loc d).vmd_oom = true)) ∧
      0 ≤ (c.loc d).vmd_oom_seq ∧ ((c.loc d).vmd_oom_seq = 0 ∨ (c.loc d).vmd_oom_seq < K) := by
  obtain ⟨hvote, hfits⟩ := oomReached_ok h
  have hcard := c.shared.voters.card_le_univ
  refine ⟨hvote, by omega, by omega, fun d => ⟨fun hpc => ?_, (hfits d).nonneg, (hfits d).bound⟩⟩
  rw [(hfits d).voter, OomDomain.votes, hpc]

theorem oom_votes_exact_two :
    (oomConf.get oomConf_isSome).shared.vm_pageout_oom_vote = 1 ∧
    ((oomConf.get oomConf_isSome).shared.voters.card : ℤ) = 1 := by
  have hone : (oomConf.get oomConf_isSome).shared.vm_pageout_oom_vote = 1 := by decide
  exact ⟨hone, (oom_votes_exact oomConf_reached).1.symm.trans hone⟩

/-- **A process is killed by quorum**: a domain begins to kill exactly when it votes while all
the others' votes count, and then the last `K` passes of every domain have freed nothing. -/
theorem oom_quorum [Fintype D] {m : OomMove}
    (h : Threads.Reached (oomExec K (Fintype.card D)) (fun _ => True) oomInit c)
    (hm : c.move (oomExec K (Fintype.card D)) d m = some c')
    (hpc : (c.loc d).pc ≠ .vm_pageout_oom) :
    ((c'.loc d).pc = .vm_pageout_oom ↔
      m = .run ∧ (∃ f, (c.loc d).pc = .fetchadd f) ∧ ∀ e ≠ d, e ∈ c.shared.voters) ∧
    ((c'.loc d).pc = .vm_pageout_oom → ∀ e, K ≤ c'.shared.failed e) := by
  obtain ⟨hvote, hfits⟩ := oomReached_ok h
  obtain ⟨-, hfits'⟩ := oomReached_ok (h.move d m hm trivial)
  obtain ⟨s, vmd, hexec, rfl⟩ := move_eq_some.mp hm
  have hall : ∀ f, (c.loc d).pc = .fetchadd f → (c.shared.vm_pageout_oom_vote =
      (Fintype.card D : ℤ) - 1 ↔ ∀ e ≠ d, e ∈ c.shared.voters) := fun f hf => by
    have hout : d ∉ c.shared.voters := by simp [(hfits d).voter, OomDomain.votes, hf]
    rw [hvote, card_others hout]
  have hiff := enters_iff hexec hpc
  dsimp only at hfits' ⊢
  rw [Function.update_self]
  refine ⟨hiff.trans (and_congr_right fun _ => and_congr_right fun ⟨f, hf⟩ => hall f hf),
    fun hoom e => (hfits' e).quorum ?_⟩
  obtain ⟨rfl, ⟨f, hf⟩, hlast⟩ := hiff.mp hoom
  have hothers := (hall f hf).mp hlast
  rw [voters_run hexec hf]
  rcases eq_or_ne e d with rfl | he
  · exact Finset.mem_insert_self ..
  · exact Finset.mem_insert_of_mem (hothers e he)

theorem oom_quorum_two : (oomConf.get oomConf_isSome).move (oomExec 2 (Fintype.card (Fin 2))) 1
    .run = some (oomLast.get oomLast_isSome) ∧
    ∀ e, 2 ≤ (oomLast.get oomLast_isSome).shared.failed e := by
  have hm := (Option.some_get oomLast_isSome).symm
  have hpc : ((oomConf.get oomConf_isSome).loc 1).pc ≠ .vm_pageout_oom := by decide
  have hoom : ((oomLast.get oomLast_isSome).loc 1).pc = .vm_pageout_oom := by decide
  refine ⟨hm, fun e => ?_⟩
  have := (oom_quorum oomConf_reached hm hpc).2 hoom e
  omega

/-- **A vote does not outlast the next pass**: when more than one failed pass is asked for, the
call after the next pass takes the vote back, whatever that pass has freed. -/
theorem oom_vote_withdrawn {page_shortage starting_page_shortage : ℤ} (hK : 2 ≤ K)
    (h : Threads.Reached (oomExec K n) (fun _ => True) oomInit c) (hd : d ∈ c.shared.voters)
    (hm : c.move (oomExec K n) d (.vm_pageout_mightbe_oom page_shortage starting_page_shortage) =
      some c') :
    ∃ f, (c'.loc d).pc = .subtract f ∧ (c'.loc d).vmd_oom = false := by
  obtain ⟨-, hfits⟩ := oomReached_ok h
  obtain ⟨s, vmd, hexec, rfl⟩ := move_eq_some.mp hm
  simp only [oomExec] at hexec
  split_ifs at hexec with hpc
  have hoom : (c.loc d).vmd_oom = true := by
    have := (hfits d).voter.mp hd
    rwa [OomDomain.votes, hpc] at this
  have hseq := (hfits d).fresh hoom
  simp only [vm_pageout_mightbe_oom, hoom, hseq, if_true] at hexec
  rw [if_pos (by split_ifs <;> omega)] at hexec
  cases hexec
  simp

theorem oom_vote_withdrawn_two : ∃ c' f, (oomConf.get oomConf_isSome).move
    (oomExec 2 (Fintype.card (Fin 2))) 0 (.vm_pageout_mightbe_oom 4 4) = some c' ∧
    (c'.loc 0).pc = .subtract f := by
  have hsome : ((oomConf.get oomConf_isSome).move (oomExec 2 (Fintype.card (Fin 2))) 0
      (.vm_pageout_mightbe_oom 4 4)).isSome := by decide
  have hm := (Option.some_get hsome).symm
  have hd : (0 : Fin 2) ∈ (oomConf.get oomConf_isSome).shared.voters := by decide
  obtain ⟨f, hf, -⟩ := oom_vote_withdrawn (by decide) oomConf_reached hd hm
  exact ⟨_, f, hm, hf⟩

end Messaround.Pager
