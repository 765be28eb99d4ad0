import Mathlib.Algebra.Order.BigOperators.Group.Finset
import Messaround.Pager.Busy

/-!
The busy lock in any interleaving: who has busied a page, what its word says, and who wakes the
threads that sleep on it.
-/

namespace Messaround.Pager

open Messaround.Threads
open Function (update)

variable {T : Type}

namespace BusyPage

def waiting (s : BusyPage T) : Prop := s.busy_lock &&& VPB_BIT_WAITERS ≠ 0

instance (s : BusyPage T) : Decidable s.waiting := inferInstanceAs (Decidable (_ ≠ _))

lemma waiting_iff (s : BusyPage T) : s.waiting ↔ s.busy_lock.toNat / 4 % 2 = 1 := by
  rw [waiting, ne_eq, waiters_bit]
  omega

section

variable [Fintype T]

/-- The number of shares held. -/
def total (s : BusyPage T) : ℕ := ∑ t, s.sharers t

/-- The word counts the sharers or tells that there is an owner, and the threads that wait do so
for one of them. -/
def Exact (s : BusyPage T) : Prop :=
  (s.owners = ∅ ∧ (s.busy_lock.toNat = 8 * s.total + 1 ∨
    0 < s.total ∧ s.busy_lock.toNat = 8 * s.total + 5)) ∨
  (s.total = 0 ∧ (∃ t, s.owners = {t}) ∧ (s.busy_lock.toNat = 2 ∨ s.busy_lock.toNat = 6))

structure Sound (s : BusyPage T) : Prop where
  exact : s.Exact
  kept : s.sleepq ≠ ∅ → ¬s.waiting → s.page_lock ≠ none

variable {s : BusyPage T} {t u : T}

lemma sharers_le_total (s : BusyPage T) (t : T) : s.sharers t ≤ s.total :=
  Finset.single_le_sum (fun _ _ => Nat.zero_le _) (Finset.mem_univ t)

lemma exact_setWord {x : UInt32} : (s.setWord x).Exact ↔
    (s.owners = ∅ ∧ (x.toNat = 8 * s.total + 1 ∨ 0 < s.total ∧ x.toNat = 8 * s.total + 5)) ∨
    (s.total = 0 ∧ (∃ t, s.owners = {t}) ∧ (x.toNat = 2 ∨ x.toNat = 6)) := Iff.rfl

lemma Exact.owner (h : s.Exact) (ht : t ∈ s.owners) :
    s.total = 0 ∧ s.owners = {t} ∧ (s.busy_lock.toNat = 2 ∨ s.busy_lock.toNat = 6) := by
  rcases h with ⟨h, -⟩ | ⟨h, ⟨u, hu⟩, hw⟩
  · simp [h] at ht
  · obtain rfl : t = u := by simpa [hu] using ht
    exact ⟨h, hu, hw⟩

lemma Exact.sharer (h : s.Exact) (ht : 0 < s.total) : s.owners = ∅ ∧
    (s.busy_lock.toNat = 8 * s.total + 1 ∨ s.busy_lock.toNat = 8 * s.total + 5) := by
  rcases h with ⟨h, hw⟩ | ⟨h, -⟩
  · exact ⟨h, hw.imp_right And.right⟩
  · omega

variable [DecidableEq T]

lemma total_update (s : BusyPage T) (t : T) (n : ℕ) :
    ∑ u, update s.sharers t n u + s.sharers t = s.total + n := by
  have hsum := Finset.sum_update_of_mem (Finset.mem_univ t) s.sharers n
  have hrest := Finset.add_sum_erase Finset.univ s.sharers (Finset.mem_univ t)
  rw [Finset.sdiff_singleton_eq_erase] at hsum
  simp only [total]
  omega

lemma total_share : (s.share t).total = s.total + 1 := by
  have := total_update s t (s.sharers t + 1)
  simp only [total, share] at *
  omega

lemma total_unshare (h : 0 < s.sharers t) : (s.unshare t).total + 1 = s.total := by
  have := total_update s t (s.sharers t - 1)
  simp only [total, unshare] at *
  omega

end

end BusyPage

/-! ### What a thread knows -/

/-- Whether a thread there holds the lock of the page, where that is certain. -/
def BusyPc.locked : BusyPc → Option Bool
  | sunbusyWaiters _ | sunbusyAgain | xunbusyLocked _ | downgradeAgain | busySleep _
  | busySleepCas _ | msleep | flash | flashCas _ | wakeup _ | unlock => some true
  | sunbusy | sunbusyLoop | sunbusyDrop _ | sunbusyLast | sunbusyLock _ | xunbusy | xunbusyHard
  | xunbusyLock | downgradeLock _ | lock | asleep => some false
  | downgradeLoop locked => some locked
  | downgradeCas x locked => some (locked || x ≠ 0)
  | idle | tryxbusy | trysbusy | trysbusyCas _ | xunbusyMaybelocked | xunbusyMaybelockedCas
  | downgrade | panic => none

/-- The thread is about to release a share. -/
def BusyPc.shares : BusyPc → Bool
  | sunbusy | sunbusyLoop | sunbusyDrop _ | sunbusyLast | sunbusyLock _ | sunbusyWaiters _
  | sunbusyAgain => true
  | _ => false

/-- The thread is about to release the page. -/
def BusyPc.owns : BusyPc → Bool
  | xunbusy | xunbusyHard | xunbusyMaybelocked | xunbusyMaybelockedCas | xunbusyLock
  | xunbusyLocked _ | downgrade | downgradeLoop _ | downgradeLock _ | downgradeCas _ _
  | downgradeAgain => true
  | _ => false

/-- The thread is about to keep the page as a share. -/
def BusyPc.downgrades : BusyPc → Bool
  | downgrade | downgradeLoop _ | downgradeLock _ | downgradeCas _ _ | downgradeAgain => true
  | _ => false

def BusyPc.sleeps : BusyPc → Bool
  | busySleep _ | busySleepCas _ | msleep | asleep => true
  | _ => false

def BusyPc.flashes : BusyPc → Bool
  | flash | flashCas _ | wakeup _ => true
  | _ => false

def BusyPc.tries : BusyPc → Bool
  | tryxbusy | trysbusy | trysbusyCas _ => true
  | _ => false

/-- What the thread has read of the word. -/
def BusyPc.knows (s : BusyPage T) : BusyPc → Prop
  | trysbusyCas x => x &&& VPB_BIT_SHARED ≠ 0
  | sunbusyDrop x => 16 ≤ x.toNat
  | sunbusyLock x | sunbusyWaiters x => x.toNat = 13
  | downgradeLock x => x = VPB_BIT_WAITERS
  | downgradeCas x _ => x = 0 ∨ x = VPB_BIT_WAITERS
  | busySleepCas x => x &&& VPB_BIT_WAITERS = 0 ∧ x ≠ VPB_UNBUSIED
  | flashCas x => x &&& VPB_BIT_WAITERS ≠ 0
  | msleep => s.waiting
  | panic => False
  | _ => True

structure BusyPc.At (t : T) (s : BusyPage T) (pc : BusyPc) : Prop where
  lock : ∀ b ∈ pc.locked, (s.page_lock = some t ↔ b = true)
  share : pc.shares = true → 0 < s.sharers t
  own : pc.owns = true → t ∈ s.owners
  knows : pc.knows s

/-- A thread sleeps in `msleep` only, and one that has cleared the flag of the waiters does not
let go of the page before they are awake. -/
structure BusyPc.Fits (t : T) (s : BusyPage T) (pc : BusyPc) : Prop extends pc.At t s where
  asleep : t ∈ s.sleepq → pc = .asleep
  wakes : s.page_lock = some t → s.sleepq ≠ ∅ → ¬s.waiting → ∃ b, pc = .wakeup b

/-- What a step of the thread may do to the others. -/
structure BusyStep (t : T) (s s' : BusyPage T) : Prop where
  lock : ∀ u ≠ t, s'.page_lock = some u ↔ s.page_lock = some u
  sharers : ∀ u ≠ t, s.sharers u ≤ s'.sharers u
  owners : ∀ u ≠ t, u ∈ s.owners → u ∈ s'.owners
  waiting : s.waiting → ¬s'.waiting → s.page_lock = some t
  sleepq : ∀ u ∈ s'.sleepq, u ∈ s.sleepq ∨ u = t ∧ s.page_lock = some t

lemma BusyPc.At.idle {t : T} {s : BusyPage T} : BusyPc.idle.At t s :=
  ⟨nofun, nofun, nofun, trivial⟩

lemma BusyPc.Fits.other {t u : T} {s s' : BusyPage T} {pc : BusyPc} (hu : u ≠ t)
    (h : BusyStep t s s') (hf : pc.Fits u s) : pc.Fits u s' where
  lock b hb := by rw [h.lock u hu]; exact hf.lock b hb
  share hs := (hf.share hs).trans_le (h.sharers u hu)
  own ho := h.owners u hu (hf.own ho)
  knows := by
    have hk := hf.knows
    cases pc <;> try exact hk
    -- the flag stays while the thread holds the lock
    by_contra hw
    have hlock := (hf.lock true rfl).mpr rfl
    exact hu (Option.some.inj (hlock.symm.trans (h.waiting hk hw)))
  asleep hs := by
    rcases h.sleepq u hs with hs | ⟨rfl, -⟩
    · exact hf.asleep hs
    · exact absurd rfl hu
  wakes hl hs hw := by
    have hl' := (h.lock u hu).mp hl
    have hnot : s.page_lock ≠ some t := by
      rw [hl']
      exact fun he => hu (Option.some.inj he)
    refine hf.wakes hl' ?_ fun hs' => hnot (h.waiting hs' hw)
    obtain ⟨v, hv⟩ := Finset.nonempty_iff_ne_empty.mpr hs
    rcases h.sleepq v hv with hv | ⟨-, hv⟩
    · exact Finset.ne_empty_of_mem hv
    · exact absurd hv hnot

/-! ### One step -/

section

variable [Fintype T] {t : T} {s s' : BusyPage T} {pc pc' pc'' : BusyPc}

/-- A step that neither takes nor releases the lock of the page and wakes nobody. -/
lemma BusyPc.Fits.keep (hI : s.Sound) (hf : pc.Fits t s) (hpc : pc ≠ .asleep)
    (hwk : ∀ b, pc ≠ .wakeup b) (hlock : s'.page_lock = s.page_lock)
    (hsleep : s'.sleepq = s.sleepq) (hex : s'.Exact) (hat : pc'.At t s')
    (hsh : ∀ u ≠ t, s.sharers u ≤ s'.sharers u) (how : ∀ u ≠ t, u ∈ s.owners → u ∈ s'.owners)
    (hw : s.waiting → s'.waiting ∨ s.page_lock = some t ∧ ∃ b, pc' = .wakeup b) :
    s'.Sound ∧ pc'.Fits t s' ∧ BusyStep t s s' := by
  have hawake : t ∉ s.sleepq := fun ht => hpc (hf.asleep ht)
  have hset : s.page_lock = some t → s.sleepq ≠ ∅ → s.waiting := fun hl hs => by
    by_contra hnot
    obtain ⟨b, hb⟩ := hf.wakes hl hs hnot
    exact hwk b hb
  refine ⟨⟨hex, fun hs hnot => ?_⟩, ⟨hat, ?_, fun hl hs hnot => ?_⟩, ⟨?_, hsh, how, ?_, ?_⟩⟩
  · rw [hsleep] at hs
    rw [hlock]
    by_cases hwait : s.waiting
    · rcases hw hwait with h | ⟨h, -⟩
      · exact absurd h hnot
      · simp [h]
    · exact hI.kept hs hwait
  · rw [hsleep]
    exact fun ht => absurd ht hawake
  · rw [hsleep] at hs
    rw [hlock] at hl
    rcases hw (hset hl hs) with h | ⟨-, h⟩
    · exact absurd h hnot
    · exact h
  · simp [hlock]
  · intro hwait hnot
    rcases hw hwait with h | ⟨h, -⟩
    · exact absurd h hnot
    · exact h
  · rw [hsleep]
    exact fun u hu => .inl hu

/-- A step that reads. -/
lemma BusyPc.Fits.stay (hI : s.Sound) (hf : pc.Fits t s) (hpc : pc ≠ .asleep)
    (hwk : ∀ b, pc ≠ .wakeup b) (hat : pc'.At t s) :
    s.Sound ∧ pc'.Fits t s ∧ BusyStep t s s :=
  hf.keep hI hpc hwk rfl rfl hI.exact hat (fun _ _ => le_rfl) (fun _ _ => id) .inl

/-- A step that takes the lock of the page. -/
lemma BusyPc.Fits.take (hI : s.Sound) (hf : pc.Fits t s) (hpc : pc ≠ .asleep)
    (h : takeLock s t pc' = some (s', pc'')) (hat : pc'.At t (s.setLock (some t))) :
    s'.Sound ∧ pc''.Fits t s' ∧ BusyStep t s s' := by
  unfold takeLock at h
  split at h
  case isFalse => cases h
  case isTrue hfree =>
    cases h
    have hset : s.sleepq ≠ ∅ → s.waiting := fun hs => by
      by_contra hnot
      exact hI.kept hs hnot hfree
    refine ⟨⟨hI.exact, fun _ _ => by simp [BusyPage.setLock]⟩, ⟨hat, fun ht => ?_, ?_⟩,
      ⟨fun u hu => ?_, fun _ _ => le_rfl, fun _ _ => id, fun h h' => absurd h h',
        fun u hu => .inl hu⟩⟩
    · exact absurd (hf.asleep ht) hpc
    · exact fun _ hs hnot => absurd (hset hs) hnot
    · simp [BusyPage.setLock, hfree, hu.symm]

/-- A step that releases it. -/
lemma BusyPc.Fits.drop (hI : s.Sound) (hf : pc.Fits t s) (hpc : pc ≠ .asleep)
    (hwk : ∀ b, pc ≠ .wakeup b) (hl : pc.locked = some true) (hat : pc'.At t (s.setLock none)) :
    (s.setLock none).Sound ∧ pc'.Fits t (s.setLock none) ∧ BusyStep t s (s.setLock none) := by
  have hheld : s.page_lock = some t := (hf.lock true hl).mpr rfl
  refine ⟨⟨hI.exact, fun hs hnot => ?_⟩, ⟨hat, fun ht => ?_, fun h => ?_⟩,
    ⟨fun u hu => ?_, fun _ _ => le_rfl, fun _ _ => id, fun h h' => absurd h h',
      fun u hu => .inl hu⟩⟩
  · obtain ⟨b, hb⟩ := hf.wakes hheld hs hnot
    exact absurd hb (hwk b)
  · exact absurd (hf.asleep ht) hpc
  · simp [BusyPage.setLock] at h
  · simp [BusyPage.setLock, hheld, hu.symm]

lemma BusyPc.Fits.word_of_share (hI : s.Sound) (hf : pc.Fits t s) (hpc : pc.shares = true) :
    0 < s.total ∧ s.owners = ∅ ∧
      (s.busy_lock.toNat = 8 * s.total + 1 ∨ s.busy_lock.toNat = 8 * s.total + 5) := by
  have hpos := (hf.share hpc).trans_le (s.sharers_le_total t)
  exact ⟨hpos, hI.exact.sharer hpos⟩

lemma BusyPc.Fits.word_of_own (hI : s.Sound) (hf : pc.Fits t s) (hpc : pc.owns = true) :
    s.total = 0 ∧ s.owners = {t} ∧ (s.busy_lock.toNat = 2 ∨ s.busy_lock.toNat = 6) :=
  hI.exact.owner (hf.own hpc)

variable [DecidableEq T]

/-- The release of a share, where the word becomes `x`. -/
lemma BusyPc.Fits.release (hI : s.Sound) (hf : pc.Fits t s) (hpc : pc.shares = true)
    (hpc' : pc ≠ .asleep) (hwk : ∀ b, pc ≠ .wakeup b) {x : UInt32}
    (hx : x.toNat = 8 * s.total - 7 ∨ 1 < s.total ∧ x.toNat = 8 * s.total - 3)
    (hat : pc'.At t ((s.setWord x).unshare t))
    (hw : s.waiting → x.toNat = 8 * s.total - 3 ∨ s.page_lock = some t ∧ ∃ b, pc' = .wakeup b) :
    ((s.setWord x).unshare t).Sound ∧ pc'.Fits t ((s.setWord x).unshare t) ∧
      BusyStep t s ((s.setWord x).unshare t) := by
  obtain ⟨hpos, hown, -⟩ := hf.word_of_share hI hpc
  have htotal : ((s.setWord x).unshare t).total + 1 = s.total :=
    BusyPage.total_unshare (s := s.setWord x) (hf.share hpc)
  have hword : ((s.setWord x).unshare t).busy_lock = x := rfl
  have hex : ((s.setWord x).unshare t).Exact := by
    refine .inl ⟨hown, ?_⟩
    rw [hword]
    omega
  refine hf.keep hI hpc' hwk rfl rfl hex hat (fun u hu => ?_) (fun _ _ => id)
    fun h => (hw h).imp_left fun hx => ?_
  · simp [BusyPage.unshare, BusyPage.setWord, hu]
  · rw [BusyPage.waiting_iff, hword]
    omega

lemma sunbusy_ok (hI : s.Sound) (hf : pc.Fits t s) (hpc : pc.shares = true)
    (h : pc.run t s = some (s', pc')) : s'.Sound ∧ pc'.Fits t s' ∧ BusyStep t s s' := by
  obtain ⟨hpos, hown, hword⟩ := hf.word_of_share hI hpc
  cases pc <;> cases hpc
  case sunbusy =>
    have hnot := (hf.lock false rfl).not.mpr Bool.false_ne_true
    simp only [BusyPc.run, ne_eq, shared_bit, eq_unbusied] at h
    split_ifs at h with hbad <;> cases h
    · rcases hbad with hbad | hbad
      · exact absurd hbad hnot
      · omega
    · exact hf.stay hI nofun nofun ⟨hf.lock, hf.share, nofun, trivial⟩
  case sunbusyLoop =>
    simp only [BusyPc.run, many_sharers, waiters_bit, eq_one_sharer, eq_one_sharer_waiters] at h
    split_ifs at h <;> cases h <;> first | omega | skip
    · have hk : 16 ≤ s.busy_lock.toNat := by omega
      exact hf.stay hI nofun nofun ⟨hf.lock, hf.share, nofun, hk⟩
    · exact hf.stay hI nofun nofun ⟨hf.lock, hf.share, nofun, trivial⟩
    · exact hf.stay hI nofun nofun ⟨hf.lock, hf.share, nofun, ‹_›⟩
  case sunbusyDrop x =>
    have hx : 16 ≤ x.toNat := hf.knows
    simp only [BusyPc.run] at h
    split_ifs at h with heq <;> cases h
    · -- the word was still `x`, and others keep their shares
      have hsub : (x - VPB_ONE_SHARER).toNat = x.toNat - 8 :=
        UInt32.toNat_sub_of_le _ _ (UInt32.le_iff_toNat_le.mpr (by change 8 ≤ _; omega))
      rw [heq] at hword
      refine hf.release hI rfl nofun nofun (by omega) .idle fun hw => .inl ?_
      rw [BusyPage.waiting_iff, heq] at hw
      omega
    · exact hf.stay hI nofun nofun ⟨hf.lock, hf.share, nofun, trivial⟩
  case sunbusyLast =>
    simp only [BusyPc.run, eq_one_sharer] at h
    split_ifs at h with heq <;> cases h
    · -- the last share, where nobody waits
      refine hf.release hI rfl nofun nofun ?_ .idle fun hw => ?_
      · change 1 = _ ∨ _
        omega
      · rw [BusyPage.waiting_iff] at hw
        omega
    · exact hf.stay hI nofun nofun ⟨hf.lock, hf.share, nofun, trivial⟩
  case sunbusyLock x =>
    exact hf.take hI nofun h ⟨fun b hb => by simp_all [BusyPc.locked, BusyPage.setLock], hf.share,
      nofun, hf.knows⟩
  case sunbusyWaiters x =>
    have hx : x.toNat = 13 := hf.knows
    have hheld := (hf.lock true rfl).mpr rfl
    simp only [BusyPc.run] at h
    split_ifs at h with heq <;> cases h
    · -- the last share: who waits is woken next
      rw [heq] at hword
      refine hf.release hI rfl nofun nofun ?_ ⟨hf.lock, nofun, nofun, trivial⟩
        fun _ => .inr ⟨hheld, true, rfl⟩
      change 1 = _ ∨ _
      omega
    · exact hf.stay hI nofun nofun ⟨hf.lock, hf.share, nofun, trivial⟩
  case sunbusyAgain =>
    cases h
    exact hf.drop hI nofun nofun rfl ⟨fun b hb => by simp_all [BusyPc.locked, BusyPage.setLock],
      hf.share, nofun, trivial⟩

/-- The release of the page. -/
lemma BusyPc.Fits.disown (hI : s.Sound) (hf : pc.Fits t s) (hpc : pc.owns = true)
    (hpc' : pc ≠ .asleep) (hwk : ∀ b, pc ≠ .wakeup b)
    (hat : pc'.At t ((s.setWord VPB_UNBUSIED).disown t))
    (hw : s.waiting → s.page_lock = some t ∧ ∃ b, pc' = .wakeup b) :
    ((s.setWord VPB_UNBUSIED).disown t).Sound ∧ pc'.Fits t ((s.setWord VPB_UNBUSIED).disown t) ∧
      BusyStep t s ((s.setWord VPB_UNBUSIED).disown t) := by
  obtain ⟨htotal, hown, -⟩ := hf.word_of_own hI hpc
  have hex : ((s.setWord VPB_UNBUSIED).disown t).Exact := by
    refine .inl ⟨by simp [BusyPage.disown, BusyPage.setWord, hown], .inl ?_⟩
    change 1 = 8 * s.total + 1
    omega
  refine hf.keep hI hpc' hwk rfl rfl hex hat (fun _ _ => le_rfl) (fun u hu h => ?_)
    fun h => .inr (hw h)
  simpa [BusyPage.disown, BusyPage.setWord, hu] using h

lemma xunbusy_ok (hI : s.Sound) (hf : pc.Fits t s) (hpc : pc.owns = true)
    (hdown : pc.downgrades = false)
    (h : pc.run t s = some (s', pc')) : s'.Sound ∧ pc'.Fits t s' ∧ BusyStep t s s' := by
  obtain ⟨htotal, hown, hword⟩ := hf.word_of_own hI hpc
  cases pc <;> cases hpc <;> cases hdown
  case xunbusy =>
    simp only [BusyPc.run, eq_exclusiver] at h
    split_ifs at h with heq <;> cases h
    · refine hf.disown hI rfl nofun nofun .idle fun hw => ?_
      rw [BusyPage.waiting_iff] at hw
      omega
    · exact hf.stay hI nofun nofun ⟨hf.lock, nofun, hf.own, trivial⟩
  case xunbusyHard =>
    simp only [BusyPc.run, exclusive_bit] at h
    split_ifs at h with heq <;> cases h
    · omega
    · exact hf.stay hI nofun nofun ⟨hf.lock, nofun, hf.own, trivial⟩
  case xunbusyMaybelocked =>
    simp only [BusyPc.run, exclusive_bit] at h
    split_ifs at h with heq <;> cases h
    · omega
    · exact hf.stay hI nofun nofun ⟨hf.lock, nofun, hf.own, trivial⟩
  case xunbusyMaybelockedCas =>
    simp only [BusyPc.run, eq_exclusiver] at h
    split_ifs at h with heq hheld <;> cases h
    · refine hf.disown hI rfl nofun nofun .idle fun hw => ?_
      rw [BusyPage.waiting_iff] at hw
      omega
    · exact hf.stay hI nofun nofun ⟨by simp [BusyPc.locked, hheld], nofun, hf.own, trivial⟩
    · exact hf.stay hI nofun nofun ⟨by simp [BusyPc.locked, hheld], nofun, hf.own, trivial⟩
  case xunbusyLock =>
    exact hf.take hI nofun h ⟨by simp [BusyPc.locked, BusyPage.setLock], nofun, hf.own, trivial⟩
  case xunbusyLocked lockacq =>
    have hheld := (hf.lock true rfl).mpr rfl
    simp only [BusyPc.run, exclusive_bit] at h
    split_ifs at h with hbad <;> cases h
    · rcases hbad with hbad | hbad
      · omega
      · exact absurd hheld hbad
    · exact hf.disown hI rfl nofun nofun ⟨hf.lock, nofun, nofun, trivial⟩
        fun _ => ⟨hheld, lockacq, rfl⟩

/-- The page becomes a share. -/
lemma BusyPc.Fits.downgraded (hI : s.Sound) (hf : pc.Fits t s) (hpc : pc.owns = true)
    (hpc' : pc ≠ .asleep) (hwk : ∀ b, pc ≠ .wakeup b)
    (hat : pc'.At t (((s.setWord (VPB_SHARERS_WORD 1)).disown t).share t))
    (hw : s.waiting → s.page_lock = some t ∧ ∃ b, pc' = .wakeup b) :
    (((s.setWord (VPB_SHARERS_WORD 1)).disown t).share t).Sound ∧
      pc'.Fits t (((s.setWord (VPB_SHARERS_WORD 1)).disown t).share t) ∧
      BusyStep t s (((s.setWord (VPB_SHARERS_WORD 1)).disown t).share t) := by
  obtain ⟨htotal, hown, -⟩ := hf.word_of_own hI hpc
  have hex : (((s.setWord (VPB_SHARERS_WORD 1)).disown t).share t).Exact := by
    refine .inl ⟨by simp [BusyPage.share, BusyPage.disown, BusyPage.setWord, hown], .inl ?_⟩
    rw [BusyPage.total_share]
    change 9 = 8 * (s.total + 1) + 1
    omega
  refine hf.keep hI hpc' hwk rfl rfl hex hat (fun u hu => ?_) (fun u hu h => ?_)
    fun h => .inr (hw h)
  · simp [BusyPage.share, BusyPage.disown, BusyPage.setWord, hu]
  · simpa [BusyPage.share, BusyPage.disown, BusyPage.setWord, hu] using h

lemma downgrade_ok (hI : s.Sound) (hf : pc.Fits t s) (hdown : pc.downgrades = true)
    (h : pc.run t s = some (s', pc')) : s'.Sound ∧ pc'.Fits t s' ∧ BusyStep t s s' := by
  have hpc : pc.owns = true := by cases pc <;> first | rfl | cases hdown
  obtain ⟨htotal, hown, hword⟩ := hf.word_of_own hI hpc
  cases pc <;> cases hdown
  case downgrade =>
    simp only [BusyPc.run, exclusive_bit] at h
    split_ifs at h with heq <;> cases h
    · omega
    · exact hf.stay hI nofun nofun ⟨by simp [BusyPc.locked], nofun, hf.own, trivial⟩
  case downgradeLoop locked =>
    have hlock := hf.lock locked rfl
    have hread : s.busy_lock &&& VPB_BIT_WAITERS = 0 ∨
        s.busy_lock &&& VPB_BIT_WAITERS = VPB_BIT_WAITERS := by
      rw [waiters_bit, ← UInt32.toNat_inj (b := VPB_BIT_WAITERS), waiters_toNat]
      change _ ∨ _ = 4
      omega
    simp only [BusyPc.run] at h
    split_ifs at h with hwait <;> cases h
    · exact hf.stay hI nofun nofun ⟨by simp_all [BusyPc.locked], nofun, hf.own,
        hread.resolve_left hwait.1⟩
    · refine hf.stay hI nofun nofun ⟨fun b hb => ?_, nofun, hf.own, hread⟩
      cases hb
      rw [hlock]
      cases locked <;> simp_all
  case downgradeLock x =>
    have hx : x = VPB_BIT_WAITERS := hf.knows
    have hne : VPB_BIT_WAITERS ≠ 0 := by decide
    exact hf.take hI nofun h ⟨by simp [BusyPc.locked, BusyPage.setLock, hx, hne], nofun, hf.own,
      .inr hx⟩
  case downgradeCas x locked =>
    have hlock := hf.lock _ rfl
    have hx : x = 0 ∨ x = VPB_BIT_WAITERS := hf.knows
    simp only [BusyPc.run] at h
    split_ifs at h with heq hne hne <;> cases h
    · -- the bit was set: who waits is woken next
      have hheld : s.page_lock = some t := by simp [hlock, hne]
      refine hf.downgraded hI rfl nofun nofun ⟨fun b hb => ?_, nofun, nofun, trivial⟩
        fun _ => ⟨hheld, _, rfl⟩
      cases hb
      exact iff_of_true hheld rfl
    · -- nobody waits
      refine hf.downgraded hI rfl nofun nofun .idle fun hw => absurd hw ?_
      obtain rfl : x = 0 := by simpa using hne
      simp only [BusyPage.waiting, heq]
      decide
    · exact hf.stay hI nofun nofun ⟨fun b hb => by simp_all [BusyPc.locked], nofun, hf.own, trivial⟩
    · refine hf.stay hI nofun nofun ⟨fun b hb => ?_, nofun, hf.own, trivial⟩
      cases hb
      rw [hlock]
      cases locked <;> simp_all
  case downgradeAgain =>
    cases h
    exact hf.drop hI nofun nofun rfl ⟨fun b hb => by simp_all [BusyPc.locked, BusyPage.setLock],
      nofun, hf.own, trivial⟩

lemma busySleep_ok (hI : s.Sound) (hf : pc.Fits t s) (hpc : pc.sleeps = true)
    (h : pc.run t s = some (s', pc')) : s'.Sound ∧ pc'.Fits t s' ∧ BusyStep t s s' := by
  cases pc <;> cases hpc
  case busySleep nonshared =>
    have hheld := (hf.lock true rfl).mpr rfl
    simp only [BusyPc.run] at h
    split_ifs at h with hbad hfree hset <;> cases h
    · exact absurd hheld hbad
    · exact hf.stay hI nofun nofun ⟨hf.lock, nofun, nofun, trivial⟩
    · exact hf.stay hI nofun nofun ⟨hf.lock, nofun, nofun, hset, fun h => hfree (.inl h)⟩
    · exact hf.stay hI nofun nofun ⟨hf.lock, nofun, nofun, hset⟩
  case busySleepCas x =>
    obtain ⟨hset, hbusy⟩ : x &&& VPB_BIT_WAITERS = 0 ∧ x ≠ VPB_UNBUSIED := hf.knows
    rw [ne_eq, eq_unbusied] at hbusy
    simp only [BusyPc.run] at h
    split_ifs at h with heq <;> cases h
    · -- the page is busy, so that who releases it finds the bit
      have hword := set_waiters_toNat hset
      have hbit := (waiters_bit x).mp hset
      have hwait : (s.setWord (x ||| VPB_BIT_WAITERS)).waiting := by
        rw [BusyPage.waiting_iff]
        change (x ||| VPB_BIT_WAITERS).toNat / 4 % 2 = 1
        omega
      refine hf.keep hI nofun nofun rfl rfl ?_ ⟨hf.lock, nofun, nofun, hwait⟩ (fun _ _ => le_rfl)
        (fun _ _ => id) fun _ => .inl hwait
      have hex := hI.exact
      rw [BusyPage.Exact, heq] at hex
      rw [BusyPage.exact_setWord]
      exact hex.imp (fun h => ⟨h.1, by omega⟩) fun h => ⟨h.1, h.2.1, by omega⟩
    · exact hf.stay hI nofun nofun ⟨hf.lock, nofun, nofun, trivial⟩
  case msleep =>
    have hheld := (hf.lock true rfl).mpr rfl
    -- the thread sleeps from the moment on at which the lock is free
    have hwait : s.waiting := hf.knows
    cases h
    refine ⟨⟨hI.exact, fun _ hnot => absurd hwait hnot⟩, ⟨⟨?_, nofun, nofun, trivial⟩,
      fun _ => rfl, fun h => ?_⟩, ⟨fun u hu => ?_, fun _ _ => le_rfl, fun _ _ => id,
      fun h h' => absurd h h', fun u hu => ?_⟩⟩
    · simp [BusyPc.locked, BusyPage.setLock]
    · simp [BusyPage.setLock] at h
    · simp [BusyPage.setLock, hheld, hu.symm]
    · exact (Finset.mem_insert.mp hu).elim (fun h => .inr ⟨h, hheld⟩) .inl
  case asleep =>
    simp only [BusyPc.run] at h
    split_ifs at h with hin
    cases h
    refine ⟨hI, ⟨.idle, fun ht => absurd ht hin, fun hl => ?_⟩, ⟨fun _ _ => .rfl,
      fun _ _ => le_rfl, fun _ _ => id, fun h h' => absurd h h', fun u hu => .inl hu⟩⟩
    exact absurd ((hf.lock false rfl).mp hl) Bool.false_ne_true

lemma flash_ok (hI : s.Sound) (hf : pc.Fits t s) (hpc : pc.flashes = true)
    (h : pc.run t s = some (s', pc')) : s'.Sound ∧ pc'.Fits t s' ∧ BusyStep t s s' := by
  cases pc <;> cases hpc
  case flash =>
    have hheld := (hf.lock true rfl).mpr rfl
    simp only [BusyPc.run] at h
    split_ifs at h with hbad hset <;> cases h
    · exact absurd hheld hbad
    · exact hf.stay hI nofun nofun .idle
    · exact hf.stay hI nofun nofun ⟨hf.lock, nofun, nofun, hset⟩
  case flashCas x =>
    have hheld := (hf.lock true rfl).mpr rfl
    have hset : x &&& VPB_BIT_WAITERS ≠ 0 := hf.knows
    simp only [BusyPc.run] at h
    split_ifs at h with heq <;> cases h
    · have hword := clear_waiters_toNat hset
      refine hf.keep hI nofun nofun rfl rfl ?_ ⟨hf.lock, nofun, nofun, trivial⟩
        (fun _ _ => le_rfl) (fun _ _ => id) fun _ => .inr ⟨hheld, false, rfl⟩
      have hex := hI.exact
      have hbit := mt (waiters_bit x).mpr hset
      rw [BusyPage.Exact, heq] at hex
      rw [BusyPage.exact_setWord]
      exact hex.imp (fun h => ⟨h.1, by omega⟩) fun h => ⟨h.1, h.2.1, by omega⟩
    · exact hf.stay hI nofun nofun ⟨hf.lock, nofun, nofun, trivial⟩
  case wakeup lockacq =>
    have hheld := (hf.lock true rfl).mpr rfl
    cases h
    refine ⟨⟨hI.exact, fun h => absurd rfl h⟩, ⟨?_, fun h => absurd h (Finset.notMem_empty t),
      fun _ h => absurd rfl h⟩, ⟨fun _ _ => .rfl, fun _ _ => le_rfl, fun _ _ => id,
      fun h h' => absurd h h', fun u hu => absurd hu (Finset.notMem_empty u)⟩⟩
    cases lockacq
    · exact .idle
    · exact ⟨hf.lock, nofun, nofun, trivial⟩

lemma trybusy_ok (hI : s.Sound) (hf : pc.Fits t s) (hpc : pc.tries = true)
    (h : pc.run t s = some (s', pc')) (hG : s'.total < 2 ^ 29) :
    s'.Sound ∧ pc'.Fits t s' ∧ BusyStep t s s' := by
  cases pc <;> cases hpc
  case tryxbusy =>
    simp only [BusyPc.run, eq_unbusied] at h
    split_ifs at h with heq <;> cases h
    · -- nobody has busied the page
      have hfree : s.owners = ∅ ∧ s.total = 0 := by
        rcases hI.exact with ⟨hown, hword⟩ | ⟨-, -, hword⟩
        · exact ⟨hown, by omega⟩
        · omega
      refine hf.keep hI nofun nofun rfl rfl (.inr ⟨hfree.2, ⟨t, ?_⟩, .inl rfl⟩) .idle
        (fun _ _ => le_rfl) (fun u _ hu => Finset.mem_insert_of_mem hu) fun hw => ?_
      · simp [BusyPage.own, BusyPage.setWord, hfree.1]
      · rw [BusyPage.waiting_iff] at hw
        omega
    · exact hf.stay hI nofun nofun .idle
  case trysbusy =>
    simp only [BusyPc.run] at h
    split_ifs at h with heq <;> cases h
    · exact hf.stay hI nofun nofun .idle
    · exact hf.stay hI nofun nofun ⟨nofun, nofun, nofun, heq⟩
  case trysbusyCas x =>
    have hread : x &&& VPB_BIT_SHARED ≠ 0 := hf.knows
    rw [ne_eq, shared_bit] at hread
    simp only [BusyPc.run] at h
    split_ifs at h with heq <;> cases h
    · -- `x` had the shared bit, so that no thread owns the page
      have htotal : ((s.setWord (x + VPB_ONE_SHARER)).share t).total = s.total + 1 :=
        BusyPage.total_share (s := s.setWord (x + VPB_ONE_SHARER))
      have hfree : s.owners = ∅ ∧ (x.toNat = 8 * s.total + 1 ∨
          0 < s.total ∧ x.toNat = 8 * s.total + 5) := by
        rw [← heq] at hread ⊢
        rcases hI.exact with h | ⟨-, -, hword⟩
        · exact h
        · omega
      have hadd : (x + VPB_ONE_SHARER).toNat = x.toNat + 8 := by
        rw [UInt32.toNat_add]
        exact Nat.mod_eq_of_lt (by change _ + 8 < _; omega)
      have hword : ((s.setWord (x + VPB_ONE_SHARER)).share t).busy_lock = x + VPB_ONE_SHARER := rfl
      refine hf.keep hI nofun nofun rfl rfl (.inl ⟨hfree.1, ?_⟩) .idle (fun u hu => ?_)
        (fun _ _ => id) fun hw => .inl ?_
      · rw [hword, hadd]
        omega
      · simp [BusyPage.share, BusyPage.setWord, hu]
      · rw [BusyPage.waiting_iff] at hw ⊢
        rw [hword, hadd]
        rw [heq] at hw
        omega
    · exact hf.stay hI nofun nofun ⟨nofun, nofun, nofun, trivial⟩

lemma busyRun_ok (hI : s.Sound) (hf : pc.Fits t s) (h : pc.run t s = some (s', pc'))
    (hG : s'.total < 2 ^ 29) : s'.Sound ∧ pc'.Fits t s' ∧ BusyStep t s s' := by
  by_cases htry : pc.tries = true
  · exact trybusy_ok hI hf htry h hG
  by_cases hshare : pc.shares = true
  · exact sunbusy_ok hI hf hshare h
  by_cases hdown : pc.downgrades = true
  · exact downgrade_ok hI hf hdown h
  by_cases hown : pc.owns = true
  · exact xunbusy_ok hI hf hown (by simpa using hdown) h
  by_cases hsleep : pc.sleeps = true
  · exact busySleep_ok hI hf hsleep h
  by_cases hflash : pc.flashes = true
  · exact flash_ok hI hf hflash h
  cases pc <;> first | contradiction | skip
  case unlock =>
    cases h
    exact hf.drop hI nofun nofun rfl .idle
  case lock => exact hf.take hI nofun h .idle

lemma busyStart_ok {c : BusyCall T} (hI : s.Sound) (hf : BusyPc.idle.Fits t s)
    (h : c.start t s = some (s', pc')) : s'.Sound ∧ pc'.Fits t s' ∧ BusyStep t s s' := by
  cases c <;> simp only [BusyCall.start] at h
  case tryxbusy =>
    cases h
    exact hf.stay hI nofun nofun ⟨nofun, nofun, nofun, trivial⟩
  case trysbusy =>
    cases h
    exact hf.stay hI nofun nofun ⟨nofun, nofun, nofun, trivial⟩
  case sunbusy =>
    split_ifs at h with hcall
    cases h
    exact hf.stay hI nofun nofun ⟨by simp [BusyPc.locked, hcall.2], fun _ => hcall.1, nofun, trivial⟩
  case xunbusy =>
    split_ifs at h with hcall
    cases h
    exact hf.stay hI nofun nofun ⟨by simp [BusyPc.locked, hcall.2], nofun, fun _ => hcall.1, trivial⟩
  case xunbusyMaybelocked =>
    split_ifs at h with hcall
    cases h
    exact hf.stay hI nofun nofun ⟨nofun, nofun, fun _ => hcall, trivial⟩
  case downgrade =>
    split_ifs at h with hcall
    cases h
    exact hf.stay hI nofun nofun ⟨nofun, nofun, fun _ => hcall, trivial⟩
  case busySleep nonshared =>
    split_ifs at h with hcall
    cases h
    exact hf.stay hI nofun nofun ⟨by simp [BusyPc.locked, hcall], nofun, nofun, trivial⟩
  case flash =>
    split_ifs at h with hcall
    cases h
    exact hf.stay hI nofun nofun ⟨by simp [BusyPc.locked, hcall], nofun, nofun, trivial⟩
  case lock =>
    split_ifs at h with hcall
    cases h
    exact hf.stay hI nofun nofun ⟨by simpa [BusyPc.locked] using hcall, nofun, nofun, trivial⟩
  case unlock =>
    split_ifs at h with hcall
    cases h
    exact hf.stay hI nofun nofun ⟨by simp [BusyPc.locked, hcall], nofun, nofun, trivial⟩
  case giveShare u =>
    split_ifs at h with hcall
    cases h
    -- as many shares as before
    have htotal : ((s.unshare t).share u).total = s.total := by
      have := BusyPage.total_unshare hcall
      rw [BusyPage.total_share]
      exact this
    have hex : ((s.unshare t).share u).Exact := by
      have := hI.exact
      rw [BusyPage.Exact] at this ⊢
      rwa [htotal]
    refine hf.keep hI nofun nofun rfl rfl hex .idle (fun v hv => ?_) (fun _ _ => id) .inl
    rcases eq_or_ne v u with rfl | hu
    · simp [BusyPage.share, BusyPage.unshare, hv]
    · simp [BusyPage.share, BusyPage.unshare, hv, hu]
  case giveBusy u =>
    split_ifs at h with hcall
    cases h
    obtain ⟨htotal, hown, hword⟩ := hI.exact.owner hcall
    have hex : ((s.disown t).own u).Exact :=
      .inr ⟨htotal, ⟨u, by simp [BusyPage.own, BusyPage.disown, hown]⟩, hword⟩
    refine hf.keep hI nofun nofun rfl rfl hex .idle (fun _ _ => le_rfl) (fun v hv h => ?_) .inl
    exact Finset.mem_insert_of_mem (Finset.mem_erase.mpr ⟨hv, h⟩)

lemma busyExec_ok {m : BusyMove T} (hI : s.Sound) (hf : pc.Fits t s)
    (h : busyExec m t s pc = some (s', pc')) (hG : s'.total < 2 ^ 29) :
    s'.Sound ∧ pc'.Fits t s' ∧ BusyStep t s s' := by
  cases m with
  | run => exact busyRun_ok hI hf h hG
  | «begin» c =>
    cases pc
    case idle => exact busyStart_ok hI hf h
    all_goals cases h

end

/-! ### Runs -/

section

variable [DecidableEq T]

/-- Nobody has busied the page yet. -/
def busyInit : Conf T (BusyPage T) BusyPc :=
  ⟨⟨VPB_UNBUSIED, none, ∅, fun _ => 0, ∅⟩, fun _ => .idle⟩

variable [Fintype T]

/-- The word has room for the shares. -/
def BusyPage.Room (s : BusyPage T) : Prop := s.total < 2 ^ 29

instance : DecidablePred (BusyPage.Room (T := T)) := fun s => Nat.decLt s.total (2 ^ 29)

variable {c : Conf T (BusyPage T) BusyPc}

lemma busyReached_ok (h : Threads.Reached busyExec BusyPage.Room busyInit c) :
    c.shared.Sound ∧ ∀ t, (c.loc t).Fits t c.shared := by
  refine h.invariant (I := BusyPage.Sound) (J := fun t s pc => pc.Fits t s) ?_ (fun t => ?_)
    (fun m t s l s' l' hI hJ he hG => busyExec_ok hI hJ he hG)
    fun t u s s' l hu hE hJ => hJ.other hu hE
  · refine ⟨.inl ⟨rfl, .inl ?_⟩, fun h => absurd rfl h⟩
    simp only [BusyPage.total, busyInit, Finset.sum_const_zero]
    rfl
  · exact ⟨.idle, fun h => absurd h (Finset.notMem_empty t), fun _ h => absurd rfl h⟩

local instance neZero_two : NeZero 2 := ⟨two_ne_zero⟩

/-- Thread 0 busies the page, thread 1 goes to sleep on it, thread 0 finds that out as it
releases the page. -/
def sleeperMoves : List (Fin 2 × BusyMove (Fin 2)) :=
  [(0, .begin .tryxbusy), (0, .run), (1, .begin .lock), (1, .run), (1, .begin (.busySleep false)),
    (1, .run), (1, .run), (0, .begin .xunbusy), (0, .run), (1, .run), (0, .run), (0, .run),
    (0, .run)]

def sleeperConf : Option (Conf (Fin 2) (BusyPage (Fin 2)) BusyPc) :=
  runMoves busyExec BusyPage.Room sleeperMoves busyInit

lemma sleeperConf_isSome : sleeperConf.isSome := by decide

lemma sleeperConf_reached :
    Threads.Reached busyExec BusyPage.Room busyInit (sleeperConf.get sleeperConf_isSome) :=
  Threads.Reached.init.runMoves (Option.some_get _).symm

/-- **The busy lock**: in any interleaving at most one thread owns the page and then nobody shares
it, the word counts the shares and tells whether there is an owner, and no assertion fails. -/
theorem busy_lock_exact (h : Threads.Reached busyExec BusyPage.Room busyInit c) :
    c.shared.owners.card ≤ 1 ∧ (c.shared.owners.Nonempty → ∀ t, c.shared.sharers t = 0) ∧
    (VPB_SHARERS c.shared.busy_lock).toNat = ∑ t, c.shared.sharers t ∧
    (c.shared.busy_lock &&& VPB_SINGLE_EXCLUSIVER ≠ 0 ↔ c.shared.owners.Nonempty) ∧
    (c.shared.busy_lock = VPB_UNBUSIED →
      c.shared.owners = ∅ ∧ ∀ t, c.shared.sharers t = 0) ∧
    ∀ t, c.loc t ≠ .panic := by
  obtain ⟨hI, hJ⟩ := busyReached_ok h
  have hzero : c.shared.total = 0 → ∀ t, c.shared.sharers t = 0 := fun hn t =>
    Nat.eq_zero_of_le_zero (hn ▸ c.shared.sharers_le_total t)
  have hpanic : ∀ t, c.loc t ≠ .panic := fun t ht => by
    have := (hJ t).knows
    rwa [ht] at this
  rw [sharers_toNat, ne_eq, exclusive_bit, eq_unbusied]
  rcases hI.exact with ⟨hown, hword⟩ | ⟨hn, ⟨t, hown⟩, hword⟩
  · refine ⟨by simp [hown], by simp [hown], ?_, ?_, fun hx => ⟨hown, hzero ?_⟩, hpanic⟩
    · change _ = c.shared.total
      omega
    · simp only [hown, Finset.not_nonempty_empty, iff_false, not_not]
      omega
    · omega
  · refine ⟨by simp [hown], fun _ => hzero hn, ?_, ?_, fun hx => ?_, hpanic⟩
    · change _ = c.shared.total
      omega
    · simp only [hown, Finset.singleton_nonempty, iff_true]
      omega
    · omega

theorem busy_lock_exact_sleeper :
    ∃ c, sleeperConf = some c ∧ c.shared.owners.card ≤ 1 ∧ ∀ t, c.loc t ≠ .panic :=
  have h := busy_lock_exact sleeperConf_reached
  ⟨_, (Option.some_get _).symm, h.1, h.2.2.2.2.2⟩

/-- **No wakeup is lost**: a thread sleeps only while the flag of the waiters is set on a page
that is busied, or another thread is about to wake it. -/
theorem busy_sleeper_woken (h : Threads.Reached busyExec BusyPage.Room busyInit c) {t : T}
    (ht : t ∈ c.shared.sleepq) :
    c.loc t = .asleep ∧
    (c.shared.busy_lock &&& VPB_BIT_WAITERS ≠ 0 ∧
        (c.shared.owners.Nonempty ∨ ∃ u, 0 < c.shared.sharers u) ∨
      ∃ u lockacq, c.shared.page_lock = some u ∧ c.loc u = .wakeup lockacq) := by
  obtain ⟨hI, hJ⟩ := busyReached_ok h
  refine ⟨(hJ t).asleep ht, ?_⟩
  by_cases hw : c.shared.waiting
  · refine .inl ⟨hw, ?_⟩
    rw [BusyPage.waiting_iff] at hw
    rcases hI.exact with ⟨-, hword⟩ | ⟨-, ⟨u, hown⟩, -⟩
    · have hpos : 0 < c.shared.total := by omega
      obtain ⟨u, -, hu⟩ := Finset.exists_ne_zero_of_sum_ne_zero hpos.ne'
      exact .inr ⟨u, Nat.pos_of_ne_zero hu⟩
    · exact .inl ⟨u, by simp [hown]⟩
  · have hs : c.shared.sleepq ≠ ∅ := Finset.ne_empty_of_mem ht
    obtain ⟨u, hu⟩ := Option.ne_none_iff_exists'.mp (hI.kept hs hw)
    obtain ⟨b, hb⟩ := (hJ u).wakes hu hs hw
    exact .inr ⟨u, b, hu, hb⟩

theorem busy_sleeper_woken_sleeper :
    ∃ c, sleeperConf = some c ∧ c.shared.busy_lock = VPB_UNBUSIED ∧ (1 : Fin 2) ∈ c.shared.sleepq ∧
      ∃ u lockacq, c.shared.page_lock = some u ∧ c.loc u = .wakeup lockacq := by
  have hfree : (sleeperConf.get sleeperConf_isSome).shared.busy_lock = VPB_UNBUSIED := by decide
  have ht : (1 : Fin 2) ∈ (sleeperConf.get sleeperConf_isSome).shared.sleepq := by decide
  refine ⟨_, (Option.some_get _).symm, hfree, ht, ?_⟩
  refine ((busy_sleeper_woken sleeperConf_reached ht).2).resolve_left fun h => h.1 ?_
  rw [hfree]
  decide

end

end Messaround.Pager
