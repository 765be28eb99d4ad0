import Mathlib.Logic.Function.Basic
import Mathlib.Tactic.Common
import Messaround.Pager.Scan

/-!
`vm_pageout_cluster` of vm/vm_pageout.c: the pages that are laundered together with one.

A page of the object stands for its index there. The object's lock is held, so the pages are
looked at without interference, and the locks of the pages are left out.
-/

namespace Messaround.Pager

open Function (update update_self update_of_ne)

/-- What is read of a page in the laundry; `pmap_is_modified` and `writeable` are kept in its
mappings. -/
structure LaundryPage where
  busy_lock : UInt32
  dirty : BitVec 8
  queue : UInt8
  hold_count : UInt16
  pmap_is_modified : Bool
  writeable : Bool

namespace LaundryPage

variable (p : LaundryPage)

def vm_page_dirty : LaundryPage := { p with dirty := VM_PAGE_BITS_ALL }

def vm_page_test_dirty : LaundryPage :=
  if p.dirty ≠ VM_PAGE_BITS_ALL ∧ p.pmap_is_modified then p.vm_page_dirty else p

/-- The page can no longer be written to, and what was written is known. -/
def pmap_remove_write : LaundryPage :=
  let p := if p.pmap_is_modified then p.vm_page_dirty else p
  { p with pmap_is_modified := false, writeable := false }

end LaundryPage

/-- The pages of an object that are resident, by their indices. -/
abbrev Resident := ℕ → Option LaundryPage

def vm_page_prev (obj : Resident) (m : ℕ) : Option ℕ :=
  if m ≠ 0 ∧ (obj (m - 1)).isSome then some (m - 1) else none

def vm_page_next (obj : Resident) (m : ℕ) : Option ℕ :=
  if (obj (m + 1)).isSome then some (m + 1) else none

/-- The variables of the function; `mc` is an array of `2 * vm_pageout_page_count` pages. -/
structure ClusterScan where
  obj : Resident
  mc : ℕ → Option ℕ
  pb : ℕ
  ps : ℕ
  ib : ℕ
  is : ℕ
  page_base : ℕ
  pageout_count : ℕ

/-- Tests whether the page `p` may join the cluster, and protects it if so. -/
def tryCluster (obj : Resident) (p : ℕ) : Resident × Bool :=
  match obj p with
  | none => (obj, false)
  | some pg =>
    if pg.busy_lock ≠ VPB_UNBUSIED then (obj, false)
    else
      let pg := pg.vm_page_test_dirty
      let obj := update obj p (some pg)
      if pg.dirty = 0 then (obj, false)
      else if pg.queue ≠ PQ_LAUNDRY ∨ pg.hold_count ≠ 0 then (obj, false)
      else (update obj p (some pg.pmap_remove_write), true)

section

variable (vm_pageout_page_count pindex : ℕ)

/-- The reverse scan. The first argument bounds the rounds, and `none` is a write outside of
`mc`. -/
def reverseScan : ℕ → ClusterScan → Option ClusterScan
  | 0, _ => none
  | fuel + 1, s =>
    if s.ib ≠ 0 ∧ s.pageout_count < vm_pageout_page_count then
      if s.ib > pindex then some { s with ib := 0 }
      else match vm_page_prev s.obj s.pb with
        | none => some { s with ib := 0 }
        | some p =>
          let (obj, ok) := tryCluster s.obj p
          if !ok then some { s with obj, ib := 0 }
          else if s.page_base = 0 ∨ 2 * vm_pageout_page_count < s.page_base then none
          else
            let s := { s with
              obj
              mc := update s.mc (s.page_base - 1) (some p)
              page_base := s.page_base - 1
              pb := p
              pageout_count := s.pageout_count + 1
              ib := s.ib + 1 }
            if (pindex - (s.ib - 1)) % vm_pageout_page_count = 0 then some s
            else reverseScan fuel s
    else some s

variable (size : ℕ)

/-- The forward scan. -/
def forwardScan : ℕ → ClusterScan → Option ClusterScan
  | 0, _ => none
  | fuel + 1, s =>
    if s.pageout_count < vm_pageout_page_count ∧ pindex + s.is < size then
      match vm_page_next s.obj s.ps with
      | none => some s
      | some p =>
        let (obj, ok) := tryCluster s.obj p
        if !ok then some { s with obj }
        else if 2 * vm_pageout_page_count ≤ s.page_base + s.pageout_count then none
        else forwardScan fuel { s with
          obj
          mc := update s.mc (s.page_base + s.pageout_count) (some p)
          ps := p
          pageout_count := s.pageout_count + 1
          is := s.is + 1 }
    else some s

/-- Both scans, and again from `more` on. -/
def clusterMore : ℕ → ClusterScan → Option ClusterScan
  | 0, _ => none
  | fuel + 1, s => do
    let s ← reverseScan vm_pageout_page_count pindex (vm_pageout_page_count + 1) s
    let s ← forwardScan vm_pageout_page_count pindex size (vm_pageout_page_count + 1) s
    if s.ib ≠ 0 ∧ s.pageout_count < vm_pageout_page_count then clusterMore fuel s else some s

/-- The pages that `vm_pageout_flush` is called with. -/
def vm_pageout_cluster (obj : Resident) : Option (Resident × List (Option ℕ)) := do
  let obj := update obj pindex ((obj pindex).map LaundryPage.pmap_remove_write)
  let s ← clusterMore vm_pageout_page_count pindex size (vm_pageout_page_count + 1)
    { obj
      mc := update (fun _ => none) vm_pageout_page_count (some pindex)
      pb := pindex
      ps := pindex
      ib := 1
      is := 1
      page_base := vm_pageout_page_count
      pageout_count := 1 }
  return (s.obj, (List.range s.pageout_count).map fun i => s.mc (s.page_base + i))

end

/-! ### Pages that may join -/

/-- Dirty, in the laundry and neither busy nor held. -/
def LaundryPage.Eligible (p : LaundryPage) : Prop :=
  p.busy_lock = VPB_UNBUSIED ∧ (p.dirty ≠ 0 ∨ p.pmap_is_modified = true) ∧
    p.queue = PQ_LAUNDRY ∧ p.hold_count = 0

def Resident.Eligible (obj : Resident) (i : ℕ) : Prop := ∃ p, obj i = some p ∧ p.Eligible

variable {p : LaundryPage} {obj obj' : Resident} {i j : ℕ}

lemma test_dirty_ne_zero :
    p.vm_page_test_dirty.dirty ≠ 0 ↔ p.dirty ≠ 0 ∨ p.pmap_is_modified = true := by
  unfold LaundryPage.vm_page_test_dirty
  split
  case isTrue h =>
    simp [LaundryPage.vm_page_dirty, h.2]
  case isFalse h =>
    refine ⟨.inl, fun h' => h'.elim id fun hm => ?_⟩
    have hfull : p.dirty = VM_PAGE_BITS_ALL := by
      by_contra hne
      exact h ⟨hne, hm⟩
    rw [hfull]
    decide

@[simp] lemma eligible_test_dirty : p.vm_page_test_dirty.Eligible ↔ p.Eligible := by
  unfold LaundryPage.vm_page_test_dirty
  split
  case isTrue h => simp [LaundryPage.Eligible, LaundryPage.vm_page_dirty, h.2]
  case isFalse => rfl

@[simp] lemma eligible_remove_write : p.pmap_remove_write.Eligible ↔ p.Eligible := by
  unfold LaundryPage.pmap_remove_write
  dsimp only
  split
  case isTrue h => simp [LaundryPage.Eligible, LaundryPage.vm_page_dirty, h]
  case isFalse h => simp [LaundryPage.Eligible, h]

lemma writeable_test_dirty : p.vm_page_test_dirty.writeable = p.writeable := by
  unfold LaundryPage.vm_page_test_dirty
  split <;> rfl

/-- No mapping of the page may write to it. -/
def Resident.Protected (obj : Resident) (i : ℕ) : Prop := ∀ p, obj i = some p → p.writeable = false

/-- What looking at pages and protecting them leaves as it was. -/
structure ClusterKeeps (obj obj' : Resident) : Prop where
  eligible : ∀ i, obj'.Eligible i ↔ obj.Eligible i
  resident : ∀ i, (obj' i).isSome = (obj i).isSome
  guarded : ∀ i, obj.Protected i → obj'.Protected i

lemma ClusterKeeps.refl (obj : Resident) : ClusterKeeps obj obj :=
  ⟨fun _ => .rfl, fun _ => rfl, fun _ => id⟩

lemma ClusterKeeps.trans {obj'' : Resident} (h : ClusterKeeps obj obj')
    (h' : ClusterKeeps obj' obj'') : ClusterKeeps obj obj'' :=
  ⟨fun i => (h'.eligible i).trans (h.eligible i),
    fun i => (h'.resident i).trans (h.resident i), fun i hi => h'.guarded i (h.guarded i hi)⟩

lemma ClusterKeeps.update {p' : LaundryPage} (hp : obj i = some p) (he : p'.Eligible ↔ p.Eligible)
    (hw : p'.writeable = true → p.writeable = true) :
    ClusterKeeps obj (update obj i (some p')) := by
  constructor
  · intro j
    unfold Resident.Eligible
    rcases eq_or_ne j i with rfl | hj
    · simp [hp, he]
    · simp [hj]
  · intro j
    rcases eq_or_ne j i with rfl | hj
    · simp [hp]
    · simp [hj]
  · intro j hprot q hq
    rcases eq_or_ne j i with rfl | hj
    · rw [update_self] at hq
      obtain rfl := Option.some.inj hq
      by_contra hne
      have := hprot p hp
      rw [hw (by simpa using hne)] at this
      cases this
    · rw [update_of_ne hj] at hq
      exact hprot q hq

/-- The test of a page decides on its eligibility, and a page that passes is protected. -/
lemma tryCluster_spec (obj : Resident) (i : ℕ) :
    ((tryCluster obj i).2 = true ↔ obj.Eligible i) ∧ ClusterKeeps obj (tryCluster obj i).1 ∧
      ((tryCluster obj i).2 = true → (tryCluster obj i).1.Protected i) := by
  unfold tryCluster
  cases hp : obj i with
  | none => simp [Resident.Eligible, hp, ClusterKeeps.refl]
  | some p =>
    have helig : obj.Eligible i ↔ p.Eligible := by simp [Resident.Eligible, hp]
    have htest : ClusterKeeps obj (Function.update obj i (some p.vm_page_test_dirty)) :=
      .update hp eligible_test_dirty (by rw [writeable_test_dirty]; exact id)
    have hprot : ClusterKeeps (Function.update obj i (some p.vm_page_test_dirty))
        (Function.update (Function.update obj i (some p.vm_page_test_dirty)) i
          (some p.vm_page_test_dirty.pmap_remove_write)) :=
      .update (update_self ..) eligible_remove_write nofun
    have hfields : p.vm_page_test_dirty.queue = p.queue ∧
        p.vm_page_test_dirty.hold_count = p.hold_count := by
      unfold LaundryPage.vm_page_test_dirty
      split <;> exact ⟨rfl, rfl⟩
    have hdirty := test_dirty_ne_zero (p := p)
    dsimp only
    rw [helig, LaundryPage.Eligible, ← hdirty, ← hfields.1, ← hfields.2]
    split_ifs with hbusy hclean hout
    · exact ⟨by simp [hbusy], .refl obj, nofun⟩
    · exact ⟨by simp [hclean], htest, nofun⟩
    · refine ⟨?_, htest, nofun⟩
      simp only [false_iff]
      exact fun h => hout.elim (fun hq => hq h.2.2.1) fun hh => hh h.2.2.2
    · refine ⟨?_, htest.trans hprot, fun _ q hq => ?_⟩ <;> dsimp only at *
      · rw [not_or, not_not, not_not] at hout
        exact iff_of_true rfl ⟨not_not.mp hbusy, hclean, hout⟩
      · rw [update_self] at hq
        exact Option.some.inj hq ▸ rfl

/-! ### The scans -/

/-- The forward scan cannot go on behind page `i`. -/
def AheadBlocked (obj : Resident) (size i : ℕ) : Prop := ¬(i + 1 < size ∧ obj.Eligible (i + 1))

/-- There is an alignment boundary below the page between the two indices. -/
def Boundary (n pindex lo : ℕ) : Prop := ∃ b, lo ≤ b ∧ b < pindex ∧ b % n = 0

/-- The cluster so far, of the pages from `pb` to `ps`. -/
structure Scanned (obj : Resident) (n pindex size : ℕ) (s : ClusterScan) : Prop where
  keeps : ClusterKeeps obj s.obj
  low : s.pb ≤ pindex
  high : pindex ≤ s.ps
  within : s.ps < size
  is : s.ps + 1 = pindex + s.is
  ib : s.ib = 0 ∨ s.pb + s.ib = pindex + 1
  count : s.pageout_count + s.pb = s.ps + 1
  base : s.page_base + pindex = n + s.pb
  room : s.pageout_count ≤ n
  mc : ∀ j, s.pb + j ≤ s.ps → s.mc (s.page_base + j) = some (s.pb + j)
  joined : ∀ j, s.pb ≤ j → j ≤ s.ps → (j = pindex ∨ obj.Eligible j) ∧ s.obj.Protected j
  blocked : s.ib = 0 → s.pb = 0 ∨ ¬obj.Eligible (s.pb - 1)
  back : pindex < s.ps → s.ib = 0 ∨ Boundary n pindex s.pb
  ahead : Boundary n pindex (s.pb + 1) → AheadBlocked obj size s.ps

variable {n pindex size : ℕ} {s s' : ClusterScan}

lemma Scanned.stop (h : Scanned obj n pindex size s) (hkeep : ClusterKeeps s.obj obj')
    (hb : s.pb = 0 ∨ ¬obj.Eligible (s.pb - 1)) :
    Scanned obj n pindex size { s with obj := obj', ib := 0 } where
  keeps := h.keeps.trans hkeep
  low := h.low
  high := h.high
  within := h.within
  is := h.is
  ib := .inl rfl
  count := h.count
  base := h.base
  room := h.room
  mc := h.mc
  joined j hj hj' := ⟨(h.joined j hj hj').1, hkeep.guarded j (h.joined j hj hj').2⟩
  blocked _ := hb
  back _ := .inl rfl
  ahead := h.ahead

lemma Scanned.down (h : Scanned obj n pindex size s) (hpos : s.pb ≠ 0) (hib : s.ib ≠ 0)
    (hroom : s.pageout_count < n) (hkeep : ClusterKeeps s.obj obj')
    (helig : obj.Eligible (s.pb - 1)) (hprot : obj'.Protected (s.pb - 1))
    (hahead : Boundary n pindex s.pb → AheadBlocked obj size s.ps) :
    Scanned obj n pindex size { s with
      obj := obj'
      mc := Function.update s.mc (s.page_base - 1) (some (s.pb - 1))
      page_base := s.page_base - 1
      pb := s.pb - 1
      pageout_count := s.pageout_count + 1
      ib := s.ib + 1 } := by
  have hlow := h.low
  have hhigh := h.high
  have hcount := h.count
  have hbase := h.base
  have hib' := h.ib.resolve_left hib
  refine ⟨h.keeps.trans hkeep, ?_, h.high, h.within, h.is, .inr ?_, ?_, ?_, hroom, fun j hj => ?_,
    fun j hj hj' => ?_, nofun, fun hp => ?_, fun hb => ?_⟩ <;> dsimp only at *
  · omega
  · omega
  · omega
  · omega
  · -- the pages of `mc` are found one place further on
    rcases Nat.eq_zero_or_pos j with rfl | hj0
    · simp
    · rw [update_of_ne (by omega), show s.page_base - 1 + j = s.page_base + (j - 1) by omega,
        h.mc (j - 1) (by omega)]
      congr 1
      omega
  · -- every page that has joined is eligible and protected
    rcases eq_or_ne j (s.pb - 1) with rfl | hne
    · exact ⟨.inr helig, hprot⟩
    · obtain ⟨he, hp⟩ := h.joined j (by omega) hj'
      exact ⟨he, hkeep.guarded j hp⟩
  · rcases h.back hp with hz | ⟨b, hb, hb'⟩
    · exact absurd hz hib
    · exact .inr ⟨b, by omega, hb'⟩
  · obtain ⟨b, hb, hb'⟩ := hb
    exact hahead ⟨b, by omega, hb'⟩

lemma Scanned.up (h : Scanned obj n pindex size s) (hroom : s.pageout_count < n)
    (hsize : s.ps + 1 < size) (hkeep : ClusterKeeps s.obj obj') (helig : obj.Eligible (s.ps + 1))
    (hprot : obj'.Protected (s.ps + 1)) (hback : s.ib = 0 ∨ Boundary n pindex s.pb) :
    Scanned obj n pindex size { s with
      obj := obj'
      mc := Function.update s.mc (s.page_base + s.pageout_count) (some (s.ps + 1))
      ps := s.ps + 1
      pageout_count := s.pageout_count + 1
      is := s.is + 1 } := by
  have hlow := h.low
  have hhigh := h.high
  have hcount := h.count
  have his := h.is
  refine ⟨h.keeps.trans hkeep, h.low, ?_, hsize, ?_, h.ib, ?_, h.base, hroom, fun j hj => ?_,
    fun j hj hj' => ?_, h.blocked, fun _ => hback, fun hb => ?_⟩ <;> dsimp only at *
  · omega
  · omega
  · omega
  · -- the new page is the last one of `mc`
    rcases eq_or_ne j s.pageout_count with rfl | hne
    · rw [update_self]
      congr 1
      omega
    · rw [update_of_ne (by omega)]
      exact h.mc j (by omega)
  · rcases eq_or_ne j (s.ps + 1) with rfl | hne
    · exact ⟨.inr helig, hprot⟩
    · obtain ⟨he, hp⟩ := h.joined j hj (by omega)
      exact ⟨he, hkeep.guarded j hp⟩
  · exact absurd ⟨hsize, helig⟩ (h.ahead hb)

/-- Where the reverse scan leaves off: no room, nothing more to take, or a boundary. -/
def ReverseDone (n pindex : ℕ) (s : ClusterScan) : Prop :=
  s.pageout_count = n ∨ s.ib = 0 ∨ s.pb < pindex ∧ s.pb % n = 0

lemma eligible_of_prev {m : ℕ} (h : vm_page_prev obj m = none) (hm : m ≠ 0) :
    ¬obj.Eligible (m - 1) := by
  rintro ⟨p, hp, -⟩
  simp [vm_page_prev, hm, hp] at h

lemma eligible_of_next {m : ℕ} (h : vm_page_next obj m = none) : ¬obj.Eligible (m + 1) := by
  rintro ⟨p, hp, -⟩
  simp [vm_page_next, hp] at h

/-- The reverse scan, by induction on the rounds: it ends below no boundary but where the forward
scan is blocked, and it makes progress. -/
lemma reverseScan_spec (fuel : ℕ) (h : Scanned obj n pindex size s)
    (hfuel : n < s.pageout_count + fuel)
    (hahead : Boundary n pindex s.pb → AheadBlocked obj size s.ps) :
    ∃ s', reverseScan n pindex fuel s = some s' ∧ Scanned obj n pindex size s' ∧
      ReverseDone n pindex s' ∧ s'.ps = s.ps ∧ s.pageout_count ≤ s'.pageout_count ∧
      (s.ib ≠ 0 → s.pageout_count < n → s'.ib = 0 ∨ s.pageout_count < s'.pageout_count) := by
  have hroom := h.room
  induction fuel generalizing s with
  | zero => omega
  | succ fuel ih =>
    unfold reverseScan
    split
    case isFalse hend =>
      -- the cluster is full, or was closed at this end
      refine ⟨s, rfl, h, ?_, rfl, le_rfl, fun hib hlt => absurd ⟨hib, hlt⟩ hend⟩
      rcases eq_or_ne s.ib 0 with hib | hib
      · exact .inr (.inl hib)
      · exact .inl (by omega)
    case isTrue hgo =>
      obtain ⟨hib, hlt⟩ := hgo
      have hib' := h.ib.resolve_left hib
      have hbase := h.base
      have hcount := h.count
      have hlow := h.low
      split
      case isTrue hend =>
        -- no index is left below
        exact ⟨_, rfl, h.stop (.refl _) (.inl (by omega)), .inr (.inl rfl), rfl, le_rfl,
          fun _ _ => .inl rfl⟩
      case isFalse hpos =>
        have hpb : s.pb ≠ 0 := by omega
        cases hprev : vm_page_prev s.obj s.pb with
        | none =>
          have hno : ¬obj.Eligible (s.pb - 1) := by
            rw [← h.keeps.eligible]
            exact eligible_of_prev hprev hpb
          exact ⟨_, rfl, h.stop (.refl _) (.inr hno), .inr (.inl rfl), rfl, le_rfl,
            fun _ _ => .inl rfl⟩
        | some q =>
          obtain rfl : q = s.pb - 1 := by
            unfold vm_page_prev at hprev
            split at hprev
            · exact (Option.some.inj hprev).symm
            · cases hprev
          obtain ⟨hok, hkeep, hprot⟩ := tryCluster_spec s.obj (s.pb - 1)
          rw [h.keeps.eligible] at hok
          dsimp only
          generalize tryCluster s.obj (s.pb - 1) = r at hok hkeep hprot
          obtain ⟨obj', ok⟩ := r
          dsimp only at hok hkeep hprot ⊢
          cases ok with
          | false =>
            -- the page is there, but cannot go
            have hno : ¬obj.Eligible (s.pb - 1) := fun he => Bool.false_ne_true (hok.mpr he)
            exact ⟨_, rfl, h.stop hkeep (.inr hno), .inr (.inl rfl), rfl, le_rfl,
              fun _ _ => .inl rfl⟩
          | true =>
            have hdown := h.down hpb hib hlt hkeep (hok.mp rfl) (hprot rfl) hahead
            have hhigh := h.high
            have hin : ¬(s.page_base = 0 ∨ 2 * n < s.page_base) := by omega
            rw [if_neg (by decide), if_neg hin]
            have hindex : pindex - (s.ib + 1 - 1) = s.pb - 1 := by omega
            rw [hindex]
            split
            case isTrue hbound =>
              -- the page that has joined is on a boundary
              refine ⟨_, rfl, hdown, .inr (.inr ⟨?_, hbound⟩), rfl, ?_, fun _ _ => .inr ?_⟩ <;>
                dsimp only <;> omega
            case isFalse hbound =>
              have hnext : Boundary n pindex (s.pb - 1) → AheadBlocked obj size s.ps := by
                rintro ⟨b, hb, hb'⟩
                -- the boundary is above the page that has joined
                have hne : b ≠ s.pb - 1 := fun he => hbound (he ▸ hb'.2)
                exact hahead ⟨b, by omega, hb'⟩
              obtain ⟨s', hs', hscan, hdone, hps, hle, -⟩ :=
                ih hdown (by dsimp only; omega) hnext hdown.room
              dsimp only at hps hle
              exact ⟨s', hs', hscan, hdone, hps, by omega, fun _ _ => .inr (by omega)⟩

/-- The forward scan, by induction on the rounds. -/
lemma forwardScan_spec (fuel : ℕ) (h : Scanned obj n pindex size s)
    (hfuel : n < s.pageout_count + fuel) (hback : ReverseDone n pindex s) :
    ∃ s', forwardScan n pindex size fuel s = some s' ∧ Scanned obj n pindex size s' ∧
      (s'.pageout_count = n ∨ AheadBlocked obj size s'.ps) ∧ s'.ib = s.ib ∧
      s.pageout_count ≤ s'.pageout_count ∧ (s'.pageout_count = n ∨ ReverseDone n pindex s') := by
  have hroom := h.room
  induction fuel generalizing s with
  | zero => omega
  | succ fuel ih =>
    have his := h.is
    unfold forwardScan
    split
    case isFalse hend =>
      refine ⟨s, rfl, h, ?_, rfl, le_rfl, .inr hback⟩
      by_cases hlt : s.pageout_count < n
      · exact .inr fun hsize => hend ⟨hlt, by omega⟩
      · exact .inl (by omega)
    case isTrue hgo =>
      obtain ⟨hlt, hsize⟩ := hgo
      have hbase := h.base
      have hcount := h.count
      have hlow := h.low
      cases hnext : vm_page_next s.obj s.ps with
      | none =>
        have hno : ¬obj.Eligible (s.ps + 1) := by
          rw [← h.keeps.eligible]
          exact eligible_of_next hnext
        exact ⟨s, rfl, h, .inr fun hgo => hno hgo.2, rfl, le_rfl, .inr hback⟩
      | some q =>
        obtain rfl : q = s.ps + 1 := by
          unfold vm_page_next at hnext
          split at hnext
          · exact (Option.some.inj hnext).symm
          · cases hnext
        obtain ⟨hok, hkeep, hprot⟩ := tryCluster_spec s.obj (s.ps + 1)
        rw [h.keeps.eligible] at hok
        dsimp only
        generalize tryCluster s.obj (s.ps + 1) = r at hok hkeep hprot
        obtain ⟨obj', ok⟩ := r
        dsimp only at hok hkeep hprot ⊢
        cases ok with
        | false =>
          -- the page is there, but cannot go
          have hno : ¬obj.Eligible (s.ps + 1) := fun he => Bool.false_ne_true (hok.mpr he)
          refine ⟨_, rfl, ?_, .inr fun hgo => hno hgo.2, rfl, le_rfl, .inr hback⟩
          exact { h with
            keeps := h.keeps.trans hkeep
            joined := fun j hj hj' => ⟨(h.joined j hj hj').1,
              hkeep.guarded j (h.joined j hj hj').2⟩ }
        | true =>
          -- a page joins here only when the reverse scan had to stop
          have hreach : s.ib = 0 ∨ Boundary n pindex s.pb := by
            rcases hback with hfull | hib | hbound
            · omega
            · exact .inl hib
            · exact .inr ⟨s.pb, le_rfl, hbound⟩
          have hup := h.up hlt (by omega) hkeep (hok.mp rfl) (hprot rfl) hreach
          have hin : ¬2 * n ≤ s.page_base + s.pageout_count := by omega
          rw [if_neg (by decide), if_neg hin]
          have hback' : ReverseDone n pindex { s with
              obj := obj'
              mc := update s.mc (s.page_base + s.pageout_count) (some (s.ps + 1))
              ps := s.ps + 1
              pageout_count := s.pageout_count + 1
              is := s.is + 1 } := .inr (hback.resolve_left (by omega))
          obtain ⟨s', hs', hscan, hdone, hib, hle, hrev⟩ :=
            ih hup (by dsimp only; omega) hback' hup.room
          dsimp only at hib hle
          exact ⟨s', hs', hscan, hdone, hib, by omega, hrev⟩

/-- Both scans until neither can go on, by induction on how often they are made. -/
lemma clusterMore_spec (fuel : ℕ) (h : Scanned obj n pindex size s)
    (hfuel : n < s.pageout_count + fuel) (hib : s.ib ≠ 0)
    (hahead : Boundary n pindex s.pb → AheadBlocked obj size s.ps) :
    ∃ s', clusterMore n pindex size fuel s = some s' ∧ Scanned obj n pindex size s' ∧
      (s'.pageout_count = n ∨ s'.ib = 0 ∧ AheadBlocked obj size s'.ps) := by
  have hroom := h.room
  induction fuel generalizing s with
  | zero => omega
  | succ fuel ih =>
    obtain ⟨s₁, hs₁, hscan₁, hdone₁, hps₁, hle₁, hprog⟩ :=
      reverseScan_spec (n + 1) h (by omega) hahead
    obtain ⟨s₂, hs₂, hscan₂, hdone₂, hib₂, hle₂, -⟩ :=
      forwardScan_spec (n + 1) hscan₁ (by omega) hdone₁
    have hstep : clusterMore n pindex size (fuel + 1) s =
        if s₂.ib ≠ 0 ∧ s₂.pageout_count < n then clusterMore n pindex size fuel s₂
        else some s₂ := by
      rw [clusterMore, hs₁]
      change (forwardScan n pindex size (n + 1) s₁ >>= _) = _
      rw [hs₂]
      rfl
    rw [hstep]
    have hroom₂ := hscan₂.room
    split
    case isFalse hend =>
      refine ⟨s₂, rfl, hscan₂, ?_⟩
      by_cases hfull : s₂.pageout_count = n
      · exact .inl hfull
      · refine .inr ⟨?_, hdone₂.resolve_left hfull⟩
        by_contra hne
        exact hend ⟨hne, by omega⟩
    case isTrue hgo =>
      have hmore : s.pageout_count < s₁.pageout_count :=
        (hprog hib (by omega)).resolve_left (hib₂ ▸ hgo.1)
      exact ih hscan₂ (by omega) hgo.1 (fun _ => hdone₂.resolve_left (by omega)) hroom₂

/-! ### The cluster -/

/-- The pages from `lo` to `hi` are the cluster of the page `pindex`. -/
structure IsCluster (obj : Resident) (n pindex size lo hi : ℕ) : Prop where
  low : lo ≤ pindex
  high : pindex ≤ hi
  within : hi < size
  room : hi + 1 ≤ lo + n
  eligible : ∀ j, lo ≤ j → j ≤ hi → j ≠ pindex → obj.Eligible j
  /-- No page behind the first is taken while there are pages to take up to the boundary. -/
  back : pindex < hi → lo = 0 ∨ ¬obj.Eligible (lo - 1) ∨ Boundary n pindex lo
  /-- No page below a boundary is taken while there are pages to take behind. -/
  ahead : Boundary n pindex (lo + 1) → AheadBlocked obj size hi
  maximal : hi + 1 = lo + n ∨ (lo = 0 ∨ ¬obj.Eligible (lo - 1)) ∧ AheadBlocked obj size hi

lemma Scanned.isCluster (h : Scanned obj n pindex size s)
    (hdone : s.pageout_count = n ∨ s.ib = 0 ∧ AheadBlocked obj size s.ps) :
    IsCluster obj n pindex size s.pb s.ps where
  low := h.low
  high := h.high
  within := h.within
  room := by have := h.count; have := h.room; omega
  eligible j hj hj' hne := (h.joined j hj hj').1.resolve_left hne
  back hp := by
    rcases h.back hp with hib | hbound
    · exact (h.blocked hib).imp_right .inl
    · exact .inr (.inr hbound)
  ahead := h.ahead
  maximal := by
    have := h.count
    exact hdone.imp (fun hfull => by omega) fun hstop => ⟨h.blocked hstop.1, hstop.2⟩

lemma Scanned.pages (h : Scanned obj n pindex size s) :
    ((List.range s.pageout_count).map fun i => s.mc (s.page_base + i)) =
      (List.range' s.pb (s.ps + 1 - s.pb)).map some := by
  have hcount := h.count
  rw [show s.ps + 1 - s.pb = s.pageout_count by omega, List.range'_eq_map_range, List.map_map]
  refine List.map_congr_left fun j hj => ?_
  rw [List.mem_range] at hj
  exact h.mc j (by omega)

/-- A cluster that begins before another one would have to end before it as well, and then the
other one has been extended the wrong way. -/
lemma IsCluster.low_unique {lo hi lo' hi' : ℕ} (h : IsCluster obj n pindex size lo hi)
    (h' : IsCluster obj n pindex size lo' hi') : lo ≤ lo' := by
  by_contra hlt
  have hlow := h.low
  have hhigh' := h'.high
  have helig : obj.Eligible (lo - 1) := h'.eligible _ (by omega) (by omega) (by omega)
  have hfull : hi + 1 = lo + n :=
    h.maximal.resolve_right fun hstop => hstop.1.elim (by omega) fun hno => hno helig
  have hroom' := h'.room
  have hwithin := h.within
  have hnext : ¬AheadBlocked obj size hi' := fun hblocked =>
    hblocked ⟨by omega, h.eligible _ (by omega) (by omega) (by omega)⟩
  obtain ⟨b, hb, hb'⟩ : Boundary n pindex lo :=
    ((h.back (by omega)).resolve_left (by omega)).resolve_left fun hno => hno helig
  exact hnext (h'.ahead ⟨b, by omega, hb'⟩)

lemma IsCluster.unique {lo hi lo' hi' : ℕ} (h : IsCluster obj n pindex size lo hi)
    (h' : IsCluster obj n pindex size lo' hi') : lo' = lo ∧ hi' = hi := by
  have hlo : lo' = lo := le_antisymm (h'.low_unique h) (h.low_unique h')
  subst hlo
  have hle : ∀ {i j : ℕ}, IsCluster obj n pindex size lo' i → IsCluster obj n pindex size lo' j →
      j ≤ i := fun {i j} hi hj => by
    by_contra hlt
    have hhigh := hi.high
    have hlow := hi.low
    have hroom := hj.room
    have hwithin := hj.within
    have hnext : ¬AheadBlocked obj size i := fun hblocked =>
      hblocked ⟨by omega, hj.eligible _ (by omega) (by omega) (by omega)⟩
    have hfull := hi.maximal.resolve_right fun hstop => hnext hstop.2
    omega
  exact ⟨rfl, le_antisymm (hle h h') (hle h' h)⟩

/-- **The cluster** of a page is a run of the object's pages around it that are all eligible and
protected from being written. It never leaves the array, is no longer than a cluster may be,
prefers the pages up to an alignment boundary, and cannot be extended; no other run is like
that. -/
theorem vm_pageout_cluster_spec (hm : (obj pindex).isSome) (hn : 0 < n) (hsize : pindex < size) :
    ∃ lo hi obj', vm_pageout_cluster n pindex size obj =
        some (obj', (List.range' lo (hi + 1 - lo)).map some) ∧
      IsCluster obj n pindex size lo hi ∧
      (∀ lo' hi', IsCluster obj n pindex size lo' hi' → lo' = lo ∧ hi' = hi) ∧
      (∀ j, lo ≤ j → j ≤ hi → obj'.Protected j) ∧ ∀ j, obj'.Eligible j ↔ obj.Eligible j := by
  obtain ⟨p, hp⟩ := Option.isSome_iff_exists.mp hm
  have hkeep : ClusterKeeps obj (update obj pindex (some p.pmap_remove_write)) :=
    .update hp eligible_remove_write nofun
  have hstart : Scanned obj n pindex size
      { obj := update obj pindex (some p.pmap_remove_write)
        mc := update (fun _ => none) n (some pindex)
        pb := pindex
        ps := pindex
        ib := 1
        is := 1
        page_base := n
        pageout_count := 1 } := by
    refine ⟨hkeep, le_rfl, le_rfl, hsize, rfl, .inr rfl, Nat.add_comm .., rfl, hn, fun j hj => ?_,
      fun j hj hj' => ⟨.inl (le_antisymm hj' hj), fun q hq => ?_⟩, nofun,
      fun hlt => absurd hlt (lt_irrefl _), fun ⟨b, hb, hb', _⟩ => ?_⟩ <;> dsimp only at *
    · obtain rfl : j = 0 := by omega
      simp
    · obtain rfl : j = pindex := le_antisymm hj' hj
      rw [update_self] at hq
      exact Option.some.inj hq ▸ rfl
    · omega
  obtain ⟨s, hs, hscan, hdone⟩ := clusterMore_spec (n + 1) hstart (by dsimp only; omega)
    Nat.one_ne_zero fun ⟨b, hb, hb', _⟩ => absurd hb' (not_lt.mpr hb)
  refine ⟨s.pb, s.ps, s.obj, ?_, hscan.isCluster hdone, fun _ _ => (hscan.isCluster hdone).unique,
    fun j hj hj' => (hscan.joined j hj hj').2, hscan.keeps.eligible⟩
  rw [vm_pageout_cluster, hp, Option.map_some]
  rw [hs, ← hscan.pages]
  rfl

/-- Six pages of which the one at index 4 is to be laundered; the one at index 5 is busy. -/
def sixPages : Resident := fun i =>
  if i < 6 then some ⟨if i = 5 then 2 else 1, 255, 2, 0, false, true⟩ else none

theorem vm_pageout_cluster_spec_six : ∃ lo hi obj',
    vm_pageout_cluster 4 4 8 sixPages = some (obj', (List.range' lo (hi + 1 - lo)).map some) ∧
      IsCluster sixPages 4 4 8 lo hi := by
  obtain ⟨lo, hi, obj', heq, hc, -⟩ :=
    vm_pageout_cluster_spec (show (sixPages 4).isSome by decide) (show 0 < 4 by decide)
      (show 4 < 8 by decide)
  exact ⟨lo, hi, obj', heq, hc⟩

end Messaround.Pager
