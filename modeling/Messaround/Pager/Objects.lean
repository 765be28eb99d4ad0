import Mathlib.Order.Fin.Basic
import Messaround.Lib.Tailq
import Messaround.Lib.Trie
import Messaround.Pager.Page

/-!
The resident pages of the objects in vm_page.c.

An object has its pages in a trie by index and on a list in the order of their indices, and
counts them. The trie is a parameter here, with what vm_radix promises: a page is stored under
the index that it has at the time. The locks and the assertions about them are left out.
-/

namespace Messaround.Pager.Residents

variable {P τ : Type}

/-! ### Pages and objects -/

/-- `vm_pindex_t`. -/
abbrev Pindex := Fin ULONG_SIZE

instance : NeZero ULONG_SIZE := ⟨by decide⟩

abbrev Radix (P τ : Type) := Trie Pindex P τ

structure Page extends Pager.Page where
  pindex : Pindex
  valid : BitVec 8
  xbusied : Bool
  /-- `pmap_page_is_write_mapped`. -/
  write_mapped : Bool

structure Object (P τ : Type) where
  memq : List P
  rtree : τ
  resident_page_count : ℤ
  /-- `type == OBJT_VNODE`. -/
  vnode : Bool
  /-- The holds on the vnode for the pages. -/
  holds : ℤ
  /-- `OBJ_MIGHTBEDIRTY`. -/
  mightbedirty : Bool

structure Vm (P τ : Type) where
  page : P → Page
  object : ℕ → Object P τ

/-- What stops the kernel. -/
inductive Kassert
  /-- "page already inserted" -/
  | inserted
  /-- "object doesn't contain mpred" -/
  | mpredObject
  /-- "mpred doesn't precede pindex" -/
  | mpredPindex
  /-- "msucc doesn't succeed pindex" -/
  | msuccPindex
  /-- "page has inconsistent object" -/
  | inconsistent
  /-- "removed page, expected page" -/
  | removed
  /-- `TAILQ_REMOVE` of a page from a list it is not on. -/
  | notListed
  /-- "page already in object" -/
  | inObject
  /-- "new page is on a paging queue" -/
  | newQueued
  /-- "old page is on a paging queue" -/
  | oldQueued
  /-- The panic of `vm_radix_replace`. -/
  | noPage
  /-- "pindex already renamed" -/
  | renamed
  /-- The page is not exclusive busied. -/
  | notBusied
  /-- "page is invalid!" -/
  | invalid
  /-- `MPASS(next->object == m->object)` -/
  | neighbour
  /-- The lock of no object. -/
  | noObject

variable [DecidableEq P]

namespace Vm

variable (v : Vm P τ) (m : P) (p : Page) (o : ℕ) (b : Object P τ)

def setPage : Vm P τ := { v with page := Function.update v.page m p }

omit [DecidableEq P] in
def setObject : Vm P τ := { v with object := Function.update v.object o b }

@[simp] lemma page_setPage : (v.setPage m p).page = Function.update v.page m p := rfl
@[simp] lemma object_setPage : (v.setPage m p).object = v.object := rfl

end Vm

/-- The list with `m` behind `mpred`, or at its head. -/
def linked (l : List P) (m : P) : Option P → List P
  | some mpred => TAILQ_INSERT_AFTER mpred m l
  | none => m :: l

/-- The page behind `mpred`, or the first one. -/
def msucc (l : List P) : Option P → Option P
  | some mpred => TAILQ_NEXT mpred l
  | none => l.head?

section routines

variable (x : Radix P τ) (v : Vm P τ) (m : P) (o : ℕ) (i : Pindex)

/-- The assertions about the page before. -/
def checkMpred : Option P → Except Kassert Unit
  | none => .ok ()
  | some mpred =>
    if (v.page mpred).object ≠ some o then .error .mpredObject
    else if ¬ (v.page mpred).pindex < i then .error .mpredPindex
    else .ok ()

/-- The assertion about the page behind. -/
def checkMsucc : Option P → Except Kassert Unit
  | none => .ok ()
  | some msucc => if ¬ i < (v.page msucc).pindex then .error .msuccPindex else .ok ()

def vm_page_insert_radixdone (mpred : Option P) : Except Kassert (Vm P τ) :=
  if (v.page m).object ≠ some o then .error .inconsistent
  else do
    checkMpred v o (v.page m).pindex mpred
    let b := v.object o
    let count := b.resident_page_count + 1
    return v.setObject o
      { b with
        memq := linked b.memq m mpred
        resident_page_count := count
        holds := if count = 1 ∧ b.vnode then b.holds + 1 else b.holds
        mightbedirty := b.mightbedirty || (v.page m).write_mapped }

/-- The result is 1 where the trie has no memory. -/
def vm_page_insert_after (mpred : Option P) : Except Kassert (ℤ × Vm P τ) :=
  if (v.page m).object ≠ none then .error .inserted
  else do
    checkMpred v o i mpred
    checkMsucc v i (msucc (v.object o).memq mpred)
    let v := v.setPage m { v.page m with object := some o, pindex := i }
    match x.insert (v.object o).rtree i m with
    | none => return (1, v.setPage m { v.page m with object := none, pindex := 0 })
    | some t =>
      let v ← vm_page_insert_radixdone (v.setObject o { v.object o with rtree := t }) m o mpred
      return (0, v)

def vm_page_insert : Except Kassert (ℤ × Vm P τ) :=
  vm_page_insert_after x v m o i (x.lookup_le (v.object o).rtree i)

def vm_page_remove : Except Kassert (Vm P τ) :=
  match (v.page m).object with
  | none => .ok v
  | some o =>
    let b := v.object o
    if x.lookup b.rtree (v.page m).pindex ≠ some m then .error .removed
    else do
      let l ← TAILQ_REMOVE .notListed b.memq m
      let count := b.resident_page_count - 1
      return (v.setPage m { v.page m with object := none, xbusied := false }).setObject o
        { b with
          memq := l
          rtree := x.remove b.rtree (v.page m).pindex
          resident_page_count := count
          holds := if count = 0 ∧ b.vnode then b.holds - 1 else b.holds }

def vm_page_xunbusy_maybelocked : Except Kassert (Vm P τ) :=
  if (v.page m).xbusied then .ok (v.setPage m { v.page m with xbusied := false })
  else .error .notBusied

def vm_page_dirty : Except Kassert (Vm P τ) :=
  if (v.page m).valid = VM_PAGE_BITS_ALL then
    .ok (v.setPage m { v.page m with dirty := VM_PAGE_BITS_ALL })
  else .error .invalid

def vm_page_lookup : Option P := x.lookup (v.object o).rtree i

def vm_page_find_least : Option P :=
  match (v.object o).memq.head? with
  | some m => if (v.page m).pindex < i then x.lookup_ge (v.object o).rtree i else some m
  | none => none

/-- The page behind `m` on the list `l`, if it has the index `k`. -/
def neighbour (l : List P) (k : Pindex) : Except Kassert (Option P) :=
  match TAILQ_NEXT m l with
  | none => .ok none
  | some p =>
    if (v.page p).object ≠ (v.page m).object then .error .neighbour
    else if (v.page p).pindex ≠ k then .ok none
    else .ok (some p)

def vm_page_next : Except Kassert (Option P) :=
  match (v.page m).object with
  | none => .error .noObject
  | some o => neighbour v m (v.object o).memq ((v.page m).pindex + 1)

/-- `TAILQ_PREV` goes the other way. -/
def vm_page_prev : Except Kassert (Option P) :=
  match (v.page m).object with
  | none => .error .noObject
  | some o => neighbour v m (v.object o).memq.reverse ((v.page m).pindex - 1)

/-- The result is the page that was replaced. -/
def vm_page_replace : Except Kassert (P × Vm P τ) :=
  let b := v.object o
  if (v.page m).object ≠ none then .error .inObject
  else if (v.page m).queue ≠ PQ_NONE then .error .newQueued
  else match x.lookup b.rtree i with
    | none => .error .noPage
    | some mold =>
      if (v.page mold).queue ≠ PQ_NONE then .error .oldQueued
      else do
        let l ← TAILQ_REMOVE .notListed (TAILQ_INSERT_AFTER mold m b.memq) mold
        let v := v.setPage m { v.page m with object := some o, pindex := i }
        let v := v.setPage mold { v.page mold with object := none }
        let v ← vm_page_xunbusy_maybelocked v mold
        return (mold, v.setObject o
          { b with
            memq := l
            rtree := x.replace b.rtree i m
            mightbedirty := b.mightbedirty || (v.page m).write_mapped })

/-- The page is in the trie of the new object before it leaves the old one. -/
def vm_page_rename : Except Kassert (ℤ × Vm P τ) :=
  let mpred := x.lookup_le (v.object o).rtree i
  if (mpred.map fun p => (v.page p).pindex) = some i then .error .renamed
  else match x.insert (v.object o).rtree i m with
    | none => .ok (1, v)
    | some t => do
      let v ← vm_page_remove x (v.setObject o { v.object o with rtree := t }) m
      let v := v.setPage m { v.page m with object := some o, pindex := i }
      let v ← vm_page_insert_radixdone v m o mpred
      return (0, ← vm_page_dirty v m)

end routines

/-! ### The invariant -/

section invariant

variable (x : Radix P τ)

/-- The list, the trie and the count of the object `o` are of the same pages. -/
structure Vm.Lists (v : Vm P τ) (o : ℕ) : Prop where
  sorted : ((v.object o).memq.map fun m => (v.page m).pindex).Pairwise (· < ·)
  listed : ∀ m, m ∈ (v.object o).memq ↔ (v.page m).object = some o
  stored : ∀ i m, x.lookup (v.object o).rtree i = some m ↔
    (v.page m).object = some o ∧ (v.page m).pindex = i
  count : (v.object o).resident_page_count = (v.object o).memq.length
  /-- A vnode is held while there are pages. -/
  holds : (v.object o).holds = if (v.object o).memq ≠ [] ∧ (v.object o).vnode then 1 else 0

def Vm.Sound (v : Vm P τ) : Prop := ∀ o, v.Lists x o

end invariant

variable {x : Radix P τ} {v v' : Vm P τ} {m mold : P} {o : ℕ} {i : Pindex} {l pre post : List P}

omit [DecidableEq P] in
lemma Vm.Lists.congr (h : v.Lists x o) (hobj : v'.object o = v.object o)
    (hin : ∀ p, (v'.page p).object = some o ↔ (v.page p).object = some o)
    (hidx : ∀ p, (v.page p).object = some o → (v'.page p).pindex = (v.page p).pindex) :
    v'.Lists x o := by
  refine ⟨?_, fun p => ?_, fun k p => ?_, ?_, ?_⟩ <;> rw [hobj]
  · rw [List.map_congr_left fun p hp => hidx p ((h.listed p).mp hp)]
    exact h.sorted
  · rw [h.listed, hin]
  · rw [h.stored, hin]
    exact and_congr_right fun hp => by rw [hidx p hp]
  · exact h.count
  · exact h.holds

omit [DecidableEq P] in
lemma Vm.Lists.nodup (h : v.Lists x o) : (v.object o).memq.Nodup :=
  List.Nodup.of_map _ (h.sorted.imp fun hlt => Fin.ne_of_lt hlt)

omit [DecidableEq P] in
lemma Vm.Lists.lookup_none (h : v.Lists x o) (hi : x.lookup (v.object o).rtree i = none) {p : P}
    (hp : (v.page p).object = some o) : (v.page p).pindex ≠ i := by
  intro hidx
  rw [(h.stored i p).mpr ⟨hp, hidx⟩] at hi
  cases hi

/-- The place of a new index in the list. -/
structure Place (v : Vm P τ) (o : ℕ) (i : Pindex) (mpred : Option P) (pre post : List P) : Prop where
  memq : (v.object o).memq = pre ++ post
  before : ∀ p ∈ pre, (v.page p).pindex < i
  behind : ∀ p ∈ post, i < (v.page p).pindex
  mpred : mpred = pre.getLast?

omit [DecidableEq P] in
/-- **The trie finds the place in the list.** -/
lemma Vm.Lists.place (h : v.Lists x o) (hx : x.Lawful)
    (hi : x.lookup (v.object o).rtree i = none) :
    ∃ pre post, Place v o i (x.lookup_le (v.object o).rtree i) pre post := by
  have hsorted := h.sorted
  rw [List.pairwise_map] at hsorted
  cases hle : x.lookup_le (v.object o).rtree i with
  | none =>
    refine ⟨[], (v.object o).memq, rfl, by simp, fun p hp => ?_, rfl⟩
    have hobj := (h.listed p).mp hp
    by_contra hlt
    have hnone := hx.le_none _ _ hle _ (not_lt.mp hlt)
    exact h.lookup_none hnone hobj rfl
  | some mpred =>
    obtain ⟨j, hj, hat, hgap⟩ := hx.le_some _ _ _ hle
    obtain ⟨hobj, hidx⟩ := (h.stored j mpred).mp hat
    obtain ⟨s, t, hst⟩ := List.append_of_mem ((h.listed mpred).mpr hobj)
    have hlt : j < i := by
      refine lt_of_le_of_ne hj fun he => ?_
      rw [he, hi] at hat
      cases hat
    rw [hst] at hsorted
    obtain ⟨-, htail, hcross⟩ := List.pairwise_append.mp hsorted
    refine ⟨s ++ [mpred], t, by rw [hst, List.append_assoc]; rfl, fun p hp => ?_, fun p hp => ?_,
      by rw [List.getLast?_concat]⟩
    · rcases List.mem_append.mp hp with hp | hp
      · exact (hcross p hp mpred List.mem_cons_self).trans (hidx ▸ hlt)
      · rw [List.mem_singleton.mp hp, hidx]
        exact hlt
    · have hjp := (List.pairwise_cons.mp htail).1 p hp
      have hp' := (h.listed p).mp (by rw [hst]; simp [hp])
      by_contra hle'
      exact h.lookup_none (hgap _ (hidx ▸ hjp) (not_lt.mp hle')) hp' rfl

namespace Place

variable {mpred : Option P} (h : Place v o i mpred pre post)
include h

omit [DecidableEq P] in
lemma mem_of_mpred {p : P} (hp : mpred = some p) : p ∈ pre :=
  List.mem_of_getLast? (h.mpred ▸ hp)

lemma linked_eq (hnd : (v.object o).memq.Nodup) :
    linked (v.object o).memq m mpred = pre ++ m :: post := by
  cases hp : mpred with
  | none =>
    have hpre := h.mpred
    rw [hp, eq_comm, List.getLast?_eq_none_iff] at hpre
    rw [linked, h.memq, hpre, List.nil_append, List.nil_append]
  | some p =>
    have hpre := h.mpred
    rw [hp, eq_comm, List.getLast?_eq_some_iff] at hpre
    obtain ⟨s, rfl⟩ := hpre
    have hmemq := h.memq
    rw [List.append_assoc, List.singleton_append] at hmemq
    rw [hmemq] at hnd
    rw [linked, hmemq, TAILQ_INSERT_AFTER_append (notMem_parts hnd).1, List.append_assoc,
      List.singleton_append]

lemma msucc_eq (hnd : (v.object o).memq.Nodup) :
    msucc (v.object o).memq mpred = post.head? := by
  cases hp : mpred with
  | none =>
    have hpre := h.mpred
    rw [hp, eq_comm, List.getLast?_eq_none_iff] at hpre
    rw [msucc, h.memq, hpre, List.nil_append]
  | some p =>
    have hpre := h.mpred
    rw [hp, eq_comm, List.getLast?_eq_some_iff] at hpre
    obtain ⟨s, rfl⟩ := hpre
    have hmemq := h.memq
    rw [List.append_assoc, List.singleton_append] at hmemq
    rw [hmemq] at hnd
    rw [msucc, hmemq, TAILQ_NEXT_append (notMem_parts hnd).1]

omit [DecidableEq P] in
lemma checkMpred_ok (hl : v.Lists x o) {w : Vm P τ}
    (hw : ∀ q ∈ (v.object o).memq, w.page q = v.page q) : checkMpred w o i mpred = .ok () := by
  cases hp : mpred with
  | none => rfl
  | some q =>
    have hq := h.mem_of_mpred hp
    have hmem : q ∈ (v.object o).memq := by
      rw [h.memq]
      exact List.mem_append_left _ hq
    rw [checkMpred, hw q hmem, if_neg (not_not.mpr ((hl.listed q).mp hmem)),
      if_neg (not_not.mpr (h.before q hq))]

omit [DecidableEq P] in
lemma checkMsucc_ok : checkMsucc v i post.head? = .ok () := by
  cases hp : post.head? with
  | none => rfl
  | some q => rw [checkMsucc, if_neg (not_not.mpr (h.behind q (List.mem_of_mem_head? hp)))]

end Place

/-! ### The table of the pages -/

/-- The page at each index of each object. -/
abbrev Table (P : Type) := ℕ → Pindex → Option P

def Table.put (s : Table P) (o : ℕ) (i : Pindex) (m : P) : Table P :=
  Function.update s o (Function.update (s o) i (some m))

def Table.detach (s : Table P) (m : P) : Table P := fun o i =>
  if s o i = some m then none else s o i

def Vm.table (x : Radix P τ) (v : Vm P τ) : Table P := vm_page_lookup x v

omit [DecidableEq P] in
lemma Vm.table_apply (v : Vm P τ) (o : ℕ) : v.table x o = x.lookup (v.object o).rtree := rfl

omit [DecidableEq P] in
lemma Vm.Sound.table_eq (hs : v.Sound x) :
    v.table x o i = some m ↔ (v.page m).object = some o ∧ (v.page m).pindex = i :=
  (hs o).stored i m

end Messaround.Pager.Residents
