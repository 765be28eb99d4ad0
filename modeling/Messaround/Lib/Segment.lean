import Mathlib.Data.List.Nodup
import Mathlib.Logic.Function.Basic
import Mathlib.Tactic.Common

/-!
Linked lists in a memory: segments, and the walk along a list.

Nodes are named by `ι`; pointers live in `π`, and `addr` is the pointer to a node. A
segment from `p` to `q` passes through the listed nodes. A list is a segment that ends in a
pointer to no node; it is determined by its start and passes no node twice.
-/

namespace Messaround.Segment

variable {ι π : Type} (addr : ι → π) (next : ι → π)

/-- Following `next` from `p` passes through the nodes `c` and arrives at `q`. -/
inductive Seg : π → List ι → π → Prop
  | nil (p : π) : Seg p [] p
  | cons {i : ι} {c : List ι} {q : π} : Seg (next i) c q → Seg (addr i) (i :: c) q

variable {addr next} {p q : π} {c c' : List ι} {i : ι}

@[simp] lemma seg_nil : Seg addr next p [] q ↔ p = q :=
  ⟨fun h => by cases h; rfl, fun h => h ▸ .nil p⟩

@[simp] lemma seg_cons : Seg addr next p (i :: c) q ↔ p = addr i ∧ Seg addr next (next i) c q :=
  ⟨fun h => by cases h with | cons h => exact ⟨rfl, h⟩, fun ⟨h, h'⟩ => h ▸ .cons h'⟩

lemma exists_split {l : List ι} {k : ℕ} (hk : k < l.length) :
    ∃ a x b, l = a ++ x :: b ∧ a.length = k :=
  ⟨l.take k, l[k], l.drop (k + 1), by rw [List.getElem_cons_drop, List.take_append_drop],
    List.length_take_of_le (Nat.le_of_lt hk)⟩

lemma seg_append :
    Seg addr next p (c ++ c') q ↔ ∃ r, Seg addr next p c r ∧ Seg addr next r c' q := by
  induction c generalizing p with
  | nil => simp
  | cons i c ih => simp [ih, and_assoc]

/-- A segment depends on the links of its own nodes only. -/
lemma seg_congr {next' : ι → π} (h : ∀ i ∈ c, next' i = next i) :
    Seg addr next' p c q ↔ Seg addr next p c q := by
  induction c generalizing p with
  | nil => rw [seg_nil, seg_nil]
  | cons i c ih =>
    rw [seg_cons, seg_cons, h i (by simp), ih fun j hj => h j (by simp [hj])]

/-- Behind a node, a segment ends where a node points to. -/
lemma seg_end (h : Seg addr next (next i) c q) : ∃ j, q = next j := by
  induction c generalizing i with
  | nil => exact ⟨i, (seg_nil.mp h).symm⟩
  | cons j c ih => exact ih (seg_cons.mp h).2

section list

variable (hinj : Function.Injective addr) {null : π} (hnull : ∀ i, addr i ≠ null)
include hinj hnull

lemma seg_unique (h : Seg addr next p c null) (h' : Seg addr next p c' null) : c = c' := by
  induction c generalizing p c' with
  | nil =>
    cases c' with
    | nil => rfl
    | cons j c' => exact absurd ((seg_cons.mp h').1.symm.trans (seg_nil.mp h)) (hnull j)
  | cons i c ih =>
    cases c' with
    | nil => exact absurd ((seg_cons.mp h).1.symm.trans (seg_nil.mp h')) (hnull i)
    | cons j c' =>
      obtain ⟨h1, h2⟩ := seg_cons.mp h
      obtain ⟨h3, h4⟩ := seg_cons.mp h'
      obtain rfl : i = j := hinj (h1.symm.trans h3)
      rw [ih h2 h4]

/-- **A list passes no node twice**: behind a node there is only one way to the end. -/
theorem seg_nodup (h : Seg addr next p c null) : c.Nodup := by
  induction c generalizing p with
  | nil => exact List.nodup_nil
  | cons i c ih =>
    obtain ⟨-, hc⟩ := seg_cons.mp h
    refine List.nodup_cons.mpr ⟨fun hi => ?_, ih hc⟩
    obtain ⟨c1, c2, rfl⟩ := List.append_of_mem hi
    obtain ⟨r, -, hr⟩ := seg_append.mp hc
    have hlong : Seg addr next (addr i) (i :: (c1 ++ i :: c2)) null := .cons hc
    have hshort : Seg addr next (addr i) (i :: c2) null := .cons (seg_cons.mp hr).2
    have := congrArg List.length (seg_unique hinj hnull hlong hshort)
    simp at this
    omega

end list

/-! ### The walk -/

variable (find : π → Option ι) (next)

/-- The nodes met from `p` on, at most `n` of them. -/
def follow : (n : ℕ) → (p : π) → List ι
  | 0, _ => []
  | n + 1, p =>
    match find p with
    | none => []
    | some i => i :: follow n (next i)

variable {find next}

lemma follow_eq {null : π} (hfind : ∀ i, find (addr i) = some i) (hnull : find null = none)
    {n : ℕ} (h : Seg addr next p c null) (hn : c.length ≤ n) : follow next find n p = c := by
  induction n generalizing p c with
  | zero =>
    obtain rfl := List.length_eq_zero_iff.mp (Nat.le_zero.mp hn)
    rfl
  | succ n ih =>
    cases c with
    | nil => rw [seg_nil] at h; rw [follow, h, hnull]
    | cons i c =>
      obtain ⟨h1, h2⟩ := seg_cons.mp h
      rw [follow, h1, hfind]
      simp only [List.cons.injEq, true_and]
      exact ih h2 (by simpa using hn)

/-- Any walk is a segment; one that is shorter than it may be ends at no node. -/
lemma seg_follow (hfind : ∀ p i, find p = some i → p = addr i) (n : ℕ) (p : π) :
    ∃ q, Seg addr next p (follow next find n p) q ∧
      (follow next find n p).length ≤ n ∧ ((follow next find n p).length < n → find q = none) := by
  induction n generalizing p with
  | zero => exact ⟨p, seg_nil.mpr rfl, Nat.le_refl _, fun h => absurd h (Nat.not_lt_zero _)⟩
  | succ n ih =>
    rw [follow]
    cases hp : find p with
    | none => exact ⟨p, seg_nil.mpr rfl, Nat.zero_le _, fun _ => hp⟩
    | some i =>
      obtain ⟨q, hq, hle, hend⟩ := ih (next i)
      refine ⟨q, seg_cons.mpr ⟨hfind p i hp, hq⟩, Nat.succ_le_succ hle, fun h => hend ?_⟩
      exact Nat.lt_of_succ_lt_succ h

variable (next find)

/-- The node `k` links behind `i`. -/
def nth : (k : ℕ) → (i : ι) → Option ι
  | 0, i => some i
  | k + 1, i => (find (next i)).elim none (nth k)

end Messaround.Segment
