import Mathlib.Algebra.Order.Group.Int
import Mathlib.Data.List.Basic
import Mathlib.Tactic.Common

/-!
Walks along a list that end when a quota is met.

A walk visits at most `k` elements from the front. It goes on as long as the quota `n` is
positive; the elements with a property `p` count towards the quota.
-/

namespace Messaround

variable {α : Type} (p : α → Prop) [DecidablePred p]

/-- The elements visited. -/
def walked : ℕ → ℤ → List α → List α
  | 0, _, _ => []
  | _ + 1, _, [] => []
  | k + 1, n, a :: l => if n > 0 then a :: walked k (if p a then n - 1 else n) l else []

/-- What is left of the quota. -/
def unmet (n : ℤ) (l : List α) : ℤ := n - l.countP p

variable {p} {k : ℕ} {n : ℤ} {a : α} {l l' : List α}

@[simp] lemma walked_zero : walked p 0 n l = [] := rfl

@[simp] lemma walked_nil : walked p k n [] = [] := by
  cases k <;> rfl

lemma walked_cons (hn : n > 0) :
    walked p (k + 1) n (a :: l) = a :: walked p k (if p a then n - 1 else n) l := if_pos hn

lemma walked_met (hn : ¬n > 0) : walked p k n l = [] := by
  cases k with
  | zero => rfl
  | succ k =>
    cases l with
    | nil => rfl
    | cons a l => exact if_neg hn

@[simp] lemma unmet_nil : unmet p n [] = n := by simp [unmet]

lemma unmet_cons : unmet p n (a :: l) = unmet p (if p a then n - 1 else n) l := by
  unfold unmet
  rw [List.countP_cons]
  split
  next h =>
    rw [if_pos (by simpa using h)]
    push_cast
    omega
  next h =>
    rw [if_neg (by simpa using h)]
    simp

lemma prefix_walked (k : ℕ) (n : ℤ) (l : List α) : walked p k n l <+: l.take k := by
  induction l generalizing k n with
  | nil => simp
  | cons a l ih =>
    cases k with
    | zero => simp
    | succ k =>
      by_cases hn : n > 0
      · rw [walked_cons hn, List.take_succ_cons, List.cons_prefix_cons]
        exact ⟨rfl, ih k _⟩
      · rw [walked_met hn]
        exact List.nil_prefix

/-- A walk that leaves a part of the quota has gone as far as it may. -/
lemma walked_eq_take (h : 0 < unmet p n (walked p k n l)) : walked p k n l = l.take k := by
  induction l generalizing k n with
  | nil => simp
  | cons a l ih =>
    cases k with
    | zero => simp
    | succ k =>
      by_cases hn : n > 0
      · rw [walked_cons hn, unmet_cons] at h
        rw [walked_cons hn, List.take_succ_cons, ih h]
      · rw [walked_met hn, unmet_nil] at h
        exact absurd h hn

lemma unmet_anti (h : l.Sublist l') : unmet p n l' ≤ unmet p n l := by
  have hle := h.countP_le (p := fun a => decide (p a))
  unfold unmet
  omega

/-- The quota is met exactly when the elements within reach meet it. -/
lemma unmet_walked_pos : 0 < unmet p n (walked p k n l) ↔ 0 < unmet p n (l.take k) :=
  ⟨fun h => walked_eq_take h ▸ h,
    fun h => lt_of_lt_of_le h (unmet_anti (prefix_walked k n l).sublist)⟩

lemma walked_congr {q : α → Prop} [DecidablePred q] (h : ∀ a ∈ l, p a ↔ q a) :
    walked p k n l = walked q k n l := by
  induction l generalizing k n with
  | nil => simp
  | cons a l ih =>
    obtain ⟨ha, hl⟩ := List.forall_mem_cons.mp h
    cases k with
    | zero => rfl
    | succ k =>
      unfold walked
      simp only [ha, ih hl]

lemma unmet_congr {q : α → Prop} [DecidablePred q] (h : ∀ a ∈ l, p a ↔ q a) :
    unmet p n l = unmet q n l := by
  have hcount : l.countP (fun a => decide (p a)) = l.countP fun a => decide (q a) :=
    List.countP_congr fun a ha => by simpa using h a ha
  unfold unmet
  rw [hcount]

lemma mem_of_mem_walked (h : a ∈ walked p k n l) : a ∈ l :=
  List.mem_of_mem_take ((prefix_walked k n l).subset h)

end Messaround
