import Mathlib.Algebra.BigOperators.Group.List.Basic
import Mathlib.Algebra.Order.BigOperators.Group.List
import Mathlib.Algebra.Ring.Int.Defs
import Mathlib.Algebra.Ring.Nat
import Mathlib.Data.Finset.Card
import Mathlib.Data.Finset.Range
import Mathlib.Tactic.Common

/-!
Drawing from a list by weight.

A draw walks along the list and takes every element's weight off a number, until the weight
is more than what is left: the elements hold consecutive intervals of numbers, each as long
as its weight. With weights of both signs a walk is described by its running sums.
-/

namespace Messaround

variable {α : Type}

/-- The element whose interval holds `r`. -/
def draw (w : α → ℕ) : List α → ℕ → Option α
  | [], _ => none
  | a :: l, r => if r < w a then some a else draw w l (r - w a)

namespace Draw

variable {w : α → ℕ} {l l' : List α} {r : ℕ} {a : α}

lemma draw_cons {b : α} :
    draw w (b :: l) r = if r < w b then some b else draw w l (r - w b) := rfl

/-- The weights of a list together. -/
def total (w : α → ℕ) (l : List α) : ℕ := (l.map w).sum

@[simp] lemma total_nil : total w [] = 0 := rfl
@[simp] lemma total_cons : total w (a :: l) = w a + total w l := rfl

lemma total_perm (h : l.Perm l') : total w l = total w l' := (h.map w).sum_eq

lemma weight_le_total (h : a ∈ l) : w a ≤ total w l := by
  induction l with
  | nil => cases h
  | cons b l ih =>
    rw [total_cons]
    rcases List.mem_cons.mp h with rfl | h
    · exact Nat.le_add_right _ _
    · exact (ih h).trans (Nat.le_add_left _ _)

lemma mem_of_draw (h : draw w l r = some a) : a ∈ l := by
  induction l generalizing r with
  | nil => cases h
  | cons b l ih =>
    rw [draw_cons] at h
    split at h
    · cases h; simp
    · exact List.mem_cons_of_mem _ (ih h)

/-- Every number below the total draws an element. -/
lemma exists_draw (h : r < total w l) : ∃ a, draw w l r = some a := by
  induction l generalizing r with
  | nil => simp at h
  | cons b l ih =>
    rw [draw_cons]
    split
    · exact ⟨b, rfl⟩
    · exact ih (by rw [total_cons] at h; omega)

section

variable [DecidableEq α]

/-- The numbers that draw `a` from the list. -/
def winning (w : α → ℕ) (l : List α) (a : α) : Finset ℕ :=
  (Finset.range (total w l)).filter fun r => draw w l r = some a

lemma mem_winning : r ∈ winning w l a ↔ r < total w l ∧ draw w l r = some a := by
  simp [winning]

/-- The first element holds the numbers below its weight; the others hold theirs behind it. -/
lemma winning_cons_self (h : a ∉ l) : winning w (a :: l) a = Finset.range (w a) := by
  ext r
  rw [mem_winning, Finset.mem_range, total_cons, draw_cons]
  constructor
  · rintro ⟨-, h2⟩
    split at h2
    · assumption
    · exact absurd (mem_of_draw h2) h
  · intro hr
    simp only [if_pos hr, and_true]
    omega

lemma winning_cons_of_ne {b : α} (h : b ≠ a) :
    winning w (b :: l) a = (winning w l a).image (w b + ·) := by
  ext r
  simp only [mem_winning, total_cons, Finset.mem_image, draw_cons]
  constructor
  · rintro ⟨h1, h2⟩
    split at h2
    · exact absurd (Option.some.inj h2) h
    · exact ⟨r - w b, ⟨by omega, h2⟩, by omega⟩
  · rintro ⟨r, ⟨h1, h2⟩, rfl⟩
    rw [if_neg (by omega), Nat.add_sub_cancel_left]
    exact ⟨by omega, h2⟩

/-- **Proportionality**: an element is drawn by exactly as many numbers as it has weight. -/
theorem card_winning (hl : l.Nodup) (ha : a ∈ l) : (winning w l a).card = w a := by
  induction l with
  | nil => cases ha
  | cons b l ih =>
    obtain ⟨hb, hl⟩ := List.nodup_cons.mp hl
    rcases eq_or_ne b a with rfl | hne
    · rw [winning_cons_self hb, Finset.card_range]
    · rw [winning_cons_of_ne hne, Finset.card_image_of_injective _ (add_right_injective (w b))]
      exact ih hl ((List.mem_cons.mp ha).resolve_left hne.symm)

lemma winning_eq_empty (ha : a ∉ l) : winning w l a = ∅ :=
  Finset.eq_empty_of_forall_notMem fun _ h => ha (mem_of_draw (mem_winning.mp h).2)

lemma card_winning_perm (hl : l.Nodup) (h : l.Perm l') (a : α) :
    (winning w l a).card = (winning w l' a).card := by
  by_cases ha : a ∈ l
  · rw [card_winning hl ha, card_winning (h.nodup_iff.mp hl) (h.mem_iff.mp ha)]
  · rw [winning_eq_empty ha, winning_eq_empty fun h' => ha (h.mem_iff.mpr h')]

end

/-! ### Running sums -/

/-- The highest and the lowest of the running sums of `v`, the empty one included. -/
def highest (v : α → ℤ) : List α → ℤ
  | [] => 0
  | a :: l => max 0 (v a + highest v l)

def lowest (v : α → ℤ) : List α → ℤ
  | [] => 0
  | a :: l => min 0 (v a + lowest v l)

/-- Taking the values off `x` one by one stays in `[0, b)` all the way. -/
def Stays (v : α → ℤ) (b : ℤ) : List α → ℤ → Prop
  | [], x => 0 ≤ x ∧ x < b
  | a :: l, x => (0 ≤ x ∧ x < b) ∧ Stays v b l (x - v a)

lemma stays_iff {v : α → ℤ} {b x : ℤ} :
    Stays v b l x ↔ highest v l ≤ x ∧ x < b + lowest v l := by
  induction l generalizing x with
  | nil => simp [Stays, highest, lowest]
  | cons a l ih =>
    simp only [Stays, highest, lowest, ih]
    omega

lemma highest_nonneg (v : α → ℤ) (l : List α) : 0 ≤ highest v l := by
  cases l with
  | nil => exact le_refl _
  | cons a l => exact le_max_left _ _

lemma lowest_nonpos (v : α → ℤ) (l : List α) : lowest v l ≤ 0 := by
  cases l with
  | nil => exact le_refl _
  | cons a l => exact min_le_left _ _

/-- The last running sum is the sum. -/
lemma sum_le_highest (v : α → ℤ) (l : List α) :
    lowest v l ≤ (l.map v).sum ∧ (l.map v).sum ≤ highest v l := by
  induction l with
  | nil => simp [highest, lowest]
  | cons a l ih =>
    simp only [highest, lowest, List.map_cons, List.sum_cons]
    omega

end Draw

end Messaround
