import Mathlib.Order.Basic
import Mathlib.Tactic.Common

/-!
Consecutive slices of a range, each given by its start and its length.
-/

namespace Messaround.Slices

/-- The slices run from `a` to `b`, each starting where the one before ends. -/
inductive Tiles {α : Type} [Add α] [LE α] : α → List (α × α) → α → Prop
  | nil (a : α) : Tiles a [] a
  | cons {a b n : α} {l : List (α × α)} (hn : a ≤ a + n) (h : Tiles (a + n) l b) :
      Tiles a ((a, n) :: l) b

variable {α : Type} [Add α] [Preorder α] {a b : α} {s : α × α} {l : List (α × α)}

lemma Tiles.le (h : Tiles a l b) : a ≤ b := by
  induction h with
  | nil a => exact le_rfl
  | cons hn _ ih => exact hn.trans ih

/-- A slice is in the range. -/
lemma Tiles.mem (h : Tiles a l b) (hs : s ∈ l) : a ≤ s.1 ∧ s.1 + s.2 ≤ b := by
  induction h with
  | nil a => cases hs
  | cons hn h ih =>
    rcases List.mem_cons.mp hs with rfl | hs
    · exact ⟨le_rfl, h.le⟩
    · exact ⟨hn.trans (ih hs).1, (ih hs).2⟩

/-- A slice ends before the later ones start. -/
lemma Tiles.pairwise (h : Tiles a l b) : l.Pairwise fun s t => s.1 + s.2 ≤ t.1 := by
  induction h with
  | nil a => exact .nil
  | cons _ h ih => exact .cons (fun t ht => (h.mem ht).1) ih

end Messaround.Slices
