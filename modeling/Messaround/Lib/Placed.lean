import Mathlib.Data.List.Count
import Mathlib.Data.List.Nodup
import Mathlib.Logic.Function.Basic
import Mathlib.Tactic.Common

/-!
Elements kept on a family of queues, each on at most one of them and once.

Where an element stands is told by a partial map; the queues follow it when an element
moves from one to another.
-/

namespace Messaround

variable {I α : Type} [DecidableEq α] [DecidableEq I]

/-- Every element stands once on the queue of its place, and nowhere else. -/
def Placed (q : I → List α) (place : α → Option I) : Prop :=
  ∀ a i, (q i).count a = if place a = some i then 1 else 0

namespace Placed

variable {q : I → List α} {place : α → Option I} {a : α} {i : I} {l : List α}

lemma mem_iff (h : Placed q place) : a ∈ q i ↔ place a = some i := by
  rw [← List.count_pos_iff, h a i]
  split <;> simp_all

lemma notMem (h : Placed q place) (ha : place a = none) (i : I) : a ∉ q i := by
  rw [h.mem_iff, ha]
  simp

lemma nodup (h : Placed q place) (i : I) : (q i).Nodup := by
  refine List.nodup_iff_count_le_one.mpr fun a => ?_
  rw [h a i]
  split <;> simp

lemma empty : Placed (fun _ : I => ([] : List α)) fun _ => none := by
  intro a i
  simp

/-- An element leaves its queue, if it stands on one, and enters another, at any position. -/
lemma move {q' : I → List α} {p : Option I} (h : Placed q place)
    (hq : ∀ i, (q' i).Perm ((q i).erase a ++ if p = some i then [a] else [])) :
    Placed q' (Function.update place a p) := by
  intro b i
  rw [(hq i).count_eq, List.count_append]
  rcases eq_or_ne b a with rfl | hb
  · have hcount := h b i
    rw [Function.update_self, List.count_erase_self, hcount]
    split <;> split <;> simp_all
  · have hlast : (if p = some i then [a] else []).count b = 0 := by
      split <;> simp [hb.symm]
    rw [Function.update_of_ne hb, List.count_erase_of_ne hb, h b i, hlast, Nat.add_zero]

/-- An element that stands nowhere enters a queue. -/
lemma enter (h : Placed q place) (ha : place a = none) (hl : l.Perm (a :: q i)) :
    Placed (Function.update q i l) (Function.update place a (some i)) := by
  refine h.move fun j => ?_
  rw [List.erase_of_not_mem (h.notMem ha j)]
  rcases eq_or_ne j i with rfl | hj
  · rw [Function.update_self, if_pos rfl]
    exact hl.trans (List.perm_append_singleton a (q j)).symm
  · rw [Function.update_of_ne hj, if_neg (by simp [hj.symm]), List.append_nil]

/-- An element leaves the queue it stands on. -/
lemma leave (h : Placed q place) (ha : place a = some i) :
    Placed (Function.update q i ((q i).erase a)) (Function.update place a none) := by
  refine h.move fun j => ?_
  rw [if_neg (by simp), List.append_nil]
  rcases eq_or_ne j i with rfl | hj
  · rw [Function.update_self]
  · have hnot : a ∉ q j := fun hm => hj (Option.some.inj ((h.mem_iff.mp hm).symm.trans ha))
    rw [Function.update_of_ne hj, List.erase_of_not_mem hnot]

end Placed

end Messaround
