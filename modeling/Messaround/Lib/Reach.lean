import Mathlib.Logic.Relation
import Mathlib.Tactic.Common

/-!
Reachability in a graph that loses edges.

A walk that removes the edges out of every vertex it leaves meets what was reachable from its
start: a vertex behind the first one can be reached without passing the first one again.
-/

namespace Messaround.Reach

open Relation

variable {α : Type} {r r' : α → α → Prop} {a b c : α}

/-- From a vertex without edges nothing else is reachable. -/
lemma reach_end (ha : ∀ x, ¬ r a x) : ReflTransGen r a c ↔ c = a := by
  refine ⟨fun h => ?_, fun h => h ▸ .refl⟩
  rcases ReflTransGen.cases_head h with h' | ⟨x, hx, -⟩
  · exact h'.symm
  · exact absurd hx (ha x)

/-- **The only edge out of `a` leads to `b`**: what is reachable from `a` is `a` and what is
reachable from `b` without the edges out of `a`. -/
theorem reach_cut (hab : r a b) (honly : ∀ x, r a x → x = b)
    (hcut : ∀ x y, r' x y ↔ x ≠ a ∧ r x y) : ReflTransGen r a c ↔ c = a ∨ ReflTransGen r' b c := by
  constructor
  · intro h
    induction h with
    | refl => exact Or.inl rfl
    | @tail x y _ hxy ih =>
      by_cases hx : x = a
      · rw [hx] at hxy
        rw [honly y hxy]
        exact Or.inr .refl
      · exact Or.inr ((ih.resolve_left hx).tail ((hcut x y).mpr ⟨hx, hxy⟩))
  · rintro (rfl | h)
    · exact .refl
    · exact .head hab (ReflTransGen.mono (fun x y hxy => ((hcut x y).mp hxy).2) _ _ h)

end Messaround.Reach
