import Mathlib.Order.WellFounded
import Mathlib.Tactic.Common

/-!
What fair runs lead to.

A rank that no step raises, and that every step of the kind it asks for lowers, reaches the goal
if steps of every kind are taken again and again.
-/

namespace Messaround.Fair

variable {W K : Type} {goal : ℕ → Prop} {rank : ℕ → W} {n m : ℕ}

/-- Something happens at infinitely many steps. -/
def Often (p : ℕ → Prop) : Prop := ∀ n, ∃ m, n ≤ m ∧ p m

variable [PartialOrder W]

/-- Up to the step `m`, either the goal is met, or the rank has been lowered or is as it was. -/
lemma rank_until (hle : ∀ n, ¬goal n → rank (n + 1) ≤ rank n) (hnm : n ≤ m) :
    (∃ k, n ≤ k ∧ k < m ∧ goal k) ∨ (∃ k, n ≤ k ∧ k ≤ m ∧ rank k < rank n) ∨ rank m = rank n := by
  induction m, hnm using Nat.le_induction with
  | base => exact .inr (.inr rfl)
  | succ m hnm ih =>
    rcases ih with ⟨k, hk, hkm, hgoal⟩ | ⟨k, hk, hkm, hlt⟩ | heq
    · exact .inl ⟨k, hk, by omega, hgoal⟩
    · exact .inr (.inl ⟨k, hk, by omega, hlt⟩)
    · by_cases hgoal : goal m
      · exact .inl ⟨m, hnm, by omega, hgoal⟩
      · rcases (hle m hgoal).lt_or_eq with hlt | hsame
        · exact .inr (.inl ⟨m + 1, by omega, le_rfl, heq ▸ hlt⟩)
        · exact .inr (.inr (hsame.trans heq))

/-- **Helpful steps**: `kind` tells for every rank which steps lower it. -/
theorem eventually [WellFoundedLT W] (goal : ℕ → Prop) (rank : ℕ → W) (kind : W → K)
    (taken : K → ℕ → Prop)
    (hle : ∀ n, ¬goal n → rank (n + 1) ≤ rank n)
    (hlt : ∀ n, ¬goal n → taken (kind (rank n)) n → rank (n + 1) < rank n)
    (hfair : ∀ k, Often (taken k)) : ∃ n, goal n := by
  suffices h : ∀ w n, rank n = w → ∃ m, goal m from h _ 0 rfl
  intro w
  induction w using WellFoundedLT.induction with
  | ind w ih =>
    intro n hn
    obtain ⟨m, hnm, htaken⟩ := hfair (kind w) n
    rcases rank_until hle hnm with ⟨k, -, -, hgoal⟩ | ⟨k, -, -, hk⟩ | heq
    · exact ⟨k, hgoal⟩
    · exact ih _ (hn ▸ hk) k rfl
    · by_cases hgoal : goal m
      · exact ⟨m, hgoal⟩
      · have hw : rank m = w := heq.trans hn
        rw [← hw] at htaken ih
        exact ih _ (hlt m hgoal htaken) (m + 1) rfl

end Messaround.Fair
