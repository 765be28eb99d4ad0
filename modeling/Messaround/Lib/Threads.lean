import Mathlib.Logic.Function.Basic
import Mathlib.Tactic.Common

/-!
Threads that take turns on a shared state.

A move is an atomic step of one thread: it changes the shared state and the thread's own one.
An invariant of the shared state and of each thread is kept by every run if a thread keeps both
and leaves the others theirs, which is asked of what the moves of a thread may do to the shared
state and not of the single moves.
-/

namespace Messaround.Threads

open Function (update)

/-- The shared state and the state of each thread. -/
structure Conf (T S L : Type) where
  shared : S
  loc : T → L

variable {T S L M : Type} [DecidableEq T]

/-- The move `m` of thread `t`, unless the thread is blocked there. -/
def Conf.move (exec : M → T → S → L → Option (S × L)) (c : Conf T S L) (t : T) (m : M) :
    Option (Conf T S L) :=
  (exec m t c.shared (c.loc t)).map fun r => ⟨r.1, update c.loc t r.2⟩

/-- What runs lead to in which `G` holds of every shared state. -/
inductive Reached (exec : M → T → S → L → Option (S × L)) (G : S → Prop) (c₀ : Conf T S L) :
    Conf T S L → Prop
  | init : Reached exec G c₀ c₀
  | move {c c' : Conf T S L} (h : Reached exec G c₀ c) (t : T) (m : M)
      (hm : c.move exec t m = some c') (hG : G c'.shared) : Reached exec G c₀ c'

variable {exec : M → T → S → L → Option (S × L)} {G : S → Prop} {c₀ c c' : Conf T S L}

lemma move_eq_some {t : T} {m : M} : c.move exec t m = some c' ↔
    ∃ s l, exec m t c.shared (c.loc t) = some (s, l) ∧ ⟨s, update c.loc t l⟩ = c' := by
  simp [Conf.move]

/-- **Interference**: `E` bounds what a thread does to the shared state, and what a thread knows
lasts under the moves of the others. -/
theorem Reached.invariant {I : S → Prop} {J : T → S → L → Prop} {E : T → S → S → Prop}
    (hinit : I c₀.shared) (hinit' : ∀ t, J t c₀.shared (c₀.loc t))
    (hown : ∀ m t s l s' l', I s → J t s l → exec m t s l = some (s', l') → G s' →
      I s' ∧ J t s' l' ∧ E t s s')
    (hother : ∀ t u s s' l, u ≠ t → E t s s' → J u s l → J u s' l)
    (h : Reached exec G c₀ c) : I c.shared ∧ ∀ t, J t c.shared (c.loc t) := by
  induction h with
  | init => exact ⟨hinit, hinit'⟩
  | @move c c' _ t m hm hG ih =>
    obtain ⟨hI, hJ⟩ := ih
    obtain ⟨s, l, hexec, rfl⟩ := move_eq_some.mp hm
    obtain ⟨hI', hJ', hE⟩ := hown m t _ _ s l hI (hJ t) hexec hG
    refine ⟨hI', fun u => ?_⟩
    rcases eq_or_ne u t with rfl | hu
    · simpa using hJ'
    · dsimp only
      rw [Function.update_of_ne hu]
      exact hother t u _ _ _ hu hE (hJ u)

/-! ### Runs as lists of moves -/

/-- The moves one after another, while `G` holds. -/
def runMoves (exec : M → T → S → L → Option (S × L)) (G : S → Prop) [DecidablePred G] :
    List (T × M) → Conf T S L → Option (Conf T S L)
  | [], c => some c
  | (t, m) :: ms, c =>
    match c.move exec t m with
    | none => none
    | some c' => if G c'.shared then runMoves exec G ms c' else none

lemma Reached.runMoves [DecidablePred G] {ms : List (T × M)} (h : Reached exec G c₀ c)
    (hr : runMoves exec G ms c = some c') : Reached exec G c₀ c' := by
  induction ms generalizing c with
  | nil => exact Option.some.inj hr ▸ h
  | cons tm ms ih =>
    obtain ⟨t, m⟩ := tm
    rw [Threads.runMoves] at hr
    split at hr
    · cases hr
    · split at hr
      · rename_i hm hG
        exact ih (h.move t m hm hG) hr
      · cases hr

end Messaround.Threads
