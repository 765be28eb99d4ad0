import Mathlib.Data.List.Nodup
import Mathlib.Tactic.Common

/-!
Queues of sys/queue.h as lists, and computations that may fault.
-/

namespace Messaround

variable {ε α β : Type}

@[simp] lemma ok_bind (a : α) (f : α → Except ε β) : (Except.ok a >>= f) = f a := rfl

variable [DecidableEq α]

/-- `e` is the fault of removing an element from a queue it is not on. -/
def TAILQ_REMOVE (e : ε) (l : List α) (a : α) : Except ε (List α) :=
  if a ∈ l then .ok (l.erase a) else .error e

lemma TAILQ_REMOVE_eq {e : ε} {l : List α} {a : α} (h : a ∈ l) :
    TAILQ_REMOVE e l a = .ok (l.erase a) := if_pos h

/-- The element behind `a`; `none` is `NULL`. -/
def TAILQ_NEXT (a : α) : List α → Option α
  | [] => none
  | x :: l => if x = a then l.head? else TAILQ_NEXT a l

def TAILQ_INSERT_AFTER (a b : α) : List α → List α
  | [] => []
  | x :: l => if x = a then x :: b :: l else x :: TAILQ_INSERT_AFTER a b l

variable {a b : α} {pre l : List α}

lemma TAILQ_NEXT_append (h : a ∉ pre) : TAILQ_NEXT a (pre ++ a :: l) = l.head? := by
  induction pre with
  | nil => exact if_pos rfl
  | cons x pre ih =>
    obtain ⟨hx, hpre⟩ := not_or.mp fun h' => h (List.mem_cons.mpr h')
    rw [List.cons_append, TAILQ_NEXT, if_neg (Ne.symm hx), ih hpre]

lemma TAILQ_INSERT_AFTER_append (h : a ∉ pre) :
    TAILQ_INSERT_AFTER a b (pre ++ a :: l) = pre ++ a :: b :: l := by
  induction pre with
  | nil => exact if_pos rfl
  | cons x pre ih =>
    obtain ⟨hx, hpre⟩ := not_or.mp fun h' => h (List.mem_cons.mpr h')
    rw [List.cons_append, TAILQ_INSERT_AFTER, if_neg (Ne.symm hx), ih hpre, List.cons_append]

lemma erase_append_cons (h : a ∉ pre) : (pre ++ a :: l).erase a = pre ++ l := by
  rw [List.erase_append_right _ h, List.erase_cons_head]

omit [DecidableEq α] in
/-- An element of a list without repetitions is in neither part around it. -/
lemma notMem_parts (h : (pre ++ a :: l).Nodup) : a ∉ pre ∧ a ∉ l := by
  have hnot := (List.nodup_cons.mp (List.nodup_middle.mp h)).1
  exact ⟨fun hmem => hnot (List.mem_append_left _ hmem),
    fun hmem => hnot (List.mem_append_right _ hmem)⟩

end Messaround
