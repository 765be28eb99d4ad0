import Mathlib.Data.List.MinMax

/-!
Tries by index, and what they promise to those that search in order.
-/

namespace Messaround

variable {ι P τ : Type}

/-- The operations of a trie `τ` with the values `P` under the indices `ι`. -/
structure Trie (ι P τ : Type) where
  lookup : τ → ι → Option P
  lookup_le : τ → ι → Option P
  lookup_ge : τ → ι → Option P
  /-- `none` where there is no memory for a node. -/
  insert : τ → ι → P → Option τ
  remove : τ → ι → τ
  replace : τ → ι → P → τ

namespace Trie

variable [LinearOrder ι]

structure Lawful (x : Trie ι P τ) : Prop where
  insert : ∀ t t' i m, x.lookup t i = none → x.insert t i m = some t' →
    x.lookup t' = Function.update (x.lookup t) i (some m)
  remove : ∀ t i, x.lookup (x.remove t i) = Function.update (x.lookup t) i none
  replace : ∀ t i m old, x.lookup t i = some old →
    x.lookup (x.replace t i m) = Function.update (x.lookup t) i (some m)
  le_some : ∀ t i m, x.lookup_le t i = some m → ∃ j ≤ i, x.lookup t j = some m ∧
    ∀ k, j < k → k ≤ i → x.lookup t k = none
  le_none : ∀ t i, x.lookup_le t i = none → ∀ k ≤ i, x.lookup t k = none
  ge_some : ∀ t i m, x.lookup_ge t i = some m → ∃ j, i ≤ j ∧ x.lookup t j = some m ∧
    ∀ k, i ≤ k → k < j → x.lookup t k = none
  ge_none : ∀ t i, x.lookup_ge t i = none → ∀ k, i ≤ k → x.lookup t k = none

/-- **The last index up to one in use** is that one. -/
lemma Lawful.le_of_lookup {x : Trie ι P τ} (hx : x.Lawful) {t : τ} {i : ι} {m : P}
    (hi : x.lookup t i = some m) : x.lookup_le t i = some m := by
  cases hle : x.lookup_le t i with
  | none =>
    rw [hx.le_none _ _ hle i le_rfl] at hi
    cases hi
  | some n =>
    obtain ⟨j, hj, hat, hgap⟩ := hx.le_some _ _ _ hle
    rcases hj.eq_or_lt with rfl | hlt
    · exact hat.symm.trans hi
    · rw [hgap i hlt le_rfl] at hi
      cases hi

/-! ### A list as a trie -/

/-- A trie with memory for all nodes, as the list of its pages by index. -/
def assoc (ι P : Type) [LinearOrder ι] : Trie ι P (List (ι × P)) where
  lookup t i := t.lookup i
  lookup_le t i := ((t.map Prod.fst).filter (· ≤ i)).argmax id >>= fun j => t.lookup j
  lookup_ge t i := ((t.map Prod.fst).filter (i ≤ ·)).argmin id >>= fun j => t.lookup j
  insert t i m := some ((i, m) :: t)
  remove t i := t.filter fun e => e.1 ≠ i
  replace t i m := (i, m) :: t

lemma lookup_filter (t : List (ι × P)) (i k : ι) :
    (t.filter fun e => e.1 ≠ i).lookup k = if k = i then none else t.lookup k := by
  induction t with
  | nil => simp
  | cons e t ih =>
    by_cases he : e.1 = i
    · rw [List.filter_cons_of_neg (by simpa using he), ih, List.lookup_cons]
      by_cases hk : k = i
      · simp [hk]
      · have hne : (k == e.1) = false := by simpa [he] using hk
        simp [hk, hne]
    · rw [List.filter_cons_of_pos (by simpa using he), List.lookup_cons, ih, List.lookup_cons]
      by_cases hk : k = i
      · have hne : (k == e.1) = false := by simpa [hk] using Ne.symm he
        rw [hne, if_pos hk]
      · simp [hk]

lemma lookup_cons_eq (t : List (ι × P)) (i : ι) (m : P) :
    (fun k => ((i, m) :: t).lookup k) = Function.update (fun k => t.lookup k) i (some m) := by
  funext k
  rw [List.lookup_cons]
  by_cases hk : k = i
  · simp [hk]
  · have hne : (k == i) = false := by simpa using hk
    rw [Function.update_of_ne hk, hne]

lemma lookup_eq_none {t : List (ι × P)} {k : ι} :
    t.lookup k = none ↔ k ∉ t.map Prod.fst := by
  rw [List.lookup_eq_none_iff]
  constructor
  · intro h hmem
    obtain ⟨e, he, rfl⟩ := List.mem_map.mp hmem
    exact bne_iff_ne.mp (h e he) rfl
  · intro h e he
    refine bne_iff_ne.mpr fun hk => h ?_
    rw [hk]
    exact List.mem_map_of_mem he

lemma assoc_lawful : (assoc ι P).Lawful where
  insert t t' i m _ h := by
    cases h
    exact lookup_cons_eq t i m
  remove t i := by
    funext k
    refine (lookup_filter t i k).trans ?_
    by_cases hk : k = i
    · rw [if_pos hk, hk, Function.update_self]
    · rw [if_neg hk, Function.update_of_ne hk]
      rfl
  replace t i m old _ := lookup_cons_eq t i m
  le_some t i m h := by
    obtain ⟨j, hj, hat⟩ := Option.bind_eq_some_iff.mp h
    have hmem := List.mem_filter.mp (List.argmax_mem hj)
    refine ⟨j, of_decide_eq_true hmem.2, hat, fun k hjk hki => lookup_eq_none.mpr fun hk => ?_⟩
    have hin : k ∈ (t.map Prod.fst).filter (· ≤ i) :=
      List.mem_filter.mpr ⟨hk, decide_eq_true hki⟩
    exact not_le.mpr hjk (List.le_of_mem_argmax hin hj)
  le_none t i h k hk := by
    refine lookup_eq_none.mpr fun hmem => ?_
    have hin : k ∈ (t.map Prod.fst).filter (· ≤ i) :=
      List.mem_filter.mpr ⟨hmem, decide_eq_true hk⟩
    cases hmax : ((t.map Prod.fst).filter (· ≤ i)).argmax id with
    | none =>
      rw [List.argmax_eq_none.mp hmax] at hin
      cases hin
    | some j =>
      have hj := (List.mem_filter.mp (List.argmax_mem hmax)).1
      exact lookup_eq_none.mp (Option.bind_eq_none_iff.mp h j hmax) hj
  ge_some t i m h := by
    obtain ⟨j, hj, hat⟩ := Option.bind_eq_some_iff.mp h
    have hmem := List.mem_filter.mp (List.argmin_mem hj)
    refine ⟨j, of_decide_eq_true hmem.2, hat, fun k hik hkj => lookup_eq_none.mpr fun hk => ?_⟩
    have hin : k ∈ (t.map Prod.fst).filter (i ≤ ·) :=
      List.mem_filter.mpr ⟨hk, decide_eq_true hik⟩
    exact not_le.mpr hkj (List.le_of_mem_argmin hin hj)
  ge_none t i h k hk := by
    refine lookup_eq_none.mpr fun hmem => ?_
    have hin : k ∈ (t.map Prod.fst).filter (i ≤ ·) :=
      List.mem_filter.mpr ⟨hmem, decide_eq_true hk⟩
    cases hmin : ((t.map Prod.fst).filter (i ≤ ·)).argmin id with
    | none =>
      rw [List.argmin_eq_none.mp hmin] at hin
      cases hin
    | some j =>
      have hj := (List.mem_filter.mp (List.argmin_mem hmin)).1
      exact lookup_eq_none.mp (Option.bind_eq_none_iff.mp h j hmin) hj

end Trie

end Messaround
