import Mathlib.Data.List.Pairwise
import Mathlib.Tactic.Common

/-!
The gaps that a scan from the left finds: the longest runs of indices at which a test fails.

A gap is a first index and a length.
-/

namespace Messaround.Gaps

variable {p : ℕ → Bool} {k i b j : ℕ}

/-- The gaps from `b` on, with `k` indices from `i` to the end still to be looked at. -/
def gapsFrom (p : ℕ → Bool) : (k i b : ℕ) → List (ℕ × ℕ)
  | 0, i, b => if i > b then [(b, i - b)] else []
  | k + 1, i, b =>
    if p i then
      if i > b then (b, i - b) :: gapsFrom p k (i + 1) (i + 1) else gapsFrom p k (i + 1) (i + 1)
    else gapsFrom p k (i + 1) b

/-- The index `j` is in the gap. -/
def Covers (g : ℕ × ℕ) (j : ℕ) : Prop := g.1 ≤ j ∧ j < g.1 + g.2

/-- **The gaps are the indices at which the test fails.** -/
theorem covered_iff (hb : b ≤ i) (hgap : ∀ l, b ≤ l → l < i → p l = false) :
    (∃ g ∈ gapsFrom p k i b, Covers g j) ↔ b ≤ j ∧ j < i + k ∧ p j = false := by
  induction k generalizing i b with
  | zero =>
    unfold gapsFrom
    split
    next hlt =>
      simp only [List.mem_singleton, exists_eq_left, Covers]
      refine ⟨fun h => ⟨h.1, by omega, hgap j h.1 (by omega)⟩, fun h => ⟨h.1, by omega⟩⟩
    next hge =>
      simp only [List.not_mem_nil, false_and, exists_false, false_iff]
      omega
  | succ k ih =>
    unfold gapsFrom
    split
    next hp =>
      have hnext := ih (i := i + 1) (b := i + 1) (Nat.le_refl _) (fun l h1 h2 => by omega)
      have hne : p j = false → j ≠ i := fun hj he => by simp [← he, hj] at hp
      split
      next hlt =>
        simp only [List.mem_cons, exists_eq_or_imp, hnext]
        unfold Covers
        constructor
        · rintro (⟨h1, h2⟩ | ⟨h1, h2, h3⟩)
          · exact ⟨h1, by omega, hgap j h1 (by dsimp only at h2; omega)⟩
          · exact ⟨by omega, by omega, h3⟩
        · rintro ⟨h1, h2, h3⟩
          have := hne h3
          rcases Nat.lt_or_ge j i with hji | hji
          · exact .inl ⟨h1, by dsimp only; omega⟩
          · exact .inr ⟨by omega, by omega, h3⟩
      next hge =>
        rw [hnext]
        constructor
        · rintro ⟨h1, h2, h3⟩
          exact ⟨by omega, by omega, h3⟩
        · rintro ⟨h1, h2, h3⟩
          have := hne h3
          exact ⟨by omega, by omega, h3⟩
    next hp =>
      rw [ih (by omega) fun l h1 h2 => ?_, Nat.add_right_comm, Nat.add_assoc]
      rcases Nat.lt_succ_iff_lt_or_eq.mp h2 with hl | rfl
      · exact hgap l h1 hl
      · simpa using hp

lemma first_le {g : ℕ × ℕ} (hb : b ≤ i) (hg : g ∈ gapsFrom p k i b) : b ≤ g.1 ∧ 0 < g.2 := by
  induction k generalizing i b with
  | zero =>
    unfold gapsFrom at hg
    split at hg
    · obtain rfl := List.mem_singleton.mp hg
      exact ⟨Nat.le_refl b, by dsimp only; omega⟩
    · cases hg
  | succ k ih =>
    unfold gapsFrom at hg
    split at hg
    · split at hg
      · rcases List.mem_cons.mp hg with rfl | hg
        · exact ⟨Nat.le_refl b, by dsimp only; omega⟩
        · have := ih (Nat.le_refl _) hg
          exact ⟨by omega, this.2⟩
      · have := ih (Nat.le_refl _) hg
        exact ⟨by omega, this.2⟩
    · exact ih (by omega) hg

/-- **Between two gaps the test succeeds**: each starts past the end of the one before it. -/
theorem gaps_apart (hb : b ≤ i) :
    (gapsFrom p k i b).Pairwise fun g g' => g.1 + g.2 < g'.1 := by
  induction k generalizing i b with
  | zero =>
    unfold gapsFrom
    split <;> simp
  | succ k ih =>
    unfold gapsFrom
    split
    · split
      · refine List.pairwise_cons.mpr ⟨fun g hg => ?_, ih (Nat.le_refl _)⟩
        have := (first_le (Nat.le_refl _) hg).1
        dsimp only
        omega
      · exact ih (Nat.le_refl _)
    · exact ih (by omega)

/-- A longest run of indices below `n` at which the test fails. -/
structure IsGap (p : ℕ → Bool) (n : ℕ) (g : ℕ × ℕ) : Prop where
  pos : 0 < g.2
  fails : ∀ j, Covers g j → j < n ∧ p j = false
  left : g.1 = 0 ∨ p (g.1 - 1) = true
  right : g.1 + g.2 = n ∨ p (g.1 + g.2) = true

variable {n : ℕ} {g g' : ℕ × ℕ}

lemma IsGap.first_ge (h : IsGap p n g) (h' : IsGap p n g') (hj : Covers g j) (hj' : Covers g' j) :
    g.1 ≤ g'.1 := by
  by_contra hlt
  have hbefore : p (g.1 - 1) = true := h.left.resolve_left (by omega)
  have hfail := (h'.fails (g.1 - 1) ⟨by omega, by have := hj.1; have := hj'.2; omega⟩).2
  exact absurd (hbefore.symm.trans hfail) (by decide)

lemma IsGap.last_le (h : IsGap p n g) (h' : IsGap p n g') (hj : Covers g j) (hj' : Covers g' j) :
    g'.1 + g'.2 ≤ g.1 + g.2 := by
  by_contra hlt
  obtain ⟨hn, hfail⟩ := h'.fails (g.1 + g.2) ⟨by have := hj.2; have := hj'.1; omega, by omega⟩
  have hbehind : p (g.1 + g.2) = true := h.right.resolve_left (by omega)
  exact absurd (hbehind.symm.trans hfail) (by decide)

/-- Two gaps with an index in common are the same. -/
lemma IsGap.eq (h : IsGap p n g) (h' : IsGap p n g') (hj : Covers g j) (hj' : Covers g' j) :
    g = g' := by
  have h1 := h.first_ge h' hj hj'
  have h2 := h'.first_ge h hj' hj
  have h3 := h.last_le h' hj hj'
  have h4 := h'.last_le h hj' hj
  exact Prod.ext (by omega) (by omega)

/-- **The scan finds the gaps and nothing else.** -/
theorem mem_gaps_iff : g ∈ gapsFrom p n 0 0 ↔ IsGap p n g := by
  have hcov : ∀ j, (∃ g ∈ gapsFrom p n 0 0, Covers g j) ↔ j < n ∧ p j = false := fun j => by
    rw [covered_iff (Nat.le_refl 0) fun l _ hl => absurd hl (Nat.not_lt_zero l)]
    simp
  have hapart := gaps_apart (p := p) (k := n) (Nat.le_refl 0)
  -- two gaps of the scan do not even touch
  have htouch : ∀ g ∈ gapsFrom p n 0 0, ∀ g' ∈ gapsFrom p n 0 0, g.1 ≤ g'.1 + g'.2 →
      g'.1 ≤ g.1 + g.2 → g = g' := fun g hg g' hg' h1 h2 => by
    by_contra hne
    have hsymm : Std.Symm fun g g' : ℕ × ℕ => g.1 + g.2 < g'.1 ∨ g'.1 + g'.2 < g.1 :=
      ⟨fun _ _ h => h.symm⟩
    have hor : (gapsFrom p n 0 0).Pairwise fun g g' => g.1 + g.2 < g'.1 ∨ g'.1 + g'.2 < g.1 :=
      hapart.imp Or.inl
    have := hor.forall hg hg' hne
    omega
  have hgap : ∀ g ∈ gapsFrom p n 0 0, IsGap p n g := fun g hg => by
    have hpos := (first_le (Nat.le_refl 0) hg).2
    have hfails : ∀ j, Covers g j → j < n ∧ p j = false := fun j hj => (hcov j).mp ⟨g, hg, hj⟩
    have hend := (hfails (g.1 + g.2 - 1) ⟨by omega, by omega⟩).1
    refine ⟨hpos, hfails, ?_, ?_⟩
    · by_contra hno
      obtain ⟨h0, hp⟩ := not_or.mp hno
      obtain ⟨g', hg', hj⟩ := (hcov (g.1 - 1)).mpr ⟨by omega, by simpa using hp⟩
      have := htouch g hg g' hg' (by have := hj.2; omega) (by have := hj.1; omega)
      have := hj.1
      subst g'
      omega
    · by_contra hno
      obtain ⟨hn, hp⟩ := not_or.mp hno
      obtain ⟨g', hg', hj⟩ := (hcov (g.1 + g.2)).mpr ⟨by omega, by simpa using hp⟩
      have := htouch g hg g' hg' (by have := hj.2; omega) hj.1
      have := hj.2
      subst g'
      omega
  refine ⟨hgap g, fun h => ?_⟩
  have hfirst : Covers g g.1 := ⟨Nat.le_refl _, by have := h.pos; omega⟩
  obtain ⟨g', hg', hj⟩ := (hcov g.1).mpr (h.fails g.1 hfirst)
  exact h.eq (hgap g' hg') hfirst hj ▸ hg'

end Messaround.Gaps
