import Mathlib.Data.UInt
import Messaround.Pager.Scan

/-!
The line of statistics that precedes the scan.

The first ordinary page is found wherever it is, the last one only where it ends the queue. The
line is printed in any case.
-/

namespace Messaround.Pager

variable {P : Type} {s : Memory P} {vmd : Domain P} {l : List P}

/-- The pages of a queue that count. -/
def ordinary (s : Memory P) (l : List P) : List P := l.filter fun m => ¬Skipped s m

/-- The lines that tell the number of pages, the first and the last, if there are any. -/
def statsOf (s : Memory P) (l : List P) : List Newpage :=
  match (ordinary s l).head?, (ordinary s l).getLast? with
  | some front, some back =>
    [⟨(ordinary s l).length, (s.vm.page front).id, (s.vm.page back).id⟩]
  | _, _ => []

/-- The pages of the domain's inactive queue. -/
def inactivePages (s : Memory P) (vmd : Domain P) : List P :=
  (s.vm.vmd_pagequeues (inactive vmd)).pq_pl

/-- The pass reads through set pointers and prints what the queue holds. -/
def StatsExact (s : Memory P) (vmd : Domain P) : Prop :=
  printStats s vmd = .ok (statsOf s (inactivePages s vmd))

lemma ordinary_cons_skipped {m : P} (h : Skipped s m) : ordinary s (m :: l) = ordinary s l := by
  simp [ordinary, h]

lemma ordinary_cons {m : P} (h : ¬Skipped s m) : ordinary s (m :: l) = m :: ordinary s l := by
  simp [ordinary, h]

lemma mem_ordinary {m : P} : m ∈ ordinary s l ↔ m ∈ l ∧ ¬Skipped s m := by simp [ordinary]

/-- The last page of a queue, unless the pass skips it. -/
def backOf (s : Memory P) (l : List P) : Option P := l.getLast?.filter fun m => ¬Skipped s m

lemma backOf_cons_cons (m x : P) : backOf s (m :: x :: l) = backOf s (x :: l) := by
  simp [backOf, List.getLast?_cons_cons]

/-- **The loop**: `front` is the first ordinary page, `back` the last element of the queue. -/
lemma statsLoop_eq (l : List P) (front back : Option P) (num_pgs : ℕ) :
    statsLoop s l front back num_pgs =
      (front <|> (ordinary s l).head?, backOf s l <|> back, num_pgs + (ordinary s l).length) := by
  induction l generalizing front back num_pgs with
  | nil => simp [statsLoop, ordinary, backOf]
  | cons m next ih =>
    rw [statsLoop]
    by_cases hm : Skipped s m
    · rw [if_pos hm, ih, ordinary_cons_skipped hm]
      cases next with
      | nil => simp [backOf, Option.filter_some, hm]
      | cons x next => rw [backOf_cons_cons]
    · rw [if_neg hm, ih, ordinary_cons hm, List.length_cons, List.head?_cons]
      have hnum : num_pgs + 1 + (ordinary s next).length =
          num_pgs + ((ordinary s next).length + 1) := by omega
      rw [hnum]
      cases next with
      | nil => cases front <;> simp [backOf, Option.filter_some, hm, ordinary]
      | cons x next => cases front <;> simp [backOf_cons_cons]

/-- The last ordinary page is the last page, if the pass does not skip that one. -/
lemma getLast?_ordinary {m : P} (h : l.getLast? = some m) (hm : ¬Skipped s m) :
    (ordinary s l).getLast? = some m := by
  obtain ⟨l', rfl⟩ := List.getLast?_eq_some_iff.mp h
  rw [ordinary, List.filter_append, List.filter_singleton]
  simp [hm]

lemma printStats_eq (s : Memory P) (vmd : Domain P) : printStats s vmd =
    match (ordinary s (inactivePages s vmd)).head?, backOf s (inactivePages s vmd) with
    | none, _ => .error .nullPointer
    | some _, none => .error .uninitialised
    | some front, some back => .ok [⟨(ordinary s (inactivePages s vmd)).length,
        (s.vm.page front).id, (s.vm.page back).id⟩] := by
  have hloop : statsLoop s (s.vm.vmd_pagequeues (inactive vmd)).pq_pl none none 0 =
      ((ordinary s (inactivePages s vmd)).head?, backOf s (inactivePages s vmd),
        (ordinary s (inactivePages s vmd)).length) :=
    (statsLoop_eq (inactivePages s vmd) none none 0).trans (by simp)
  rewrite [printStats, hloop]
  rfl

/-- **The statistics**: they are exact, and read through no bad pointer, exactly when the queue
ends in an ordinary page. -/
theorem statsExact_iff (s : Memory P) (vmd : Domain P) :
    StatsExact s vmd ↔ ∃ m, (inactivePages s vmd).getLast? = some m ∧ ¬Skipped s m := by
  have hback : ∀ m, backOf s (inactivePages s vmd) = some m ↔
      (inactivePages s vmd).getLast? = some m ∧ ¬Skipped s m := fun m => by
    simp [backOf, Option.filter_eq_some_iff]
  unfold StatsExact
  rw [printStats_eq]
  cases hb : backOf s (inactivePages s vmd) with
  | none =>
    have hno : ¬∃ m, (inactivePages s vmd).getLast? = some m ∧ ¬Skipped s m := fun ⟨m, hm⟩ => by
      rw [(hback m).mpr hm] at hb
      cases hb
    refine iff_of_false (fun h => ?_) hno
    cases hf : (ordinary s (inactivePages s vmd)).head? with
    | none =>
      rw [hf] at h
      cases h
    | some front =>
      rw [hf] at h
      cases h
  | some back =>
    obtain ⟨hlast, hm⟩ := (hback back).mp hb
    have hmem := mem_ordinary.mpr ⟨List.mem_of_getLast? hlast, hm⟩
    refine iff_of_true ?_ ⟨back, hlast, hm⟩
    rw [statsOf, getLast?_ordinary hlast hm]
    cases hf : (ordinary s (inactivePages s vmd)).head? with
    | none => exact absurd (List.head?_eq_none_iff.mp hf) (List.ne_nil_of_mem hmem)
    | some front => rfl

/-! ### A small memory -/

/-- A domain whose inactive queue has been filled page by page, before the page daemon starts.
The first two elements become its markers. -/
def smallMemory (queue : List (Fin 4)) (hold_count : Fin 4 → UInt16) : Memory (Fin 4) where
  vm := {
    vmd_pagequeues := Function.update vm_page_domain_init (0, 0) ⟨queue, queue.length⟩
    page := fun m => ⟨some 0, 0, 0, 0, 0, 0, if m ∈ queue then PQ_INACTIVE else PQ_NONE,
      queue.idxOf m, 0, 0⟩
    pg_cnt := queue.length }
  use m := ⟨hold_count m, VPB_UNBUSIED, 255⟩
  vm_object _ := ⟨1, false⟩
  free := []

def smallDomain : Domain (Fin 4) := ⟨0, 0, 1, by decide⟩

/-- The page daemon has started. -/
def startedMemory (queue : List (Fin 4)) (hold_count : Fin 4 → UInt16) : Memory (Fin 4) :=
  vm_pageout_worker (smallMemory queue hold_count) smallDomain

/-- Where the head marker is alone on the queue nothing should be printed; a held page at the
end hides the page before it. -/
theorem not_statsExact :
    (inactivePages (startedMemory [] 0) smallDomain = [1] ∧
      statsOf (startedMemory [] 0) [1] = [] ∧
      printStats (startedMemory [] 0) smallDomain = .error .nullPointer ∧
      ¬StatsExact (startedMemory [] 0) smallDomain) ∧
    (inactivePages (startedMemory [2, 3] (Function.update 0 3 1)) smallDomain = [1, 2, 3] ∧
      statsOf (startedMemory [2, 3] (Function.update 0 3 1)) [1, 2, 3] = [⟨1, 0, 0⟩] ∧
      printStats (startedMemory [2, 3] (Function.update 0 3 1)) smallDomain =
        .error .uninitialised ∧
      ¬StatsExact (startedMemory [2, 3] (Function.update 0 3 1)) smallDomain) := by
  have h₁ : printStats (startedMemory [] 0) smallDomain = .error .nullPointer := rfl
  have h₂ : printStats (startedMemory [2, 3] (Function.update 0 3 1)) smallDomain =
      .error .uninitialised := rfl
  refine ⟨⟨rfl, rfl, h₁, fun h => ?_⟩, rfl, rfl, h₂, fun h => ?_⟩
  · cases h₁.symm.trans h
  · cases h₂.symm.trans h

end Messaround.Pager
