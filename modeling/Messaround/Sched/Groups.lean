import Mathlib.Algebra.BigOperators.Ring.Finset
import Mathlib.Algebra.Order.BigOperators.Group.Finset
import Mathlib.Data.List.FinRange
import Messaround.Sched.Smp

/-!
The search of the tree of processor groups for the most or the least loaded processor.

A processor is looked for along the path of the best loaded group at every level, which may not
lead to the best loaded one of all. A group is charged with all its processors, also those that
do not come into question. While `cpu_search` reads them the queues are not locked: what it reads
of each of them is an argument. The processors of a group are met in the order of their bits, as
where `HAVE_INLINE_FFSL` is defined.
-/

namespace Messaround.Sched

open Messaround.CInt

/-- The processors of a group, and the groups that it is divided into. -/
inductive CpuGroup (n : ℕ)
  | mk (cg_mask : Finset (Fin n)) (cg_child : List (CpuGroup n))

variable {n : ℕ}

def CpuGroup.cg_mask : CpuGroup n → Finset (Fin n)
  | .mk cg_mask _ => cg_mask

/-- What is read of the queues. -/
structure Readings (n : ℕ) where
  tdq_load : Fin n → ℤ
  tdq_lowpri : Fin n → UInt8
  tdq_transferable : Fin n → ℤ

def Smp.readings {T : Type} (m : Smp T n) : Readings n :=
  ⟨m.tdq_load, fun c => (m.TDQ_CPU c).tdq_lowpri, fun c => (m.TDQ_CPU c).tdq_transferable⟩

/-- The answer and the next state of the generator. -/
def sched_random (randomval : UInt32) : UInt32 × UInt32 :=
  let randomval := randomval * 69069 + 5
  (randomval >>> 16, randomval)

/-! ### The search -/

/-- What a search looks for: the processors that come into question, what each of them counts,
and which of two loads is better. -/
structure Match (n : ℕ) where
  allowed : Fin n → Bool
  load : Fin n → ℤ
  better : ℤ → ℤ → Bool
  /-- The load to start with. -/
  worst : ℤ

/-- The fields `cs_cpu` and `cs_load` of a `struct cpu_search`; `none` stands for -1. -/
structure Found (n : ℕ) where
  cs_cpu : Option (Fin n)
  cs_load : ℤ

/-- The variables of `cpu_search` and what it has found so far. -/
structure Search (n : ℕ) where
  low : Found n
  lload : ℤ
  /-- What `lgroup.cs_load` was left with. -/
  gload : ℤ
  total : ℤ
  cpumask : Finset (Fin n)
  randomval : UInt32

variable (k : Match n)

/-- The comparison of a child with what was found before. -/
def Search.compare (s : Search n) (load : ℤ) (lgroup : Found n) : Search n :=
  let s := { s with total := s.total + load, gload := lgroup.cs_load }
  if lgroup.cs_cpu.isSome ∧
      (k.better load s.lload ∨ load = s.lload ∧ k.better lgroup.cs_load s.low.cs_load) then
    { s with lload := load, low := lgroup }
  else s

/-- A child that is a processor. -/
def Search.childCpu (s : Search n) (cpu : Fin n) : Search n :=
  let load := k.load cpu
  let (rnd, randomval) := sched_random s.randomval
  let s := { s with cpumask := s.cpumask.erase cpu, randomval := randomval }
  s.compare k load
    (if k.allowed cpu then ⟨some cpu, load - (rnd % 32).toNat⟩ else ⟨none, s.gload⟩)

mutual

/-- The load of the group, what was found in it, and the state of the generator. -/
def cpu_search : CpuGroup n → Found n → UInt32 → ℤ × Found n × UInt32
  | .mk cg_mask cg_child, low, randomval =>
    let s := searchChildren cg_child ⟨low, k.worst, low.cs_load, 0, cg_mask, randomval⟩
    let s := ((List.finRange n).filter (· ∈ s.cpumask)).foldl (Search.childCpu k) s
    (s.total, s.low, s.randomval)

/-- The children that are groups, the last one first. -/
def searchChildren : List (CpuGroup n) → Search n → Search n
  | [], s => s
  | child :: rest, s =>
    let s := searchChildren rest s
    let (load, lgroup, randomval) := cpu_search child ⟨none, s.gload⟩ s.randomval
    let s := { s with cpumask := s.cpumask \ child.cg_mask, randomval := randomval }
    s.compare k load lgroup

end

/-- The least loaded one; `prefer` counts a quarter of a thread less. -/
def lowestMatch (r : Readings n) (mask : Finset (Fin n)) (pri maxload : ℤ) (prefer : Fin n) :
    Match n where
  allowed c := (r.tdq_lowpri c).toNat > pri ∧ r.tdq_load c ≤ maxload ∧ c ∈ mask
  load c := r.tdq_load c * 256 - if c = prefer then 64 else 0
  better x y := x < y
  worst := INT_MAX

def highestMatch (r : Readings n) (mask : Finset (Fin n)) (minload : ℤ) : Match n where
  allowed c := r.tdq_load c ≥ minload ∧ r.tdq_transferable c ≠ 0 ∧ c ∈ mask
  load c := r.tdq_load c * 256
  better x y := x > y
  worst := -INT_MAX - 1

/-- `cs_load` is what the stack holds where the field is not set. -/
def sched_lowest (r : Readings n) (cg : CpuGroup n) (mask : Finset (Fin n)) (pri maxload : ℤ)
    (prefer : Fin n) (cs_load : ℤ) (randomval : UInt32) : Option (Fin n) :=
  (cpu_search (lowestMatch r mask pri maxload prefer) cg ⟨none, cs_load⟩ randomval).2.1.cs_cpu

def sched_highest (r : Readings n) (cg : CpuGroup n) (mask : Finset (Fin n)) (minload : ℤ)
    (cs_load : ℤ) (randomval : UInt32) : Option (Fin n) :=
  (cpu_search (highestMatch r mask minload) cg ⟨none, cs_load⟩ randomval).2.1.cs_cpu

/-! ### The best path -/

/-- The groups below a group have no processor in common and none from outside. -/
inductive CpuGroup.Nested : CpuGroup n → Prop
  | mk {cg_mask : Finset (Fin n)} {cg_child : List (CpuGroup n)}
    (hsub : ∀ g ∈ cg_child, g.cg_mask ⊆ cg_mask)
    (hdisj : cg_child.Pairwise fun g g' => Disjoint g.cg_mask g'.cg_mask)
    (h : ∀ g ∈ cg_child, CpuGroup.Nested g) : CpuGroup.Nested (.mk cg_mask cg_child)

namespace Match

/-- The load of all processors of a group. -/
def pathLoad (g : CpuGroup n) : ℤ := ∑ c ∈ g.cg_mask, k.load c

/-- A load among those of the children in which there is something to find. -/
def Contends (gs : List (CpuGroup n)) (cs : List (Fin n)) (x : ℤ) : Prop :=
  (∃ g ∈ gs, (∃ c ∈ g.cg_mask, k.allowed c) ∧ x = k.pathLoad g) ∨
    ∃ c ∈ cs, k.allowed c ∧ x = k.load c

/-- The processors of a group that are in none of its children. -/
def own (cg_mask : Finset (Fin n)) (cg_child : List (CpuGroup n)) : List (Fin n) :=
  (List.finRange n).filter fun c => c ∈ cg_mask ∧ ∀ g ∈ cg_child, c ∉ g.cg_mask

/-- The processor comes into question, and at every level there is no better loaded child in
which there is something to find. -/
inductive BestPath : CpuGroup n → Fin n → Prop
  | group {cg_mask : Finset (Fin n)} {cg_child : List (CpuGroup n)} {g : CpuGroup n} {c : Fin n}
    (hg : g ∈ cg_child) (hc : BestPath g c)
    (hbest : ∀ x, k.Contends cg_child (own cg_mask cg_child) x → ¬k.better x (k.pathLoad g)) :
    BestPath (.mk cg_mask cg_child) c
  | cpu {cg_mask : Finset (Fin n)} {cg_child : List (CpuGroup n)} {c : Fin n}
    (hc : c ∈ own cg_mask cg_child) (hallowed : k.allowed c)
    (hbest : ∀ x, k.Contends cg_child (own cg_mask cg_child) x → ¬k.better x (k.load c)) :
    BestPath (.mk cg_mask cg_child) c

/-- The loads are ordered, and none is as bad as the one to start with. -/
structure Ordered (k : Match n) : Prop where
  trans : ∀ x y z, k.better x y → k.better y z → k.better x z
  irrefl : ∀ x, ¬k.better x x
  worst : ∀ S : Finset (Fin n), k.better (∑ c ∈ S, k.load c) k.worst

end Match

/-! ### What a scan has found -/

/-- The best of the loads that came up, and a processor it was found with. -/
structure Search.Leads (k : Match n) (A : ℤ → Prop) (B : ℤ → Fin n → Prop) (s : Search n) :
    Prop where
  none : s.low.cs_cpu = none → s.lload = k.worst ∧ ∀ x, ¬A x
  some : ∀ c, s.low.cs_cpu = some c → A s.lload ∧ B s.lload c
  best : ∀ x, A x → ¬k.better x s.lload

variable {k} {A A' : ℤ → Prop} {B B' : ℤ → Fin n → Prop} {s : Search n}

lemma Search.Leads.compare (h : s.Leads k A B) (hk : k.Ordered) {load : ℤ} {lgroup : Found n}
    (hworst : k.better load k.worst)
    (hA : ∀ x, A' x ↔ A x ∨ lgroup.cs_cpu.isSome ∧ x = load) (hB : ∀ x c, B x c → B' x c)
    (hB' : ∀ c, lgroup.cs_cpu = .some c → B' load c) : (s.compare k load lgroup).Leads k A' B' := by
  unfold Search.compare
  dsimp only
  split
  next htaken =>
    obtain ⟨hsome, hload⟩ := htaken
    refine ⟨fun hnone => ?_, fun c hc => ⟨(hA _).mpr (.inr ⟨hsome, rfl⟩), hB' c hc⟩, fun x hx => ?_⟩
    · rw [show lgroup.cs_cpu = .none from hnone] at hsome
      cases hsome
    · rcases (hA x).mp hx with hx | ⟨-, rfl⟩
      · rcases hload with hbetter | ⟨rfl, -⟩
        · exact fun hlt => h.best x hx (hk.trans _ _ _ hlt hbetter)
        · exact h.best x hx
      · exact hk.irrefl x
  next hleft =>
    refine ⟨fun hnone => ?_, fun c hc => ?_, fun x hx => ?_⟩
    · obtain ⟨hlload, hno⟩ := h.none hnone
      refine ⟨hlload, fun x hx => ?_⟩
      rcases (hA x).mp hx with hx | ⟨hsome, -⟩
      · exact hno x hx
      · exact hleft ⟨hsome, .inl (by rw [hlload]; exact hworst)⟩
    · obtain ⟨hAl, hBl⟩ := h.some c hc
      exact ⟨(hA _).mpr (.inl hAl), hB _ _ hBl⟩
    · rcases (hA x).mp hx with hx | ⟨hsome, rfl⟩
      · exact h.best x hx
      · exact fun hbetter => hleft ⟨hsome, .inl hbetter⟩

@[simp] lemma compare_total {load : ℤ} {lgroup : Found n} :
    (s.compare k load lgroup).total = s.total + load := by
  unfold Search.compare
  dsimp only
  split <;> rfl

@[simp] lemma compare_cpumask {load : ℤ} {lgroup : Found n} :
    (s.compare k load lgroup).cpumask = s.cpumask := by
  unfold Search.compare
  dsimp only
  split <;> rfl

namespace Match

/-- A processor found among the children with a load. -/
def Picks (k : Match n) (gs : List (CpuGroup n)) (cs : List (Fin n)) (x : ℤ) (c : Fin n) : Prop :=
  (∃ g ∈ gs, k.BestPath g c ∧ x = k.pathLoad g) ∨ c ∈ cs ∧ k.allowed c ∧ x = k.load c

/-- What the search of a group answers. -/
structure Answers (k : Match n) (g : CpuGroup n) (r : ℤ × Found n × UInt32) : Prop where
  total : r.1 = k.pathLoad g
  none_iff : r.2.1.cs_cpu = none ↔ ∀ c ∈ g.cg_mask, ¬k.allowed c
  best : ∀ c, r.2.1.cs_cpu = some c → k.BestPath g c

end Match

lemma childCpus_leads (hk : k.Ordered) {gs : List (CpuGroup n)} (cs ds : List (Fin n))
    (h : s.Leads k (k.Contends gs ds) (k.Picks gs ds)) :
    let s' := cs.foldl (Search.childCpu k) s
    s'.Leads k (k.Contends gs (ds ++ cs)) (k.Picks gs (ds ++ cs)) ∧
      s'.total = s.total + (cs.map k.load).sum := by
  induction cs generalizing s ds with
  | nil => simpa using h
  | cons c cs ih =>
    have hone : (s.childCpu k c).Leads k (k.Contends gs (ds ++ [c])) (k.Picks gs (ds ++ [c])) := by
      have hworst : k.better (k.load c) k.worst := by simpa using hk.worst {c}
      have hs : Search.Leads k (k.Contends gs ds) (k.Picks gs ds) { s with
          cpumask := s.cpumask.erase c
          randomval := (sched_random s.randomval).2 } := ⟨h.none, h.some, h.best⟩
      refine hs.compare hk hworst (fun x => ?_) (fun x d hd => ?_) fun d hd => ?_
      · -- `c` contends if it is allowed
        simp only [Match.Contends, List.mem_append, List.mem_singleton]
        cases ha : k.allowed c
        · simp only [Bool.false_eq_true, if_false, Option.isSome_none, false_and, or_false]
          refine or_congr_right ⟨fun ⟨d, hd, had, hx⟩ => ⟨d, hd.resolve_right ?_, had, hx⟩,
            fun ⟨d, hd, hx⟩ => ⟨d, .inl hd, hx⟩⟩
          rintro rfl
          simp [ha] at had
        · simp only [if_true, Option.isSome_some, true_and, or_assoc]
          refine or_congr_right ⟨fun ⟨d, hd, had, hx⟩ => ?_, fun hx => ?_⟩
          · rcases hd with hd | rfl
            · exact .inl ⟨d, hd, had, hx⟩
            · exact .inr hx
          · rcases hx with ⟨d, hd, hx⟩ | rfl
            · exact ⟨d, .inl hd, hx⟩
            · exact ⟨c, .inr rfl, ha, rfl⟩
      · exact hd.imp_right fun ⟨hmem, hx⟩ => ⟨List.mem_append_left _ hmem, hx⟩
      · -- the processor that is taken over is `c` itself
        split at hd
        next ha =>
          cases hd
          exact .inr ⟨by simp, ha, rfl⟩
        next => cases hd
    obtain ⟨hleads, htotal⟩ := ih (ds ++ [c]) hone
    refine ⟨by simpa using hleads, ?_⟩
    rw [List.foldl_cons, htotal]
    simp [Search.childCpu, add_assoc]

lemma searchChildren_leads (hk : k.Ordered) {gs : List (CpuGroup n)}
    (hsub : ∀ g ∈ gs, g.cg_mask ⊆ s.cpumask)
    (hdisj : gs.Pairwise fun g g' => Disjoint g.cg_mask g'.cg_mask)
    (hans : ∀ g ∈ gs, ∀ cs_load randomval, k.Answers g (cpu_search k g ⟨none, cs_load⟩ randomval))
    (hlow : s.low.cs_cpu = none) (hlload : s.lload = k.worst) :
    let s' := searchChildren k gs s
    s'.Leads k (k.Contends gs []) (k.Picks gs []) ∧
      (∀ c, c ∈ s'.cpumask ↔ c ∈ s.cpumask ∧ ∀ g ∈ gs, c ∉ g.cg_mask) ∧
      s'.total + ∑ c ∈ s'.cpumask, k.load c = s.total + ∑ c ∈ s.cpumask, k.load c := by
  induction gs with
  | nil =>
    rw [searchChildren]
    refine ⟨⟨fun _ => ⟨hlload, ?_⟩, fun c hc => ?_, ?_⟩, fun c => by simp, rfl⟩
    · simp [Match.Contends]
    · rw [hlow] at hc
      cases hc
    · simp [Match.Contends]
  | cons g gs ih =>
    obtain ⟨hg, hgs⟩ := List.pairwise_cons.mp hdisj
    obtain ⟨hleads, hmask, htotal⟩ := ih (fun g' hg' => hsub g' (List.mem_cons_of_mem g hg')) hgs
      fun g' hg' => hans g' (List.mem_cons_of_mem g hg')
    rw [searchChildren]
    set s₁ := searchChildren k gs s
    have ha := hans g List.mem_cons_self s₁.gload s₁.randomval
    set r := cpu_search k g ⟨none, s₁.gload⟩ s₁.randomval
    have hin : g.cg_mask ⊆ s₁.cpumask := fun c hc => (hmask c).mpr
      ⟨hsub g List.mem_cons_self hc, fun g' hg' hc' => Finset.disjoint_left.mp (hg g' hg') hc hc'⟩
    refine ⟨?_, fun c => ?_, ?_⟩
    · have hs : Search.Leads k (k.Contends gs []) (k.Picks gs []) { s₁ with
          cpumask := s₁.cpumask \ g.cg_mask
          randomval := r.2.2 } := ⟨hleads.none, hleads.some, hleads.best⟩
      have hworst : k.better r.1 k.worst := ha.total ▸ hk.worst g.cg_mask
      refine hs.compare hk hworst (fun x => ?_) (fun x c hc => ?_) fun c hc => ?_
      · -- the group contends if it has a processor that is allowed
        have hsome : r.2.1.cs_cpu.isSome ↔ ∃ c ∈ g.cg_mask, k.allowed c := by
          rw [← not_iff_not, Option.not_isSome_iff_eq_none, ha.none_iff]
          simp
        change _ ↔ _ ∨ r.2.1.cs_cpu.isSome ∧ x = r.1
        rw [hsome, ha.total]
        simp only [Match.Contends, List.mem_cons, List.not_mem_nil, false_and, exists_false,
          or_false]
        constructor
        · rintro ⟨g', rfl | hg', hx⟩
          · exact .inr hx
          · exact .inl ⟨g', hg', hx⟩
        · rintro (⟨g', hg', hx⟩ | hx)
          · exact ⟨g', .inr hg', hx⟩
          · exact ⟨g, .inl rfl, hx⟩
      · exact hc.imp_left fun ⟨g', hg', hx⟩ => ⟨g', List.mem_cons_of_mem g hg', hx⟩
      · exact .inl ⟨g, List.mem_cons_self, ha.best c hc, ha.total⟩
    · simp only [compare_cpumask, Finset.mem_sdiff, hmask, List.forall_mem_cons]
      tauto
    · -- what has been added up leaves the mask
      simp only [compare_total, compare_cpumask]
      have hsum := Finset.sum_sdiff (f := k.load) hin
      rw [← htotal, ← hsum, ha.total, Match.pathLoad]
      omega

/-- **The search** of a group: it adds up the load of all its processors, finds one if any comes
into question, and finds it along a best path. -/
theorem cpu_search_answers (hk : k.Ordered) {g : CpuGroup n} (hg : g.Nested) (cs_load : ℤ)
    (randomval : UInt32) : k.Answers g (cpu_search k g ⟨none, cs_load⟩ randomval) := by
  induction hg generalizing cs_load randomval with
  | @mk cg_mask cg_child hsub hdisj hchild ih =>
    rw [cpu_search]
    obtain ⟨hleads, hmask, htotal⟩ := searchChildren_leads
      (s := ⟨⟨none, cs_load⟩, k.worst, cs_load, 0, cg_mask, randomval⟩) hk hsub hdisj ih rfl rfl
    set s₁ := searchChildren k cg_child ⟨⟨none, cs_load⟩, k.worst, cs_load, 0, cg_mask, randomval⟩
    have hown : (List.finRange n).filter (· ∈ s₁.cpumask) = Match.own cg_mask cg_child :=
      List.filter_congr fun c _ => by simp only [hmask]
    obtain ⟨hfinal, hsum⟩ := childCpus_leads hk (Match.own cg_mask cg_child) [] hleads
    rw [List.nil_append] at hfinal
    rw [hown]
    set s₂ := (Match.own cg_mask cg_child).foldl (Search.childCpu k) s₁
    have hmem : ∀ c, c ∈ Match.own cg_mask cg_child ↔ c ∈ cg_mask ∧ ∀ g ∈ cg_child, c ∉ g.cg_mask :=
      fun c => by simp [Match.own]
    refine ⟨?_, ?_, fun c hc => ?_⟩
    · -- the processors of the group are its own and those of its children
      have hlist : ((Match.own cg_mask cg_child).map k.load).sum = ∑ c ∈ s₁.cpumask, k.load c := by
        have hset : (Match.own cg_mask cg_child).toFinset = s₁.cpumask := by
          ext c
          rw [List.mem_toFinset, hmem, hmask]
        have hnodup : (Match.own cg_mask cg_child).Nodup := (List.nodup_finRange n).filter _
        rw [← hset, List.sum_toFinset _ hnodup]
      have hzero : s₁.total + ∑ c ∈ s₁.cpumask, k.load c = 0 + ∑ c ∈ cg_mask, k.load c := htotal
      calc s₂.total = s₁.total + ((Match.own cg_mask cg_child).map k.load).sum := hsum
        _ = ∑ c ∈ cg_mask, k.load c := by rw [hlist, hzero, zero_add]
    · -- no processor is found only where none is allowed
      constructor
      · intro hnone c hc ha
        obtain ⟨-, hno⟩ := hfinal.none hnone
        by_cases hin : ∃ g ∈ cg_child, c ∈ g.cg_mask
        · obtain ⟨g, hg, hcg⟩ := hin
          exact hno _ (.inl ⟨g, hg, ⟨c, hcg, ha⟩, rfl⟩)
        · exact hno _ (.inr ⟨c, (hmem c).mpr ⟨hc, fun g hg hcg => hin ⟨g, hg, hcg⟩⟩, ha, rfl⟩)
      · intro hno
        refine Option.eq_none_iff_forall_ne_some.mpr fun c hc => ?_
        obtain ⟨⟨g, hg, ⟨d, hd, ha⟩, -⟩ | ⟨d, hd, ha, -⟩, -⟩ := hfinal.some c hc
        · exact hno d (hsub g hg hd) ha
        · exact hno d ((hmem d).mp hd).1 ha
    · -- the path leads through a child, or ends here
      obtain ⟨-, hpick⟩ := hfinal.some c hc
      rcases hpick with ⟨g, hg, hbest, hx⟩ | ⟨hown, ha, hx⟩
      · exact .group hg hbest (hx ▸ hfinal.best)
      · exact .cpu hown ha (hx ▸ hfinal.best)

lemma Match.BestPath.mem {g : CpuGroup n} {c : Fin n} (h : k.BestPath g c) (hg : g.Nested) :
    c ∈ g.cg_mask ∧ k.allowed c := by
  induction h with
  | @group cg_mask cg_child g c hmem _ _ ih =>
    cases hg with
    | mk hsub _ hchild => exact (ih (hchild g hmem)).imp_left fun hc => hsub g hmem hc
  | @cpu cg_mask cg_child c hc ha _ =>
    rw [Match.own, List.mem_filter, decide_eq_true_eq] at hc
    exact ⟨hc.2.1, ha⟩

/-! ### What comes into question -/

lemma compare_allowed {load : ℤ} {lgroup : Found n} (hs : ∀ c, s.low.cs_cpu = .some c → k.allowed c)
    (hl : ∀ c, lgroup.cs_cpu = .some c → k.allowed c) :
    ∀ c, (s.compare k load lgroup).low.cs_cpu = .some c → k.allowed c := by
  unfold Search.compare
  dsimp only
  split
  · exact hl
  · exact hs

lemma searchChildren_allowed {gs : List (CpuGroup n)}
    (hgs : ∀ g ∈ gs, ∀ cs_load randomval c,
      (cpu_search k g ⟨none, cs_load⟩ randomval).2.1.cs_cpu = some c → k.allowed c)
    (hs : ∀ c, s.low.cs_cpu = some c → k.allowed c) :
    ∀ c, (searchChildren k gs s).low.cs_cpu = some c → k.allowed c := by
  induction gs with
  | nil =>
    rw [searchChildren]
    exact hs
  | cons g gs ih =>
    have ih := ih fun g' hg' => hgs g' (List.mem_cons_of_mem g hg')
    rw [searchChildren]
    exact compare_allowed ih (hgs g List.mem_cons_self _ _)

/-- A processor that is found comes into question, however the loads compare. -/
lemma cpu_search_allowed {g : CpuGroup n} (hg : g.Nested) (cs_load : ℤ) (randomval : UInt32) :
    ∀ c, (cpu_search k g ⟨none, cs_load⟩ randomval).2.1.cs_cpu = some c → k.allowed c := by
  induction hg generalizing cs_load randomval with
  | @mk cg_mask cg_child _ _ _ ih =>
    have hgroups := searchChildren_allowed
      (s := ⟨⟨none, cs_load⟩, k.worst, cs_load, 0, cg_mask, randomval⟩) ih nofun
    rw [cpu_search]
    dsimp only
    -- the processors of the group itself, one after another
    refine List.foldlRecOn (motive := fun s => ∀ c, s.low.cs_cpu = some c → k.allowed c) _
      (Search.childCpu k) hgroups fun s hs cpu _ => ?_
    unfold Search.childCpu
    refine compare_allowed hs fun c hc => ?_
    split at hc
    next ha =>
      cases hc
      exact ha
    next => cases hc

lemma sched_lowest_mem {r : Readings n} {cg : CpuGroup n} (hg : cg.Nested) {mask : Finset (Fin n)}
    {pri maxload : ℤ} {prefer : Fin n} {cs_load : ℤ} {randomval : UInt32} {c : Fin n}
    (h : sched_lowest r cg mask pri maxload prefer cs_load randomval = some c) : c ∈ mask :=
  (of_decide_eq_true (cpu_search_allowed hg cs_load randomval c h)).2.2

lemma sched_highest_mem {r : Readings n} {cg : CpuGroup n} (hg : cg.Nested)
    {mask : Finset (Fin n)} {minload cs_load : ℤ} {randomval : UInt32} {c : Fin n}
    (h : sched_highest r cg mask minload cs_load randomval = some c) : c ∈ mask :=
  (of_decide_eq_true (cpu_search_allowed hg cs_load randomval c h)).2.2

/-! ### The two searches -/

/-- Loads that are counted without an overflow. -/
structure Readings.Bounded (r : Readings n) : Prop where
  nonneg : ∀ c, 0 ≤ r.tdq_load c
  total : (∑ c, r.tdq_load c) * 256 < INT_MAX

variable {r : Readings n}

lemma Readings.Bounded.sum_le (h : r.Bounded) (S : Finset (Fin n)) :
    0 ≤ ∑ c ∈ S, r.tdq_load c ∧ ∑ c ∈ S, r.tdq_load c ≤ ∑ c, r.tdq_load c :=
  ⟨Finset.sum_nonneg fun c _ => h.nonneg c,
    Finset.sum_le_sum_of_subset_of_nonneg (Finset.subset_univ S) fun c _ _ => h.nonneg c⟩

lemma ordered_lowest (h : r.Bounded) (mask : Finset (Fin n)) (pri maxload : ℤ) (prefer : Fin n) :
    (lowestMatch r mask pri maxload prefer).Ordered := by
  refine ⟨fun x y z => ?_, fun x => ?_, fun S => ?_⟩ <;>
    simp only [lowestMatch, decide_eq_true_eq]
  · exact lt_trans
  · exact lt_irrefl x
  · obtain ⟨-, hle⟩ := h.sum_le S
    have htotal := h.total
    have hterm : ∑ c ∈ S, (r.tdq_load c * 256 - if c = prefer then 64 else 0) ≤
        ∑ c ∈ S, r.tdq_load c * 256 :=
      Finset.sum_le_sum fun c _ => by split <;> omega
    rw [← Finset.sum_mul] at hterm
    omega

lemma ordered_highest (h : r.Bounded) (mask : Finset (Fin n)) (minload : ℤ) :
    (highestMatch r mask minload).Ordered := by
  refine ⟨fun x y z => ?_, fun x => ?_, fun S => ?_⟩ <;>
    simp only [highestMatch, decide_eq_true_eq]
  · exact fun hxy hyz => lt_trans hyz hxy
  · exact lt_irrefl x
  · obtain ⟨hnonneg, -⟩ := h.sum_le S
    rw [← Finset.sum_mul]
    omega

/-- What a search is to answer: a processor in question on a best path, if there is one. -/
def Match.Finds (k : Match n) (g : CpuGroup n) (cs_cpu : Option (Fin n)) : Prop :=
  (cs_cpu = none ↔ ∀ c ∈ g.cg_mask, ¬k.allowed c) ∧
    ∀ c, cs_cpu = some c → c ∈ g.cg_mask ∧ k.allowed c ∧ k.BestPath g c

lemma cpu_search_finds (hk : k.Ordered) {g : CpuGroup n} (hg : g.Nested) (cs_load : ℤ)
    (randomval : UInt32) : k.Finds g (cpu_search k g ⟨none, cs_load⟩ randomval).2.1.cs_cpu := by
  have h := cpu_search_answers hk hg cs_load randomval
  refine ⟨h.none_iff, fun c hc => ?_⟩
  obtain ⟨hmem, ha⟩ := (h.best c hc).mem hg
  exact ⟨hmem, ha, h.best c hc⟩

/-- **The least and the most loaded processor**: each is found along a best path of the tree,
whatever the noise of `sched_random` is and whatever the field `cs_load` held. -/
theorem sched_search_finds {cg : CpuGroup n} (hr : r.Bounded) (hg : cg.Nested)
    (mask : Finset (Fin n)) (cs_load : ℤ) (randomval : UInt32) :
    (∀ pri maxload prefer, (lowestMatch r mask pri maxload prefer).Finds cg
      (sched_lowest r cg mask pri maxload prefer cs_load randomval)) ∧
    ∀ minload, (highestMatch r mask minload).Finds cg
      (sched_highest r cg mask minload cs_load randomval) :=
  ⟨fun pri maxload prefer =>
      cpu_search_finds (ordered_lowest hr mask pri maxload prefer) hg cs_load randomval,
    fun minload => cpu_search_finds (ordered_highest hr mask minload) hg cs_load randomval⟩

local instance neZero_fourCpus : NeZero 4 := ⟨four_ne_zero⟩

/-- Four processors in two groups, of which the second one holds the least loaded processor. -/
def twoCaches : CpuGroup 4 := .mk {0, 1, 2, 3} [.mk {0, 1} [], .mk {2, 3} []]

def twoCachesLoads : Readings 4 where
  tdq_load c := [2, 2, 5, 1].getD c 0
  tdq_lowpri _ := 200
  tdq_transferable _ := 1

lemma nested_twoCaches : twoCaches.Nested := by
  have hleaf : ∀ S : Finset (Fin 4), (CpuGroup.mk S []).Nested := fun S => ⟨by simp, by simp, by simp⟩
  refine ⟨?_, ?_, ?_⟩
  · simp only [List.forall_mem_cons, CpuGroup.cg_mask]
    decide
  · rw [List.pairwise_pair]
    exact Finset.disjoint_left.mpr (by decide)
  · simp [hleaf]

/-- The search is led to a processor that is more loaded than the last one. -/
theorem sched_search_finds_twoCaches :
    sched_lowest twoCachesLoads twoCaches Finset.univ (-1) INT_MAX 0 0 0 = some 0 ∧
      twoCachesLoads.tdq_load 3 < twoCachesLoads.tdq_load 0 ∧
      (lowestMatch twoCachesLoads Finset.univ (-1) INT_MAX 0).BestPath twoCaches 0 := by
  have hr : twoCachesLoads.Bounded := ⟨by decide, by decide⟩
  have hfound : sched_lowest twoCachesLoads twoCaches Finset.univ (-1) INT_MAX 0 0 0 = some 0 := rfl
  have hfinds := (sched_search_finds hr nested_twoCaches Finset.univ 0 0).1 (-1) INT_MAX 0
  exact ⟨hfound, by decide, (hfinds.2 0 hfound).2.2⟩

end Messaround.Sched
