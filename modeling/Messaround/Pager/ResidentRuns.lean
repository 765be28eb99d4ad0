import Messaround.Pager.Residents

/-!
The resident pages over whole runs: where the calls have put the pages, and how they are found
by index.
-/

namespace Messaround.Pager.Residents

variable {P τ : Type} [DecidableEq P] {x : Radix P τ} {v v' : Vm P τ} {m : P} {o : ℕ}
  {i : Pindex} {pre post : List P}

/-! ### Calls -/

/-- The calls that move pages. -/
inductive Call (P : Type)
  | insert (m : P) (o : ℕ) (i : Pindex)
  | remove (m : P)
  | replace (m : P) (o : ℕ) (i : Pindex)
  | rename (m : P) (o : ℕ) (i : Pindex)

inductive Reply (P : Type)
  | code (r : ℤ)
  | void
  | page (m : P)

namespace Call

def step (x : Radix P τ) (v : Vm P τ) : Call P → Except Kassert (Reply P × Vm P τ)
  | insert m o i => do
    let (r, v) ← vm_page_insert x v m o i
    return (.code r, v)
  | remove m => do return (.void, ← vm_page_remove x v m)
  | replace m o i => do
    let (mold, v) ← vm_page_replace x v m o i
    return (.page mold, v)
  | rename m o i => do
    let (r, v) ← vm_page_rename x v m o i
    return (.code r, v)

/-- A page is renamed to another object than its own. -/
def Between (v : Vm P τ) : Call P → Prop
  | rename m o _ => (v.page m).object ≠ some o
  | _ => True

/-- The calls that a kernel with the table `s` allows. A page that is to be replaced is busied,
and one that is moved is valid; neither is in the table, nor are the paging queues. -/
def Permitted (x : Radix P τ) (v : Vm P τ) (s : Table P) : Call P → Prop
  | insert m o i => (∀ o j, s o j ≠ some m) ∧ s o i = none
  | remove _ => True
  | replace m o i => (∀ o j, s o j ≠ some m) ∧ (v.page m).queue = PQ_NONE ∧
      ∃ mold, s o i = some mold ∧ (v.page mold).queue = PQ_NONE ∧ (v.page mold).xbusied = true
  | rename m o i => s o i = none ∧
      (x.insert (v.object o).rtree i m ≠ none → (v.page m).valid = VM_PAGE_BITS_ALL)

/-- What a call replies and leaves of the table `s`. Where memory is missing, it leaves all. -/
def Gives (s : Table P) : Call P → Reply P → Table P → Prop
  | insert m o i, r, s' => r = .code 0 ∧ s' = s.put o i m ∨ r = .code 1 ∧ s' = s
  | remove m, r, s' => r = .void ∧ s' = s.detach m
  | replace m o i, r, s' => ∃ mold, s o i = some mold ∧ r = .page mold ∧ s' = s.put o i m
  | rename m o i, r, s' => r = .code 0 ∧ s' = (s.detach m).put o i m ∨ r = .code 1 ∧ s' = s

end Call

/-! ### Runs -/

/-- **One call** that the table permits goes through, and the others stop the kernel. -/
lemma Call.step_sound (hs : v.Sound x) (hx : x.Lawful) {c : Call P} (hb : c.Between v) :
    (c.Permitted x v (v.table x) ∧ ∃ r v', c.step x v = .ok (r, v') ∧ v'.Sound x ∧
        c.Gives (v.table x) r (v'.table x)) ∨
      (¬ c.Permitted x v (v.table x) ∧ ∃ e, c.step x v = .error e) := by
  cases c with
  | insert m o i =>
    by_cases hp : (v.page m).object = none ∧ v.table x o i = none
    · obtain ⟨r, v', hv, hs', hr⟩ := insert_sound hs hx hp.1 hp.2
      refine .inl ⟨⟨hs.nowhere.mpr hp.1, hp.2⟩, .code r, v', ?_, hs', ?_⟩
      · rw [Call.step, hv, ok_bind]
        rfl
      · exact hr.imp (fun h => ⟨congrArg Reply.code h.1, h.2⟩) fun h => ⟨congrArg Reply.code h.1, h.2⟩
    · refine .inr ⟨fun h => hp ⟨hs.nowhere.mp h.1, h.2⟩, ?_⟩
      obtain ⟨e, he⟩ : ∃ e, vm_page_insert x v m o i = .error e := by
        by_cases hout : (v.page m).object = none
        · exact insert_stops_used hs hx fun hi => hp ⟨hout, hi⟩
        · exact insert_stops hout
      exact ⟨e, by rw [Call.step, he]; rfl⟩
  | remove m =>
    obtain ⟨v', hv, hs', -, -, -, htable⟩ := remove_sound hs hx m
    refine .inl ⟨trivial, .void, v', ?_, hs', rfl, htable⟩
    rw [Call.step, hv, ok_bind]
    rfl
  | replace m o i =>
    by_cases hp : (v.page m).object = none ∧ (v.page m).queue = PQ_NONE ∧
        ∃ mold, v.table x o i = some mold ∧ (v.page mold).queue = PQ_NONE ∧
          (v.page mold).xbusied = true
    · obtain ⟨hout, hq, mold, hi, hq', hbusy⟩ := hp
      obtain ⟨v', hv, hs', htable⟩ := replace_sound hs hx hout hq hi hq' hbusy
      refine .inl ⟨⟨hs.nowhere.mpr hout, hq, mold, hi, hq', hbusy⟩, .page mold, v', ?_, hs', mold,
        hi, rfl, htable⟩
      rw [Call.step, hv, ok_bind]
      rfl
    · obtain ⟨e, he⟩ := replace_stops hs hp
      exact .inr ⟨fun h => hp ⟨hs.nowhere.mp h.1, h.2⟩, e, by rw [Call.step, he]; rfl⟩
  | rename m o i =>
    by_cases hp : v.table x o i = none ∧
        (x.insert (v.object o).rtree i m ≠ none → (v.page m).valid = VM_PAGE_BITS_ALL)
    · obtain ⟨r, v', hv, hs', hr⟩ := rename_sound hs hx hb hp.1 hp.2
      refine .inl ⟨hp, .code r, v', ?_, hs', ?_⟩
      · rw [Call.step, hv, ok_bind]
        rfl
      · exact hr.imp (fun h => ⟨congrArg Reply.code h.1, h.2⟩) fun h => ⟨congrArg Reply.code h.1, h.2⟩
    · obtain ⟨e, he⟩ := rename_stops hs hx hb hp
      exact .inr ⟨hp, e, by rw [Call.step, he]; rfl⟩

/-- A memory whose pages are in no object. -/
structure Empty (x : Radix P τ) (v : Vm P τ) : Prop where
  page : ∀ m, (v.page m).object = none
  memq : ∀ o, (v.object o).memq = []
  rtree : ∀ o i, x.lookup (v.object o).rtree i = none
  count : ∀ o, (v.object o).resident_page_count = 0
  holds : ∀ o, (v.object o).holds = 0

/-- The calls so far with their replies, and what the rest of the kernel does to the pages in
between: it leaves them in their places. -/
inductive Reached (x : Radix P τ) : List (Call P × Reply P) → Vm P τ → Prop
  | empty {v : Vm P τ} (h : Empty x v) : Reached x [] v
  | call {cs : List (Call P × Reply P)} {v v' : Vm P τ} {c : Call P} {r : Reply P}
      (h : Reached x cs v) (hb : c.Between v) (hc : c.step x v = .ok (r, v')) :
      Reached x ((c, r) :: cs) v'
  | other {cs : List (Call P × Reply P)} {v : Vm P τ} (h : Reached x cs v) (m : P) (p : Page)
      (hobj : p.object = (v.page m).object) (hidx : p.pindex = (v.page m).pindex) :
      Reached x cs (v.setPage m p)

/-- The calls on the table alone, the last one first. -/
inductive Table.Reached : List (Call P × Reply P) → Table P → Prop
  | empty : Table.Reached [] fun _ _ => none
  | call {cs : List (Call P × Reply P)} {s s' : Table P} {c : Call P} {r : Reply P}
      (h : Table.Reached cs s) (hc : c.Gives s r s') : Table.Reached ((c, r) :: cs) s'

omit [DecidableEq P] in
lemma Empty.sound (h : Empty x v) : v.Sound x := by
  refine fun o => ⟨?_, fun m => ?_, fun i m => ?_, ?_, ?_⟩
  · rw [h.memq]
    exact List.Pairwise.nil
  · rw [h.memq, h.page]
    simp
  · rw [h.rtree, h.page]
    simp
  · rw [h.count, h.memq]
    rfl
  · rw [h.holds, h.memq]
    simp

lemma Reached.sound (hx : x.Lawful) {cs : List (Call P × Reply P)} (h : Reached x cs v) :
    v.Sound x ∧ Table.Reached cs (v.table x) := by
  induction h with
  | empty h => exact ⟨h.sound, (funext₂ h.rtree : Vm.table x _ = _) ▸ .empty⟩
  | call h hb hc ih =>
    obtain ⟨hs, ht⟩ := ih
    rcases Call.step_sound hs hx hb with ⟨-, r', v₁, hv, hs', hg⟩ | ⟨-, e, he⟩
    · rw [hc] at hv
      cases hv
      exact ⟨hs', ht.call hg⟩
    · rw [hc] at he
      cases he
  | other h m p hobj hidx ih => exact ⟨ih.1.setPage hobj fun _ => hidx, ih.2⟩

/-- **The lists of the resident pages**: in every state that calls reach, each page is in the
trie and on the list of its object, in the order of the indices, and counted; the pages are
where the calls have put them; and the kernel stops exactly at the calls that this forbids. -/
theorem residents_of_run (hx : x.Lawful) {cs : List (Call P × Reply P)} (h : Reached x cs v) :
    v.Sound x ∧ Table.Reached cs (v.table x) ∧
      ∀ c : Call P, c.Between v →
        ((∃ r v', c.step x v = .ok (r, v')) ↔ c.Permitted x v (v.table x)) := by
  obtain ⟨hs, ht⟩ := h.sound hx
  refine ⟨hs, ht, fun c hb => ?_⟩
  rcases Call.step_sound hs hx hb with ⟨hp, r, v', hv, -⟩ | ⟨hp, e, he⟩
  · exact iff_of_true ⟨r, v', hv⟩ hp
  · refine iff_of_false ?_ hp
    rintro ⟨r, v', hv⟩
    rw [he] at hv
    cases hv

/-- Pages that are free and objects without pages. -/
def boot : Vm ℕ (List (Pindex × ℕ)) where
  page _ := ⟨⟨none, 0, 0, 0, 0, 0, PQ_NONE, 0, 0, 0⟩, 0, 0, false, false⟩
  object _ := ⟨[], [], 0, true, 0, false⟩

lemma boot_empty : Empty (Trie.assoc Pindex ℕ) boot :=
  ⟨fun _ => rfl, fun _ => rfl, fun _ _ => rfl, fun _ => rfl, fun _ => rfl⟩

/-- Page 1 is inserted at index 5 of an object, is made valid and moves to index 7 of another. -/
lemma reached_rename : ∃ v, Reached (Trie.assoc Pindex ℕ)
    [(.rename 1 1 7, .code 0), (.insert 1 0 5, .code 0)] v ∧
    v.table (Trie.assoc Pindex ℕ) 1 7 = some 1 ∧ (v.page 1).xbusied = false :=
  ⟨_, (((Reached.empty boot_empty).call (c := .insert 1 0 5) trivial rfl).other 1
    ⟨⟨some 0, 0, 0, 0, 0, 0, PQ_NONE, 0, 0, 0⟩, 5, VM_PAGE_BITS_ALL, false, false⟩ rfl rfl).call
    (c := .rename 1 1 7) (by simp [Call.Between, boot]) rfl, rfl, rfl⟩

/-- The page that has moved is not busied, so that page 2 cannot replace it. -/
theorem residents_of_run_rename : ∃ v, Reached (Trie.assoc Pindex ℕ)
    [(.rename 1 1 7, .code 0), (.insert 1 0 5, .code 0)] v ∧
    v.Sound (Trie.assoc Pindex ℕ) ∧ (v.page 1).object = some 1 ∧
    ¬ ∃ r v', (Call.replace 2 1 7).step (Trie.assoc Pindex ℕ) v = .ok (r, v') := by
  obtain ⟨v, h, hat, hidle⟩ := reached_rename
  obtain ⟨hs, -, hstops⟩ := residents_of_run Trie.assoc_lawful h
  refine ⟨v, h, hs, (hs.table_eq.mp hat).1, fun hgo => ?_⟩
  obtain ⟨-, -, mold, hmold, -, hbusy⟩ := (hstops (.replace 2 1 7) trivial).mp hgo
  obtain rfl := Option.some.inj (hat.symm.trans hmold)
  rw [hidle] at hbusy
  cases hbusy

/-! ### Neighbours -/

/-- The page of the object `o` with the least index in `S`. -/
def Vm.Least (v : Vm P τ) (o : ℕ) (S : Pindex → Prop) : Option P → Prop
  | none => ∀ q, (v.page q).object = some o → ¬ S (v.page q).pindex
  | some m => (v.page m).object = some o ∧ S (v.page m).pindex ∧
      ∀ q, (v.page q).object = some o → S (v.page q).pindex → (v.page m).pindex ≤ (v.page q).pindex

omit [DecidableEq P] in
/-- **`vm_page_find_least`.** -/
lemma find_least_sound (hs : v.Sound x) (hx : x.Lawful) (o : ℕ) (i : Pindex) :
    v.Least o (i ≤ ·) (vm_page_find_least x v o i) := by
  have hl := hs o
  have hsorted := hl.sorted
  rw [List.pairwise_map] at hsorted
  rw [vm_page_find_least]
  cases hmemq : (v.object o).memq with
  | nil =>
    intro q hq
    have hmem := (hl.listed q).mpr hq
    rw [hmemq] at hmem
    cases hmem
  | cons m l =>
    rw [hmemq] at hsorted
    rw [List.head?_cons]
    dsimp only
    split
    next =>
      cases hge : x.lookup_ge (v.object o).rtree i with
      | none => exact fun q hq hi => hl.lookup_none (hx.ge_none _ _ hge _ hi) hq rfl
      | some n =>
        obtain ⟨j, hj, hat, hgap⟩ := hx.ge_some _ _ _ hge
        obtain ⟨hobj, rfl⟩ := (hl.stored j n).mp hat
        refine ⟨hobj, hj, fun q hq hi => ?_⟩
        by_contra hlt
        exact hl.lookup_none (hgap _ hi (not_le.mp hlt)) hq rfl
    next hle =>
      refine ⟨(hl.listed m).mp (by rw [hmemq]; exact List.mem_cons_self), not_lt.mp hle,
        fun q hq _ => ?_⟩
      have hmem := (hl.listed q).mpr hq
      rw [hmemq] at hmem
      rcases List.mem_cons.mp hmem with rfl | hmem
      · exact le_rfl
      · exact ((List.pairwise_cons.mp hsorted).1 q hmem).le

omit [DecidableEq P] in
lemma Vm.Lists.sides (h : v.Lists x o) (hmemq : (v.object o).memq = pre ++ m :: post) :
    (∀ q ∈ pre, (v.page q).pindex < (v.page m).pindex) ∧
      ∀ q ∈ post, (v.page m).pindex < (v.page q).pindex := by
  have hsorted := h.sorted
  rw [List.pairwise_map, hmemq] at hsorted
  obtain ⟨-, htail, hcross⟩ := List.pairwise_append.mp hsorted
  exact ⟨fun q hq => hcross q hq m List.mem_cons_self, (List.pairwise_cons.mp htail).1⟩

omit [DecidableEq P] in
lemma head_of_first {S : P → P → Prop} {l : List P} {q : P} (hl : l.Pairwise S) (hq : q ∈ l)
    (hfirst : ∀ n ∈ l, ¬ S n q) : l.head? = some q := by
  cases l with
  | nil => cases hq
  | cons n l =>
    rcases List.mem_cons.mp hq with rfl | hmem
    · rfl
    · exact absurd ((List.pairwise_cons.mp hl).1 q hmem) (hfirst n List.mem_cons_self)

lemma neighbour_sound {k : Pindex} {R : P → Prop} (hm : (v.page m).object = some o)
    (hnd : (pre ++ m :: post).Nodup) (hpost : ∀ n ∈ post, (v.page n).object = some o)
    (hk : ∀ n ∈ post, (v.page n).pindex = k ↔ R n)
    (hhead : ∀ q, (v.page q).object = some o → R q → post.head? = some q) :
    ∃ r, neighbour v m (pre ++ m :: post) k = .ok r ∧
      ∀ q, r = some q ↔ (v.page q).object = some o ∧ R q := by
  rw [neighbour, TAILQ_NEXT_append (notMem_parts hnd).1]
  cases hp : post.head? with
  | none =>
    refine ⟨none, rfl, fun q => ⟨fun h => (Option.some_ne_none q h.symm).elim, fun h => ?_⟩⟩
    exact hp.symm.trans (hhead q h.1 h.2)
  | some n =>
    have hn := List.mem_of_mem_head? hp
    dsimp only
    rw [hpost n hn, hm, if_neg (not_not.mpr rfl)]
    by_cases hidx : (v.page n).pindex = k
    · rw [if_neg (not_not.mpr hidx)]
      refine ⟨_, rfl, fun q => ⟨fun h => ?_, fun h => hp.symm.trans (hhead q h.1 h.2)⟩⟩
      obtain rfl := Option.some.inj h
      exact ⟨hpost n hn, (hk n hn).mp hidx⟩
    · rw [if_pos hidx]
      refine ⟨none, rfl, fun q => ⟨fun h => (Option.some_ne_none q h.symm).elim, fun h => ?_⟩⟩
      obtain rfl := Option.some.inj (hp.symm.trans (hhead q h.1 h.2))
      exact absurd ((hk n hn).mpr h.2) hidx

/-- **`vm_page_next`** gives the page at the next index, if there is one. -/
lemma next_sound (hs : v.Sound x) (hm : (v.page m).object = some o) :
    ∃ r, vm_page_next v m = .ok r ∧ ∀ q, r = some q ↔
      (v.page q).object = some o ∧ ((v.page q).pindex : ℕ) = (v.page m).pindex + 1 := by
  have hl := hs o
  obtain ⟨pre, post, hmemq⟩ := List.append_of_mem ((hl.listed m).mpr hm)
  obtain ⟨hpre, hpost⟩ := hl.sides hmemq
  have hnd := hl.nodup
  have hsorted := hl.sorted
  rw [List.pairwise_map, hmemq] at hsorted
  rw [hmemq] at hnd
  rw [vm_page_next, hm]
  dsimp only
  rw [hmemq]
  refine neighbour_sound hm hnd (fun n hn => (hl.listed n).mp (by rw [hmemq]; simp [hn]))
    (fun n hn => ?_) fun q hq hidx => ?_
  · -- behind the page the next index does not wrap
    have hlt := Fin.lt_def.mp (hpost n hn)
    have hbound := (v.page n).pindex.isLt
    have hone : ((1 : Pindex) : ℕ) = 1 := rfl
    rw [Fin.ext_iff, Fin.val_add, hone, Nat.mod_eq_of_lt (by omega)]
  · have hmem := (hl.listed q).mpr hq
    rw [hmemq, List.mem_append, List.mem_cons] at hmem
    rcases hmem with hmem | rfl | hmem
    · have := Fin.lt_def.mp (hpre q hmem)
      omega
    · omega
    · refine head_of_first
        (List.pairwise_cons.mp (List.pairwise_append.mp hsorted).2.1).2 hmem fun n hn hlt => ?_
      have h1 := Fin.lt_def.mp (hpost n hn)
      have h2 := Fin.lt_def.mp hlt
      omega

/-- **`vm_page_prev`** gives the page at the index before, if there is one. -/
lemma prev_sound (hs : v.Sound x) (hm : (v.page m).object = some o) :
    ∃ r, vm_page_prev v m = .ok r ∧ ∀ q, r = some q ↔
      (v.page q).object = some o ∧ ((v.page q).pindex : ℕ) + 1 = (v.page m).pindex := by
  have hl := hs o
  obtain ⟨pre, post, hmemq⟩ := List.append_of_mem ((hl.listed m).mpr hm)
  obtain ⟨hpre, hpost⟩ := hl.sides hmemq
  have hrev : (v.object o).memq.reverse = post.reverse ++ m :: pre.reverse := by
    rw [hmemq, List.reverse_append, List.reverse_cons, List.append_assoc, List.singleton_append]
  have hnd := List.nodup_reverse.mpr hl.nodup
  have hsorted := hl.sorted
  rw [List.pairwise_map, hmemq] at hsorted
  rw [hrev] at hnd
  rw [vm_page_prev, hm]
  dsimp only
  rw [hrev]
  refine neighbour_sound hm hnd (fun n hn => (hl.listed n).mp (by
      rw [hmemq]
      exact List.mem_append_left _ (List.mem_reverse.mp hn)))
    (fun n hn => ?_) fun q hq hidx => ?_
  · -- before the page the index before does not wrap
    have hlt := Fin.lt_def.mp (hpre n (List.mem_reverse.mp hn))
    have hbound := (v.page m).pindex.isLt
    have hone : ((1 : Pindex) : ℕ) = 1 := rfl
    rw [Fin.ext_iff, Fin.sub_def, hone]
    dsimp only
    rw [show ULONG_SIZE - 1 + ((v.page m).pindex : ℕ) =
      (v.page m).pindex - 1 + ULONG_SIZE by omega, Nat.add_mod_right, Nat.mod_eq_of_lt (by omega)]
    omega
  · have hmem := (hl.listed q).mpr hq
    rw [hmemq, List.mem_append, List.mem_cons] at hmem
    rcases hmem with hmem | rfl | hmem
    · refine head_of_first (List.pairwise_reverse.mpr (List.pairwise_append.mp hsorted).1)
        (List.mem_reverse.mpr hmem) fun n hn hlt => ?_
      have h1 := Fin.lt_def.mp (hpre n (List.mem_reverse.mp hn))
      have h2 := Fin.lt_def.mp hlt
      omega
    · omega
    · have := Fin.lt_def.mp (hpost q hmem)
      omega

/-- **The search by index** in every state that calls reach: `vm_page_find_least` gives the page
with the least index from `i` on, and `vm_page_next` and `vm_page_prev` give the pages at the
indices beside that of `m`. -/
theorem neighbours_of_run (hx : x.Lawful) {cs : List (Call P × Reply P)} (h : Reached x cs v)
    (o : ℕ) : (∀ i, v.Least o (i ≤ ·) (vm_page_find_least x v o i)) ∧
      ∀ m, (v.page m).object = some o →
        (∃ r, vm_page_next v m = .ok r ∧ ∀ q, r = some q ↔
          (v.page q).object = some o ∧ ((v.page q).pindex : ℕ) = (v.page m).pindex + 1) ∧
        ∃ r, vm_page_prev v m = .ok r ∧ ∀ q, r = some q ↔
          (v.page q).object = some o ∧ ((v.page q).pindex : ℕ) + 1 = (v.page m).pindex := by
  have hs := (h.sound hx).1
  exact ⟨find_least_sound hs hx o, fun m hm => ⟨next_sound hs hm, prev_sound hs hm⟩⟩

/-- Page 1 is at index 5 and page 2 behind it. -/
lemma reached_two : ∃ v, Reached (Trie.assoc Pindex ℕ)
    [(.insert 2 0 6, .code 0), (.insert 1 0 5, .code 0)] v ∧
    v.table (Trie.assoc Pindex ℕ) 0 5 = some 1 ∧ v.table (Trie.assoc Pindex ℕ) 0 6 = some 2 :=
  ⟨_, ((Reached.empty boot_empty).call (c := .insert 1 0 5) trivial rfl).call
    (c := .insert 2 0 6) trivial rfl, rfl, rfl⟩

theorem neighbours_of_run_two : ∃ v, Reached (Trie.assoc Pindex ℕ)
    [(.insert 2 0 6, .code 0), (.insert 1 0 5, .code 0)] v ∧
    v.Least 0 (6 ≤ ·) (vm_page_find_least (Trie.assoc Pindex ℕ) v 0 6) ∧
    vm_page_next v 1 = .ok (some 2) ∧ vm_page_prev v 2 = .ok (some 1) := by
  obtain ⟨v, h, hone, htwo⟩ := reached_two
  have hs := (h.sound Trie.assoc_lawful).1
  obtain ⟨hobj₁, hidx₁⟩ := hs.table_eq.mp hone
  obtain ⟨hobj₂, hidx₂⟩ := hs.table_eq.mp htwo
  obtain ⟨hleast, hbeside⟩ := neighbours_of_run Trie.assoc_lawful h 0
  obtain ⟨⟨next, hnext, hnext'⟩, -⟩ := hbeside 1 hobj₁
  obtain ⟨-, prev, hprev, hprev'⟩ := hbeside 2 hobj₂
  have hstep : ((v.page 2).pindex : ℕ) = (v.page 1).pindex + 1 := by
    rw [hidx₁, hidx₂]
    rfl
  rw [(hnext' 2).mpr ⟨hobj₂, hstep⟩] at hnext
  rw [(hprev' 1).mpr ⟨hobj₁, hstep.symm⟩] at hprev
  exact ⟨v, h, hleast 6, hnext, hprev⟩

end Messaround.Pager.Residents
