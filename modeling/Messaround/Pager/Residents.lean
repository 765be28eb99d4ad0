import Messaround.Pager.Objects

/-!
What the routines do to the resident pages.

All three ways to change an object are proved once: a page is linked in, is taken out, or takes
the place of another one. Every routine is put together from them.
-/

namespace Messaround.Pager.Residents

variable {P τ : Type} [DecidableEq P] {x : Radix P τ} {v v' : Vm P τ} {m mold : P} {o : ℕ}
  {i : Pindex} {pre post : List P}

/-! ### Linking -/

/-- A page that was in no object is in the list, in the trie and in the count. -/
lemma Vm.Lists.linked {mpred : Option P} (h : v.Lists x o) (hp : Place v o i mpred pre post)
    (hout : (v.page m).object = none) (hi : x.lookup (v.object o).rtree i = none) {p : Page}
    (hobj : p.object = some o) (hidx : p.pindex = i)
    (hpage : v'.page = Function.update v.page m p)
    (hmemq : (v'.object o).memq = pre ++ m :: post)
    (htree : x.lookup (v'.object o).rtree =
      Function.update (x.lookup (v.object o).rtree) i (some m))
    (hcount : (v'.object o).resident_page_count = (v.object o).resident_page_count + 1)
    (hvnode : (v'.object o).vnode = (v.object o).vnode)
    (hholds : (v'.object o).holds = if (v.object o).resident_page_count + 1 = 1 ∧ (v.object o).vnode
      then (v.object o).holds + 1 else (v.object o).holds) : v'.Lists x o := by
  have hself : v'.page m = p := by rw [hpage, Function.update_self]
  have hother : ∀ q, q ≠ m → v'.page q = v.page q := fun q hq => by
    rw [hpage, Function.update_of_ne hq]
  have hne : ∀ q, (v.page q).object = some o → q ≠ m := by
    rintro q hq rfl
    rw [hout] at hq
    cases hq
  have hkept : ∀ q ∈ (v.object o).memq, v'.page q = v.page q := fun q hq =>
    hother q (hne q ((h.listed q).mp hq))
  have hsorted := h.sorted
  have hcount' := h.count
  have hholds' := h.holds
  rw [hp.memq] at hkept hsorted hcount' hholds'
  refine ⟨?_, fun q => ?_, fun k q => ?_, ?_, ?_⟩
  · -- the list is still sorted: `m` is between its two parts
    have hpre : ∀ q ∈ pre, (v'.page q).pindex = (v.page q).pindex := fun q hq => by
      rw [hkept q (List.mem_append_left _ hq)]
    have hpost : ∀ q ∈ post, (v'.page q).pindex = (v.page q).pindex := fun q hq => by
      rw [hkept q (List.mem_append_right _ hq)]
    rw [List.map_append, List.pairwise_append] at hsorted
    obtain ⟨hs₁, hs₂, hcross⟩ := hsorted
    rw [hmemq, List.map_append, List.map_cons, List.map_congr_left hpre,
      List.map_congr_left hpost, hself, hidx]
    refine List.pairwise_append.mpr ⟨hs₁, List.pairwise_cons.mpr ⟨fun k hk => ?_, hs₂⟩,
      fun k hk k' hk' => ?_⟩
    · obtain ⟨q, hq, rfl⟩ := List.mem_map.mp hk
      exact hp.behind q hq
    · rcases List.mem_cons.mp hk' with rfl | hk'
      · obtain ⟨q, hq, rfl⟩ := List.mem_map.mp hk
        exact hp.before q hq
      · exact hcross k hk k' hk'
  · -- the list has the pages of the object
    rw [hmemq, List.mem_append, List.mem_cons]
    by_cases hq : q = m
    · rw [hq, hself, hobj]
      simp
    · rw [hother q hq, ← h.listed q, hp.memq, List.mem_append]
      simp only [hq, false_or]
  · -- the trie has them
    rw [htree]
    by_cases hq : q = m
    · rw [hq, hself, hobj, hidx]
      by_cases hk : k = i
      · rw [hk, Function.update_self]
        simp
      · rw [Function.update_of_ne hk, h.stored k m, hout]
        simp [Ne.symm hk]
    · rw [hother q hq]
      by_cases hk : k = i
      · rw [hk, Function.update_self, ← h.stored i q, hi]
        simp [Ne.symm hq]
      · rw [Function.update_of_ne hk, h.stored k q]
  · rw [hcount, hmemq, hcount']
    simp only [List.length_append, List.length_cons]
    omega
  · -- the vnode is held from the first page on
    rw [hholds, hmemq, hvnode, hholds', hcount']
    cases hn : (v.object o).vnode with
    | false => simp
    | true =>
      by_cases hnil : pre ++ post = []
      · simp [hnil]
      · have hlen := List.length_pos_of_ne_nil hnil
        simp only [hnil, ne_eq, not_false_eq_true, and_true, if_true]
        rw [if_neg (by omega), if_pos (by simp)]

/-- **A page is linked in** at an index that is not in use. -/
lemma radixdone_sound (hs : v.Sound x) (hx : x.Lawful) (hout : (v.page m).object = none)
    (hi : v.table x o i = none) {t : τ} (hins : x.insert (v.object o).rtree i m = some t)
    {p : Page} (hobj : p.object = some o) (hidx : p.pindex = i) :
    ∃ v', vm_page_insert_radixdone ((v.setPage m p).setObject o { v.object o with rtree := t }) m o
        (x.lookup_le (v.object o).rtree i) = .ok v' ∧
      v'.Sound x ∧ v'.page = Function.update v.page m p ∧ v'.table x = (v.table x).put o i m := by
  have hl := hs o
  obtain ⟨pre, post, hplace⟩ := hl.place hx hi
  have hne : ∀ o' q, (v.page q).object = some o' → q ≠ m := by
    rintro o' q hq rfl
    rw [hout] at hq
    cases hq
  have htree := hx.insert _ _ _ _ hi hins
  set w := (v.setPage m p).setObject o { v.object o with rtree := t } with hw
  have hwpage : w.page = Function.update v.page m p := rfl
  have hwm : w.page m = p := by rw [hwpage, Function.update_self]
  have hwo : w.object o = { v.object o with rtree := t } := Function.update_self ..
  have hcheck : checkMpred w o i (x.lookup_le (v.object o).rtree i) = .ok () :=
    hplace.checkMpred_ok hl fun q hq => by
      rw [hwpage, Function.update_of_ne (hne o q ((hl.listed q).mp hq))]
  have hlist := hplace.linked_eq (m := m) hl.nodup
  rw [vm_page_insert_radixdone, hwm, if_neg (not_not.mpr hobj), hidx, hcheck, ok_bind, hwo]
  dsimp only
  rw [hlist]
  refine ⟨_, rfl, fun o' => ?_, rfl, funext fun o' => ?_⟩
  · -- `o` has got the page, and the other objects do not see it
    by_cases ho : o' = o
    · subst ho
      refine hl.linked hplace hout hi hobj hidx hwpage ?_ ?_ ?_ ?_ ?_ <;>
        simp only [Vm.setObject, Function.update_self, htree]
    · refine (hs o').congr ?_ (fun q => ?_) fun q hq => ?_
      · simp only [Vm.setObject, hw, Function.update_of_ne ho, Vm.object_setPage]
      · by_cases hq : q = m
        · rw [hq, hout]
          simp [Vm.setObject, hwpage, hobj, Ne.symm ho]
        · simp only [Vm.setObject, hwpage, Function.update_of_ne hq]
      · simp only [Vm.setObject, hwpage, Function.update_of_ne (hne o' q hq)]
  · -- the table
    by_cases ho : o' = o
    · subst ho
      simp only [Vm.table_apply, Table.put, Vm.setObject, Function.update_self, htree]
    · simp only [Vm.table_apply, Table.put, Vm.setObject, hw, Function.update_of_ne ho,
        Vm.object_setPage]

lemma Vm.Sound.setPage (hs : v.Sound x) {p : Page} (hobj : p.object = (v.page m).object)
    (hidx : (v.page m).object ≠ none → p.pindex = (v.page m).pindex) : (v.setPage m p).Sound x := by
  refine fun o => (hs o).congr rfl (fun q => ?_) fun q hq => ?_
  · by_cases hqm : q = m
    · rw [hqm, Vm.page_setPage, Function.update_self, hobj]
    · rw [Vm.page_setPage, Function.update_of_ne hqm]
  · by_cases hqm : q = m
    · subst hqm
      rw [Vm.page_setPage, Function.update_self, hidx (by rw [hq]; simp)]
    · rw [Vm.page_setPage, Function.update_of_ne hqm]

/-! ### Removal -/

omit [DecidableEq P] in
lemma Vm.Sound.nowhere (hs : v.Sound x) :
    (∀ o j, v.table x o j ≠ some m) ↔ (v.page m).object = none := by
  constructor
  · intro h
    cases ho : (v.page m).object with
    | none => rfl
    | some o => exact absurd (hs.table_eq.mpr ⟨ho, rfl⟩) (h o _)
  · intro h o j he
    rw [(hs.table_eq.mp he).1] at h
    cases h

lemma Vm.Lists.unlinked (h : v.Lists x o) (hin : (v.page m).object = some o) {p : Page}
    (hobj : p.object = none) (hpage : v'.page = Function.update v.page m p)
    (hmemq : (v'.object o).memq = (v.object o).memq.erase m)
    (htree : x.lookup (v'.object o).rtree =
      Function.update (x.lookup (v.object o).rtree) (v.page m).pindex none)
    (hcount : (v'.object o).resident_page_count = (v.object o).resident_page_count - 1)
    (hvnode : (v'.object o).vnode = (v.object o).vnode)
    (hholds : (v'.object o).holds = if (v.object o).resident_page_count - 1 = 0 ∧ (v.object o).vnode
      then (v.object o).holds - 1 else (v.object o).holds) : v'.Lists x o := by
  have hself : v'.page m = p := by rw [hpage, Function.update_self]
  have hother : ∀ q, q ≠ m → v'.page q = v.page q := fun q hq => by
    rw [hpage, Function.update_of_ne hq]
  have hmem : m ∈ (v.object o).memq := (h.listed m).mpr hin
  have herase : ∀ q, q ∈ (v.object o).memq.erase m ↔ q ≠ m ∧ q ∈ (v.object o).memq := fun q =>
    h.nodup.mem_erase_iff
  have hlen : (v.object o).memq.length = ((v.object o).memq.erase m).length + 1 := by
    rw [List.length_erase_of_mem hmem]
    have := List.length_pos_of_mem hmem
    omega
  refine ⟨?_, fun q => ?_, fun k q => ?_, ?_, ?_⟩
  · rw [hmemq, List.map_congr_left fun q hq => by rw [hother q ((herase q).mp hq).1]]
    exact h.sorted.sublist (List.erase_sublist.map _)
  · rw [hmemq, herase]
    by_cases hq : q = m
    · rw [hq, hself, hobj]
      simp
    · rw [hother q hq, h.listed]
      simp [hq]
  · -- at the index of `m` there was no other page
    rw [htree]
    by_cases hk : k = (v.page m).pindex
    · rw [hk, Function.update_self]
      refine ⟨fun he => (Option.some_ne_none q he.symm).elim, fun ⟨hq, hidx⟩ => ?_⟩
      by_cases hqm : q = m
      · rw [hqm, hself, hobj] at hq
        cases hq
      · rw [hother q hqm] at hq hidx
        have hsame := (h.stored _ q).mpr ⟨hq, hidx⟩
        rw [(h.stored _ m).mpr ⟨hin, rfl⟩] at hsame
        exact absurd (Option.some.inj hsame).symm hqm
    · rw [Function.update_of_ne hk, h.stored]
      by_cases hqm : q = m
      · rw [hqm, hself, hobj]
        simp [Ne.symm hk]
      · rw [hother q hqm]
  · rw [hcount, hmemq, h.count, hlen]
    omega
  · -- the vnode is held as long as there are pages
    rw [hholds, hmemq, hvnode, h.holds, h.count, hlen]
    cases hn : (v.object o).vnode with
    | false => simp
    | true =>
      have hne : (v.object o).memq ≠ [] := List.ne_nil_of_mem hmem
      by_cases hnil : (v.object o).memq.erase m = []
      · simp [hnil, hne]
      · have hpos := List.length_pos_of_ne_nil hnil
        simp only [hnil, hne, ne_eq, not_false_eq_true, and_true, if_true]
        rw [if_neg (by omega)]

/-- **`vm_page_remove`** does not stop, and takes the page out of the table. -/
lemma remove_sound (hs : v.Sound x) (hx : x.Lawful) (m : P) :
    ∃ v', vm_page_remove x v m = .ok v' ∧ v'.Sound x ∧ (v'.page m).object = none ∧
      (v'.page m).valid = (v.page m).valid ∧
      (∀ o, (v.page m).object ≠ some o → v'.object o = v.object o) ∧
      v'.table x = (v.table x).detach m := by
  cases ho : (v.page m).object with
  | none =>
    -- nothing is done with a page that is in no object
    refine ⟨v, by rw [vm_page_remove, ho], hs, ho, rfl, fun _ _ => rfl, ?_⟩
    funext o k
    rw [Table.detach, if_neg (hs.nowhere.mpr ho o k)]
  | some o =>
    have hl := hs o
    have hat := (hl.stored (v.page m).pindex m).mpr ⟨ho, rfl⟩
    have hmem := (hl.listed m).mpr ho
    rw [vm_page_remove, ho]
    dsimp only
    rw [if_neg (not_not.mpr hat), TAILQ_REMOVE_eq hmem, ok_bind]
    refine ⟨_, rfl, fun o' => ?_, ?_, ?_, fun o' hne => ?_, funext fun o' => funext fun k => ?_⟩
    · -- the lists, the trie and the count
      by_cases hoo : o' = o
      · subst hoo
        refine hl.unlinked (m := m) ho
          (p := { v.page m with object := none, xbusied := false }) rfl rfl ?_ ?_ ?_ ?_ ?_ <;>
          simp only [Vm.setObject, Function.update_self, hx.remove]
      · refine (hs o').congr ?_ (fun q => ?_) fun q hq => ?_
        · simp only [Vm.setObject, Function.update_of_ne hoo, Vm.object_setPage]
        · by_cases hq : q = m
          · rw [hq, ho]
            simp [Vm.setObject, Ne.symm hoo]
          · simp only [Vm.setObject, Vm.page_setPage, Function.update_of_ne hq]
        · have hqm : q ≠ m := by
            rintro rfl
            rw [ho] at hq
            exact hoo (Option.some.inj hq).symm
          simp only [Vm.setObject, Vm.page_setPage, Function.update_of_ne hqm]
    · simp only [Vm.setObject, Vm.page_setPage, Function.update_self]
    · simp only [Vm.setObject, Vm.page_setPage, Function.update_self]
    · have hoo : o' ≠ o := fun he => hne (by rw [he])
      simp only [Vm.setObject, Function.update_of_ne hoo, Vm.object_setPage]
    · -- the table
      by_cases hoo : o' = o
      · subst hoo
        by_cases hk : k = (v.page m).pindex
        · rw [Table.detach, if_pos (hs.table_eq.mpr ⟨ho, hk.symm⟩)]
          simp only [Vm.table_apply, Vm.setObject, Function.update_self, hx.remove, hk]
        · rw [Table.detach, if_neg fun he => hk (hs.table_eq.mp he).2.symm]
          simp only [Vm.table_apply, Vm.setObject, Function.update_self, hx.remove,
            Function.update_of_ne hk]
      · have hno : v.table x o' k ≠ some m := fun he => by
          have := (hs.table_eq.mp he).1
          rw [ho] at this
          exact hoo (Option.some.inj this).symm
        rw [Table.detach, if_neg hno]
        simp only [Vm.table_apply, Vm.setObject, Function.update_of_ne hoo, Vm.object_setPage]

lemma remove_setObject {b : Object P τ} (ho : (v.page m).object ≠ some o) :
    vm_page_remove x (v.setObject o b) m =
      (vm_page_remove x v m).map fun v' => v'.setObject o b := by
  rw [vm_page_remove, vm_page_remove]
  have hpage : (v.setObject o b).page = v.page := rfl
  rw [hpage]
  cases hm : (v.page m).object with
  | none => rfl
  | some o' =>
    have hoo : o' ≠ o := fun he => ho (by rw [hm, he])
    have hobj : (v.setObject o b).object o' = v.object o' := Function.update_of_ne hoo ..
    dsimp only
    rw [hobj]
    split
    · rfl
    · rw [TAILQ_REMOVE]
      split
      · simp only [ok_bind, Vm.setObject, Vm.setPage, Function.update_comm hoo.symm]
        rfl
      · rfl

/-! ### Insertion, replacement and renaming -/

section calls

variable (hs : v.Sound x) (hx : x.Lawful)
include hs hx

/-- **`vm_page_insert`** of a page that is nowhere, at an index that is not in use. -/
lemma insert_sound (hout : (v.page m).object = none) (hi : v.table x o i = none) :
    ∃ r v', vm_page_insert x v m o i = .ok (r, v') ∧ v'.Sound x ∧
      (r = 0 ∧ v'.table x = (v.table x).put o i m ∨ r = 1 ∧ v'.table x = v.table x) := by
  have hl := hs o
  obtain ⟨pre, post, hplace⟩ := hl.place hx hi
  rw [vm_page_insert, vm_page_insert_after, if_neg (not_not.mpr hout),
    hplace.checkMpred_ok hl fun _ _ => rfl, ok_bind, hplace.msucc_eq hl.nodup,
    hplace.checkMsucc_ok, ok_bind]
  dsimp only [Vm.object_setPage]
  cases hins : x.insert (v.object o).rtree i m with
  | none =>
    -- the trie has no memory: the object and the index are taken back
    refine ⟨1, _, rfl, ?_, .inr ⟨rfl, rfl⟩⟩
    simp only [Vm.setPage, Function.update_idem, Function.update_self]
    exact hs.setPage (m := m) (p := { v.page m with object := none, pindex := 0 }) hout.symm
      fun h => absurd hout h
  | some t =>
    obtain ⟨v', hv, hsound, -, htable⟩ := radixdone_sound hs hx hout hi hins
      (p := { v.page m with object := some o, pindex := i }) rfl rfl
    refine ⟨0, v', ?_, hsound, .inl ⟨rfl, htable⟩⟩
    dsimp only
    rw [hv, ok_bind]
    rfl

omit hs hx in
lemma insert_stops (h : (v.page m).object ≠ none) : ∃ e, vm_page_insert x v m o i = .error e :=
  ⟨.inserted, by rw [vm_page_insert, vm_page_insert_after, if_pos h]⟩

omit [DecidableEq P] in
lemma lookup_le_used {q : P} (hi : v.table x o i = some q) :
    ∃ mpred, x.lookup_le (v.object o).rtree i = some mpred ∧
      (v.page mpred).object = some o ∧ (v.page mpred).pindex = i :=
  ⟨q, hx.le_of_lookup hi, hs.table_eq.mp hi⟩

lemma insert_stops_used (h : v.table x o i ≠ none) :
    ∃ e, vm_page_insert x v m o i = .error e := by
  by_cases hout : (v.page m).object ≠ none
  · exact insert_stops hout
  · obtain ⟨q, hq⟩ := Option.ne_none_iff_exists'.mp h
    obtain ⟨mpred, hle, hobj, hidx⟩ := lookup_le_used hs hx hq
    refine ⟨.mpredPindex, ?_⟩
    rw [vm_page_insert, vm_page_insert_after, if_neg hout, hle, checkMpred,
      if_neg (not_not.mpr hobj), hidx, if_pos (lt_irrefl i)]
    rfl

end calls

lemma Vm.Lists.replaced (h : v.Lists x o) (hold : (v.page mold).object = some o)
    (hidx : (v.page mold).pindex = i) (hout : (v.page m).object = none)
    (hmemq : (v.object o).memq = pre ++ mold :: post)
    (hm : (v'.page m).object = some o) (hmidx : (v'.page m).pindex = i)
    (hgone : (v'.page mold).object = none)
    (hother : ∀ q, q ≠ m → q ≠ mold → v'.page q = v.page q)
    (hmemq' : (v'.object o).memq = pre ++ m :: post)
    (htree : x.lookup (v'.object o).rtree =
      Function.update (x.lookup (v.object o).rtree) i (some m))
    (hcount : (v'.object o).resident_page_count = (v.object o).resident_page_count)
    (hvnode : (v'.object o).vnode = (v.object o).vnode)
    (hholds : (v'.object o).holds = (v.object o).holds) : v'.Lists x o := by
  have hnd := h.nodup
  rw [hmemq] at hnd
  obtain ⟨hpre, hpost⟩ := notMem_parts hnd
  have hne : ∀ q, (v.page q).object = some o → q ≠ m := by
    rintro q hq rfl
    rw [hout] at hq
    cases hq
  have hin : ∀ q, q ∈ pre ∨ q = mold ∨ q ∈ post ↔ (v.page q).object = some o := fun q => by
    rw [← h.listed, hmemq, List.mem_append, List.mem_cons]
  have hat := (h.stored i mold).mpr ⟨hold, hidx⟩
  refine ⟨?_, fun q => ?_, fun k q => ?_, ?_, ?_⟩
  · -- `m` has got the index of the page that it stands for
    have hsame : ∀ l : List P, (∀ q ∈ l, q ≠ mold ∧ (v.page q).object = some o) →
        (l.map fun q => (v'.page q).pindex) = l.map fun q => (v.page q).pindex := fun l hl =>
      List.map_congr_left fun q hq => by rw [hother q (hne q (hl q hq).2) (hl q hq).1]
    have hsorted := h.sorted
    rw [hmemq, List.map_append, List.map_cons, hidx] at hsorted
    rw [hmemq', List.map_append, List.map_cons, hmidx,
      hsame pre fun q hq => ⟨fun he => hpre (he ▸ hq), (hin q).mp (.inl hq)⟩,
      hsame post fun q hq => ⟨fun he => hpost (he ▸ hq), (hin q).mp (.inr (.inr hq))⟩]
    exact hsorted
  · rw [hmemq', List.mem_append, List.mem_cons]
    by_cases hq : q = m
    · simp [hq, hm]
    · by_cases hq' : q = mold
      · simp [hq', hgone, hpre, hpost, (hne mold hold)]
      · rw [hother q hq hq', ← hin q]
        simp [hq, hq']
  · -- no third page was stored at the index
    rw [htree]
    by_cases hq : q = m
    · rw [hq, hm, hmidx]
      by_cases hk : k = i
      · rw [hk, Function.update_self]
        simp
      · rw [Function.update_of_ne hk, h.stored k m, hout]
        simp [Ne.symm hk]
    · by_cases hk : k = i
      · rw [hk, Function.update_self]
        refine ⟨fun he => absurd (Option.some.inj he).symm hq, fun ⟨hqo, hqi⟩ => ?_⟩
        by_cases hq' : q = mold
        · rw [hq', hgone] at hqo
          cases hqo
        · rw [hother q hq hq'] at hqo hqi
          rw [(h.stored i q).mpr ⟨hqo, hqi⟩] at hat
          exact absurd (Option.some.inj hat) hq'
      · rw [Function.update_of_ne hk, h.stored k q]
        by_cases hq' : q = mold
        · rw [hq', hgone, hidx]
          simp [Ne.symm hk]
        · rw [hother q hq hq']
  · rw [hcount, hmemq', h.count, hmemq, List.length_append, List.length_append, List.length_cons,
      List.length_cons]
  · rw [hholds, hvnode, hmemq', h.holds, hmemq]
    simp

omit [DecidableEq P] in
lemma Place.mpred_ne {mpred : Option P} (h : Place v o i mpred pre post) :
    mpred.map (fun p => (v.page p).pindex) ≠ some i := by
  intro he
  obtain ⟨q, hq, hqi⟩ := Option.map_eq_some_iff.mp he
  exact (h.before q (h.mem_of_mpred hq)).ne hqi

section replace

variable (hs : v.Sound x) (hx : x.Lawful)
include hs hx

/-- **`vm_page_replace`** of a page that is there and busied, where neither page is on a paging
queue. -/
lemma replace_sound (hout : (v.page m).object = none) (hq : (v.page m).queue = PQ_NONE)
    (hi : v.table x o i = some mold) (hq' : (v.page mold).queue = PQ_NONE)
    (hbusy : (v.page mold).xbusied = true) :
    ∃ v', vm_page_replace x v m o i = .ok (mold, v') ∧ v'.Sound x ∧
      v'.table x = (v.table x).put o i m := by
  have hl := hs o
  obtain ⟨hold, hidx⟩ := hs.table_eq.mp hi
  have hne : m ≠ mold := by
    rintro rfl
    rw [hold] at hout
    cases hout
  obtain ⟨pre, post, hmemq⟩ := List.append_of_mem ((hl.listed mold).mpr hold)
  have hnd := hl.nodup
  rw [hmemq] at hnd
  obtain ⟨hpre, -⟩ := notMem_parts hnd
  -- the new page is put behind the old one, which then leaves
  have hremove : TAILQ_REMOVE Kassert.notListed
      (TAILQ_INSERT_AFTER mold m (v.object o).memq) mold = .ok (pre ++ m :: post) := by
    rw [hmemq, TAILQ_INSERT_AFTER_append hpre, TAILQ_REMOVE_eq (by simp), erase_append_cons hpre]
  have hlookup : x.lookup (v.object o).rtree i = some mold := hi
  rw [vm_page_replace]
  dsimp only
  rw [if_neg (not_not.mpr hout), if_neg (not_not.mpr hq), hlookup]
  dsimp only
  rw [if_neg (not_not.mpr hq'), hremove, ok_bind, vm_page_xunbusy_maybelocked]
  simp only [Vm.page_setPage, Function.update_self, Function.update_of_ne hne.symm, hbusy, if_true,
    ok_bind]
  refine ⟨_, rfl, fun o' => ?_, funext fun o' => ?_⟩
  · -- neither page was in another object
    by_cases hoo : o' = o
    · subst hoo
      refine hl.replaced hold hidx hout hmemq ?_ ?_ ?_ (fun q hqm hqo => ?_) ?_ ?_ ?_ ?_ ?_ <;>
        simp only [Vm.setObject, Vm.page_setPage, Function.update_self, Function.update_of_ne hne,
          hx.replace _ _ _ _ hlookup]
      rw [Function.update_of_ne hqo, Function.update_of_ne hqo, Function.update_of_ne hqm]
    · refine (hs o').congr ?_ (fun q => ?_) fun q hqin => ?_
      · simp only [Vm.setObject, Function.update_of_ne hoo, Vm.object_setPage]
      · by_cases hqo : q = mold
        · rw [hqo, hold]
          simp [Vm.setObject, Ne.symm hoo]
        · by_cases hqm : q = m
          · rw [hqm, hout]
            simp [Vm.setObject, hne, Ne.symm hoo]
          · simp only [Vm.setObject, Vm.page_setPage, Function.update_of_ne hqo,
              Function.update_of_ne hqm]
      · have hqo : q ≠ mold := by
          rintro rfl
          rw [hold] at hqin
          exact hoo (Option.some.inj hqin).symm
        have hqm : q ≠ m := by
          rintro rfl
          rw [hout] at hqin
          cases hqin
        simp only [Vm.setObject, Vm.page_setPage, Function.update_of_ne hqo,
          Function.update_of_ne hqm]
  · -- the table
    by_cases hoo : o' = o
    · subst hoo
      simp only [Vm.table_apply, Table.put, Vm.setObject, Function.update_self,
        hx.replace _ _ _ _ hlookup]
    · simp only [Vm.table_apply, Table.put, Vm.setObject, Function.update_of_ne hoo,
        Vm.object_setPage]

lemma rename_moved (hb : (v.page m).object ≠ some o) (hi : v.table x o i = none) {t : τ}
    (hins : x.insert (v.object o).rtree i m = some t) :
    ∃ v', vm_page_rename x v m o i = (vm_page_dirty v' m).map (Prod.mk 0) ∧ v'.Sound x ∧
      (v'.page m).valid = (v.page m).valid ∧ v'.table x = ((v.table x).detach m).put o i m := by
  obtain ⟨pre, post, hplace⟩ := (hs o).place hx hi
  obtain ⟨v₁, hv₁, hs₁, hout, hvalid, hobj, htable⟩ := remove_sound hs hx m
  have hi₁ : v₁.table x o i = none := by
    rw [htable, Table.detach, hi]
    simp
  have hins₁ := hins
  rw [← hobj o hb] at hins₁
  obtain ⟨v₂, hv₂, hs₂, hpage, htable₂⟩ := radixdone_sound hs₁ hx hout hi₁ hins₁
    (p := { v₁.page m with object := some o, pindex := i }) rfl rfl
  rw [hobj o hb] at hv₂
  refine ⟨v₂, ?_, hs₂, ?_, htable ▸ htable₂⟩
  · rw [vm_page_rename]
    dsimp only
    rw [if_neg hplace.mpred_ne, hins]
    dsimp only
    rw [remove_setObject hb, hv₁]
    change (vm_page_insert_radixdone _ m o _ >>= _) = _
    refine (congrArg (· >>= _) hv₂).trans ?_
    rw [ok_bind]
    cases vm_page_dirty v₂ m <;> rfl
  · rw [hpage, Function.update_self]
    exact hvalid

/-- **`vm_page_rename`** to another object, at an index that is not in use, of a page that is valid
unless it does not come to be moved. -/
lemma rename_sound (hb : (v.page m).object ≠ some o) (hi : v.table x o i = none)
    (hvalid : x.insert (v.object o).rtree i m ≠ none → (v.page m).valid = VM_PAGE_BITS_ALL) :
    ∃ r v', vm_page_rename x v m o i = .ok (r, v') ∧ v'.Sound x ∧
      (r = 0 ∧ v'.table x = ((v.table x).detach m).put o i m ∨ r = 1 ∧ v'.table x = v.table x) := by
  cases hins : x.insert (v.object o).rtree i m with
  | none =>
    -- the trie has no memory, and the page is not moved
    obtain ⟨pre, post, hplace⟩ := (hs o).place hx hi
    refine ⟨1, v, ?_, hs, .inr ⟨rfl, rfl⟩⟩
    rw [vm_page_rename]
    dsimp only
    rw [if_neg hplace.mpred_ne, hins]
  | some t =>
    obtain ⟨v₁, hv₁, hs₁, hsame, htable⟩ := rename_moved hs hx hb hi hins
    have hall : (v₁.page m).valid = VM_PAGE_BITS_ALL := by
      rw [hsame]
      exact hvalid (by simp [hins])
    refine ⟨0, v₁.setPage m { v₁.page m with dirty := VM_PAGE_BITS_ALL }, ?_,
      hs₁.setPage rfl fun _ => rfl, .inl ⟨rfl, htable⟩⟩
    rw [hv₁, vm_page_dirty, if_pos hall]
    rfl

lemma rename_stops (hb : (v.page m).object ≠ some o) (h : ¬ (v.table x o i = none ∧
    (x.insert (v.object o).rtree i m ≠ none → (v.page m).valid = VM_PAGE_BITS_ALL))) :
    ∃ e, vm_page_rename x v m o i = .error e := by
  by_cases hi : v.table x o i = none
  · -- the page is moved and is not valid
    obtain ⟨hins, hvalid⟩ := not_forall.mp fun hvalid => h ⟨hi, hvalid⟩
    obtain ⟨t, hins⟩ := Option.ne_none_iff_exists'.mp hins
    obtain ⟨v₁, hv₁, -, hsame, -⟩ := rename_moved hs hx hb hi hins
    refine ⟨.invalid, ?_⟩
    rw [hv₁, vm_page_dirty, if_neg (by rwa [hsame])]
    rfl
  · obtain ⟨q, hq⟩ := Option.ne_none_iff_exists'.mp hi
    obtain ⟨mpred, hle, -, hidx⟩ := lookup_le_used hs hx hq
    refine ⟨.renamed, ?_⟩
    rw [vm_page_rename]
    dsimp only
    rw [hle, Option.map_some, hidx, if_pos rfl]

omit hx in
lemma replace_stops (h : ¬ ((v.page m).object = none ∧ (v.page m).queue = PQ_NONE ∧
    ∃ mold, v.table x o i = some mold ∧ (v.page mold).queue = PQ_NONE ∧
      (v.page mold).xbusied = true)) :
    ∃ e, vm_page_replace x v m o i = .error e := by
  rw [vm_page_replace]
  dsimp only
  split
  · exact ⟨_, rfl⟩
  next hout =>
    split
    · exact ⟨_, rfl⟩
    next hq =>
      cases hlookup : x.lookup (v.object o).rtree i with
      | none => exact ⟨_, rfl⟩
      | some mold =>
        dsimp only
        split
        · exact ⟨_, rfl⟩
        next hold =>
          -- the list operations go through, and the page that is left is not busied
          have hin := (hs.table_eq (o := o) (i := i)).mp hlookup
          have hne : mold ≠ m := by
            rintro rfl
            exact hout (by rw [hin.1]; simp)
          have hbusy : ¬(v.page mold).xbusied = true := fun hbusy =>
            h ⟨not_not.mp hout, not_not.mp hq, mold, hlookup, not_not.mp hold, hbusy⟩
          have hmem : mold ∈ TAILQ_INSERT_AFTER mold m (v.object o).memq := by
            obtain ⟨pre, post, hmemq⟩ := List.append_of_mem (((hs o).listed mold).mpr hin.1)
            have hnd := (hs o).nodup
            rw [hmemq] at hnd ⊢
            rw [TAILQ_INSERT_AFTER_append (notMem_parts hnd).1]
            simp
          rw [TAILQ_REMOVE_eq hmem, ok_bind, vm_page_xunbusy_maybelocked]
          simp only [Vm.page_setPage, Function.update_self, Function.update_of_ne hne]
          rw [if_neg hbusy]
          exact ⟨_, rfl⟩

end replace

end Messaround.Pager.Residents
