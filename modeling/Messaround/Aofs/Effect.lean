import Messaround.Aofs.Alloc

/-!
The effect of a call on the disk: at most one file changes.

`Rewrites` is an edit of the chain of one file, with the file's name; `Touches` is what a
whole call does. Chains, sizes and the other files are carried over once, here.
-/

namespace Messaround.Aofs

open Messaround.CInt Messaround.Segment Disk

namespace Disk

variable {d d' e : Disk} {p q : CStr} {h g : Fin BLOCK_NUM} {c c' c'' : List (Fin BLOCK_NUM)}

/-- `d'` is `d` with the blocks `c` of the file `p` with head `h` replaced by `c'`; one of
them is empty where the file is missing. -/
structure Rewrites (d d' : Disk) (p : CStr) (h : Fin BLOCK_NUM) (c c' : List (Fin BLOCK_NUM)) :
    Prop where
  owns : d.Owns h c
  edit : Edit d d' h c c'
  before : d.IsHead h → (d.blocks h).name = p
  after : d'.IsHead h → (d'.blocks h).name = p

/-- Nothing but the file `p` changes. -/
def Touches (d d' : Disk) (p : CStr) : Prop := d' = d ∨ ∃ h c c', Rewrites d d' p h c c'

lemma Rewrites.touches (hr : Rewrites d d' p h c c') : Touches d d' p := Or.inr ⟨h, c, c', hr⟩

lemma Touches.refl (d : Disk) (p : CStr) : Touches d d p := Or.inl rfl

/-- Two edits in a row, where the first one frees no block of its own. -/
lemma Edit.trans (h1 : Edit d d' h c c') (h2 : Edit d' e h c' c'') (hsub : c' ⊆ c'') :
    Edit d e h c c'' := by
  refine ⟨h2.total.trans h1.total, ?_, ?_, ?_, h2.chain⟩
  · intro i hc hc''
    have hc' : i ∉ c' := fun hi => hc'' (hsub hi)
    rw [h2.frame i hc' hc'', h1.frame i hc hc']
  · intro i
    rw [h2.alloc, h1.alloc]
    constructor
    · rintro (hi | ⟨hi, hi' | hi'⟩)
      · exact Or.inl hi
      · exact absurd hi' hi
      · exact Or.inr hi'
    · rintro (hi | ⟨hi, ha⟩)
      · exact Or.inl hi
      · by_cases hc' : i ∈ c'
        · exact Or.inl (hsub hc')
        · exact Or.inr ⟨hc', Or.inr ⟨hi, ha⟩⟩
  · intro i hi hc ha
    by_cases hc' : i ∈ c'
    · exact h1.fresh i hc' hc ha
    · exact h2.fresh i hi hc' ((h1.alloc i).mpr (Or.inr ⟨hc, ha⟩))

lemma Rewrites.trans (h1 : Rewrites d d' p h c c') (h2 : Rewrites d' e p h c' c'')
    (hsub : c' ⊆ c'') : Rewrites d e p h c c'' :=
  ⟨h1.owns, h1.edit.trans h2.edit hsub, h1.before, h2.after⟩

/-! ### The invariant -/

lemma Rewrites.linked (hr : Rewrites d d' p h c c') (hl : d.Linked) : d'.Linked :=
  hl.edit hr.owns hr.edit

lemma Touches.linked (ht : Touches d d' p) (hl : d.Linked) : d'.Linked := by
  rcases ht with rfl | ⟨h, c, c', hr⟩
  · exact hl
  · exact hr.linked hl

lemma Touches.total (ht : Touches d d' p) : d'.sb.totalblocks = d.sb.totalblocks := by
  rcases ht with rfl | ⟨h, c, c', hr⟩
  · rfl
  · exact hr.edit.total

lemma Rewrites.chain_eq (hr : Rewrites d d' p h c c') (hl : d.Linked) (hh : d'.IsHead h) :
    d'.chain h = c' := by
  rcases hr.edit.self hr.owns hl with ⟨-, hna⟩ | ⟨-, -, hc, -⟩
  · exact absurd hh.1 hna
  · exact hc

lemma Rewrites.isHead (hr : Rewrites d d' p h c c') (hl : d.Linked) (hne : c' ≠ []) :
    d'.IsHead h := by
  rcases hr.edit.self hr.owns hl with ⟨hnil, -⟩ | ⟨hh, -⟩
  · exact absurd hnil hne
  · exact hh

lemma Rewrites.sized (hr : Rewrites d d' p h c c') (hl : d.Linked) (hs : d.Sized)
    (hfit : d'.IsHead h → (d'.blocks h).dbm.st_size ≤ c'.length * BLOCK_DATA) : d'.Sized := by
  intro g hg
  by_cases hgh : g = h
  · subst hgh
    rw [hr.chain_eq hl hg]
    exact hfit hg
  · have hg' := (hr.edit.isHead_iff hl hr.owns hgh).mp hg
    obtain ⟨-, hc, hb⟩ := hr.edit.other hl hr.owns hg' hgh
    rw [hc, (hb g (hl.mem_chain hg')).1]
    exact hs g hg'

/-! ### Other files -/

lemma Rewrites.isFile_iff_of_ne (hr : Rewrites d d' p h c c') (hl : d.Linked) (hgh : g ≠ h) :
    d'.IsFile q g ↔ d.IsFile q g := by
  have hiff := hr.edit.isHead_iff hl hr.owns hgh
  constructor
  · rintro ⟨hg, hn⟩
    have hg' := hiff.mp hg
    have hb := ((hr.edit.other hl hr.owns hg' hgh).2.2 g (hl.mem_chain hg')).1
    exact ⟨hg', by rw [← hb, hn]⟩
  · rintro ⟨hg, hn⟩
    have hb := ((hr.edit.other hl hr.owns hg hgh).2.2 g (hl.mem_chain hg)).1
    exact ⟨hiff.mpr hg, by rw [hb, hn]⟩

lemma Rewrites.isFile_iff (hr : Rewrites d d' p h c c') (hl : d.Linked) (hq : q ≠ p) :
    d'.IsFile q g ↔ d.IsFile q g := by
  by_cases hgh : g = h
  · subst hgh
    exact ⟨fun hf => absurd (hf.2.symm.trans (hr.after hf.1)) hq,
      fun hf => absurd (hf.2.symm.trans (hr.before hf.1)) hq⟩
  · exact hr.isFile_iff_of_ne hl hgh

/-- **Another name keeps its files**, and they keep their chains and blocks. -/
theorem Touches.other (ht : Touches d d' p) (hl : d.Linked) (hq : q ≠ p) :
    (∀ g, d'.IsFile q g ↔ d.IsFile q g) ∧ ∀ g, d.IsFile q g →
      d'.chain g = d.chain g ∧ ∀ i ∈ d.chain g, d'.blocks i = d.blocks i ∧ d'.Allocated i := by
  rcases ht with rfl | ⟨h, c, c', hr⟩
  · exact ⟨fun g => Iff.rfl, fun g hg => ⟨rfl, fun i hi => ⟨rfl, hl.alloc g hg.1 i hi⟩⟩⟩
  · refine ⟨fun g => hr.isFile_iff hl hq, fun g hg => ?_⟩
    have hgh : g ≠ h := by
      rintro rfl
      exact hq (hg.2.symm.trans (hr.before hg.1))
    exact (hr.edit.other hl hr.owns hg.1 hgh).2

lemma Rewrites.lookup (hr : Rewrites d d' p h (d.chain h) c') (hl : d.Linked)
    (hf : d.lookup p = some h) (hne : c' ≠ []) : d'.lookup p = some h := by
  obtain ⟨-, hfirst⟩ := lookup_eq_some.mp hf
  have hh := hr.isHead hl hne
  exact lookup_eq_some.mpr ⟨⟨hh, hr.after hh⟩, fun g hg hfg =>
    hfirst g hg ((hr.isFile_iff_of_ne hl (ne_of_lt hg)).mp hfg)⟩

/-! ### Edits of the head -/

lemma rewrites_head {b : Block} (hl : d.Linked) (hh : d.IsHead h) (hp : (d.blocks h).name = p)
    (hname : b.name = p) (hnext : b.dbm.next = (d.blocks h).dbm.next) (hhead : b.dbm.head ≠ 0)
    (hsize : 0 ≤ b.dbm.st_size) :
    Rewrites d (d.put h b) p h (d.chain h) (d.chain h) := by
  refine ⟨Or.inl ⟨hh, rfl⟩, ⟨rfl, ?_, ?_, ?_, Or.inr ⟨?_, ?_, ?_⟩⟩, fun _ => hp, fun _ => ?_⟩
  · intro i hi _
    exact put_blocks_of_ne _ _ (by rintro rfl; exact hi (hl.mem_chain hh))
  · intro i
    rw [allocated_put]
    constructor
    · intro ha
      by_cases hi : i ∈ d.chain h
      · exact Or.inl hi
      · exact Or.inr ⟨hi, ha⟩
    · rintro (hi | ⟨-, ha⟩)
      · exact hl.alloc h hh i hi
      · exact ha
  · intro i hi hi' _
    exact hi' hi
  · refine (chain_congr fun i _ => ?_).mpr (hl.ends h hh)
    by_cases hih : i = h
    · rw [hih, Disk.next, Disk.next, put_blocks_self, hnext]
    · rw [Disk.next, Disk.next, put_blocks_of_ne _ _ hih]
  · intro i hi
    by_cases hih : i = h
    · rw [hih, put_blocks_self]
      exact ⟨fun _ => rfl, fun _ => hhead⟩
    · rw [put_blocks_of_ne _ _ hih]
      exact ⟨hl.heads h hh i hi, fun h' => absurd h' hih⟩
  · rw [put_blocks_self]; exact hsize
  · rw [put_blocks_self]; exact hname

/-- New blocks are linked in behind those of a file, and no head flag changes. -/
lemma rewrites_append {new : List (Fin BLOCK_NUM)} (hl : d.Linked) (hf : d.IsFile p h)
    (hp : p.length ≤ MAX_FILENAME) (htotal : d'.sb.totalblocks = d.sb.totalblocks)
    (hframe : ∀ j, j ∉ d.chain h → j ∉ new → d'.blocks j = d.blocks j)
    (halloc : ∀ j, d'.Allocated j ↔ j ∈ new ∨ d.Allocated j)
    (hfresh : ∀ j ∈ new, ¬ d.Allocated j) (hchain : d'.Chain (addr h) (d.chain h ++ new))
    (hkept : ∀ j ∈ d.chain h, (d'.blocks j).dbm.head = (d.blocks j).dbm.head)
    (hadded : ∀ j ∈ new, (d'.blocks j).dbm.head = 0)
    (hname : (d'.blocks h).dbm.filename = (d.blocks h).dbm.filename)
    (hsize : 0 ≤ (d'.blocks h).dbm.st_size) :
    Rewrites d d' p h (d.chain h) (d.chain h ++ new) := by
  refine ⟨Or.inl ⟨hf.1, rfl⟩, ⟨htotal, ?_, ?_, ?_, Or.inr ⟨hchain, ?_, hsize⟩⟩, fun _ => hf.2,
    fun _ => ?_⟩
  · exact fun j hj hj' => hframe j hj fun hn => hj' (List.mem_append_right _ hn)
  · intro j
    rw [halloc, List.mem_append]
    constructor
    · rintro (hj | ha)
      · exact Or.inl (Or.inr hj)
      · by_cases hj : j ∈ d.chain h
        · exact Or.inl (Or.inl hj)
        · exact Or.inr ⟨hj, ha⟩
    · rintro ((hj | hj) | ⟨-, ha⟩)
      · exact Or.inr (hl.alloc h hf.1 j hj)
      · exact Or.inl hj
      · exact Or.inr ha
  · exact fun j hj hj' => hfresh j ((List.mem_append.mp hj).resolve_left hj')
  · intro j hj
    rcases List.mem_append.mp hj with hj' | hj'
    · rw [hkept j hj']
      exact ⟨hl.heads h hf.1 j hj', fun hjh => by rw [hjh]; exact hf.1.2⟩
    · rw [hadded j hj']
      refine ⟨fun hb => absurd rfl hb, ?_⟩
      rintro rfl
      exact absurd hf.1.1 (hfresh j hj')
  · exact Block.name_eq hp hf.2 hname

/-- A free block becomes the head of a new file. -/
lemma rewrites_new {b : Block} (hfree : d.IsFree h) (hb : NewHead b p) :
    Rewrites d ((d.mark h).put h b) p h [] [h] := by
  refine ⟨Or.inr ⟨hfree.1, rfl⟩, ⟨rfl, ?_, ?_, ?_, Or.inr ⟨?_, ?_, ?_⟩⟩, ?_, fun _ => ?_⟩
  · intro i _ hi
    rw [put_blocks_of_ne _ _ (by simpa using hi), mark_blocks]
  · intro i
    simp
  · intro i hi _
    rw [List.mem_singleton.mp hi]; exact hfree.1
  · refine seg_cons.mpr ⟨rfl, ?_⟩
    rw [Disk.next, put_blocks_self]
    exact seg_nil.mpr hb.next
  · intro i hi
    rw [List.mem_singleton.mp hi, put_blocks_self]
    exact ⟨fun _ => rfl, fun _ => hb.head⟩
  · rw [put_blocks_self, hb.size]
  · exact fun hh => absurd hh.1 hfree.1
  · rw [put_blocks_self]; exact hb.name

lemma isFile_put {b : Block} (hn : b.name = p) (hh : b.dbm.head ≠ 0) :
    ((d.mark h).put h b).IsFile p h := by
  refine ⟨⟨?_, ?_⟩, ?_⟩
  · simp
  · rw [put_blocks_self]; exact hh
  · rw [put_blocks_self]; exact hn

lemma isFile_new {b : Block} (hb : NewHead b p) : ((d.mark h).put h b).IsFile p h :=
  isFile_put hb.name hb.head

lemma chain_new {b : Block} (hfree : d.IsFree h) (hb : NewHead b p) (hl : d.Linked) :
    ((d.mark h).put h b).chain h = [h] :=
  (rewrites_new hfree hb).chain_eq hl (isFile_new hb).1

end Disk

end Messaround.Aofs
