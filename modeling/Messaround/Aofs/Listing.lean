import Messaround.Aofs.Handlers

/-!
The directory listing and the lookup of files.

Both scan the bitmap and the blocks: the listing takes every head, the lookup the first head
of a name. The listing drops the first byte of the names, which is the slash of the path.
-/

namespace Messaround.Aofs

open Messaround.CInt Disk

variable {d : Disk} {p n : CStr} {h g : Fin BLOCK_NUM}

/-! ### The listing -/

/-- The heads from block `k` on. -/
def Disk.headsFrom (d : Disk) (k : ℕ) : List (Fin BLOCK_NUM) :=
  ((List.finRange BLOCK_NUM).drop k).filter fun h => d.IsHead h

lemma headsFrom_zero : d.headsFrom 0 = d.heads := by rw [headsFrom, List.drop_zero, heads]

lemma headsFrom_end : d.headsFrom BLOCK_NUM = [] := by
  rw [headsFrom, List.drop_eq_nil_of_le (by rw [List.length_finRange]), List.filter_nil]

lemma headsFrom_step (i : Fin BLOCK_NUM) : d.headsFrom i =
    if d.IsHead i then i :: d.headsFrom (i + 1) else d.headsFrom (i + 1) := by
  have hlen : (i : ℕ) < (List.finRange BLOCK_NUM).length := by
    rw [List.length_finRange]; exact i.isLt
  rw [headsFrom, List.drop_eq_getElem_cons hlen, List.filter_cons, List.getElem_finRange, headsFrom]
  simp only [decide_eq_true_eq, Fin.cast_mk, Fin.eta]

lemma safe_readdirLoop {todo blockNum : ℕ} {block : Block} {names : List CStr}
    {Q : List CStr → Disk → Prop} (hsum : blockNum + todo = BLOCK_NUM)
    (hQ : Q (names ++ (d.headsFrom blockNum).map fun h => (d.blocks h).entryName) d) :
    Safe (readdirLoop d.sb.bitmap todo blockNum block names) d Q := by
  induction todo generalizing blockNum block names with
  | zero =>
    obtain rfl : blockNum = BLOCK_NUM := hsum
    rw [headsFrom_end, List.map_nil, List.append_nil] at hQ
    exact safe_ret hQ
  | succ todo ih =>
    obtain ⟨i, rfl⟩ : ∃ i : Fin BLOCK_NUM, (i : ℕ) = blockNum := ⟨⟨blockNum, by omega⟩, rfl⟩
    rw [headsFrom_step] at hQ
    unfold readdirLoop
    by_cases ha : d.Allocated i
    · have hbit : bitAt d.sb.bitmap i ≠ 0 := by rw [ha]; decide
      rw [if_pos hbit]
      refine safe_bind (safe_readBlock ?_)
      split
      · rename_i hhead
        rw [if_pos ⟨ha, hhead⟩, List.map_cons] at hQ
        refine ih (by omega) ?_
        rw [List.append_assoc, List.singleton_append]
        exact hQ
      · rename_i hno
        rw [if_neg fun hh => hno hh.2] at hQ
        exact ih (by omega) hQ
    · have hbit : ¬ bitAt d.sb.bitmap i ≠ 0 := by
        rw [Disk.not_allocated_iff, ← bitAt_eq_zero] at ha
        exact not_not.mpr ha
      rw [if_neg fun hh => ha hh.1] at hQ
      rw [if_neg hbit]
      exact ih (by omega) hQ

/-- **`aofs_readdir` of the root** passes the two dots and then the names of the heads, in
the order of their blocks. -/
theorem safe_aofsReaddir {Q : ℤ × List CStr → Disk → Prop}
    (hQ : Q (0, [.dot, .dotDot] ++ d.heads.map fun h => (d.blocks h).entryName) d) :
    Safe (aofsReaddir .root) d Q := by
  unfold aofsReaddir
  rw [if_neg (not_not.mpr rfl)]
  refine safe_bind (safe_newBlock fun b => safe_bind (safe_readSuperBlock ?_))
  rw [← headsFrom_zero] at hQ
  exact safe_bind (safe_readdirLoop (Nat.zero_add _) (safe_pure hQ))

/-! ### Names -/

/-- The path of the name `n` in the root. -/
def CStr.slash (n : CStr) : CStr := ⟨47 :: n.bytes, by simpa using n.nonzero⟩

lemma CStr.slash_injective : Function.Injective CStr.slash := fun n m hnm => by
  have hb : 47 :: n.bytes = 47 :: m.bytes := congrArg CStr.bytes hnm
  exact CStr.ext (List.cons_inj_right _ |>.mp hb)

lemma CStr.slash_ne_root (hn : n ≠ .empty) : n.slash ≠ .root := fun hr =>
  hn (CStr.slash_injective (hr.trans rfl))

lemma entryName_eq {b : Block} (hb : b.name = n.slash) : b.entryName = n := by
  have hmem : b.bytes.takeWhile (· ≠ 0) = 47 :: n.bytes := congrArg CStr.bytes hb
  cases hbytes : b.bytes with
  | nil => rw [hbytes] at hmem; cases hmem
  | cons x m =>
    rw [hbytes, List.takeWhile_cons] at hmem
    split at hmem
    · ext1
      change (b.bytes.drop 1).takeWhile (· ≠ 0) = n.bytes
      rw [hbytes]
      exact (List.cons.inj hmem).2
    · cases hmem

/-! ### Agreement -/

lemma getattr_succeeds_iff (hp : p ≠ .root) :
    Ends (aofsGetattr p) d (fun r _ => r.1 = 0) ↔ ∃ h, d.lookup p = some h := by
  refine (Prog.Holds.endsIff (safe_aofsGetattr hp (fun h hh => ?_) fun hno => ?_)).iff
  · exact iff_of_true rfl ⟨h, hh⟩
  · rw [hno]
    exact iff_of_false (by decide) fun ⟨h, hh⟩ => by cases hh

/-- The heads have different names, each of a slash and at least one more byte. -/
structure Disk.NamedHeads (d : Disk) : Prop where
  distinct : ∀ h g, d.IsHead h → d.IsHead g → (d.blocks h).name = (d.blocks g).name → h = g
  slash : ∀ h, d.IsHead h → ∃ n, n ≠ .empty ∧ (d.blocks h).name = CStr.slash n

/-- **The listing agrees with the lookup**: behind the dots, it passes once each name that
has attributes, and no other. -/
theorem readdir_agrees (hd : d.NamedHeads) : Ends (aofsReaddir .root) d fun r d' =>
    d' = d ∧ r.1 = 0 ∧ ∃ ns, r.2 = [.dot, .dotDot] ++ ns ∧ ns.Nodup ∧
      ∀ n, n ∈ ns ↔ n ≠ .empty ∧ Ends (aofsGetattr n.slash) d fun a _ => a.1 = 0 := by
  refine (safe_aofsReaddir ⟨rfl, rfl, _, rfl, ?_, fun n => ?_⟩).ends
  · refine nodup_heads.map_on fun h hh g hg he => ?_
    rw [mem_heads] at hh hg
    obtain ⟨n, -, hn⟩ := hd.slash h hh
    obtain ⟨m, -, hm⟩ := hd.slash g hg
    rw [entryName_eq hn, entryName_eq hm] at he
    exact hd.distinct h g hh hg (by rw [hn, hm, he])
  · rw [List.mem_map]
    constructor
    · rintro ⟨h, hh, rfl⟩
      rw [mem_heads] at hh
      obtain ⟨m, hm0, hm⟩ := hd.slash h hh
      rw [entryName_eq hm, getattr_succeeds_iff (CStr.slash_ne_root hm0), exists_lookup_iff]
      exact ⟨hm0, h, hh, hm⟩
    · rintro ⟨hn, ha⟩
      rw [getattr_succeeds_iff (CStr.slash_ne_root hn), exists_lookup_iff] at ha
      obtain ⟨h, hh, hname⟩ := ha
      exact ⟨h, mem_heads.mpr hh, entryName_eq hname⟩

lemma OnlyFile.namedHeads (ho : OnlyFile d n.slash h) (hn : n ≠ .empty) : d.NamedHeads := by
  refine ⟨fun g k hg hk _ => ?_, fun g hg => ⟨n, hn, ?_⟩⟩
  · rw [(ho.isHead_iff g).mp hg, (ho.isHead_iff k).mp hk]
  · rw [(ho.isHead_iff g).mp hg, ho.file.2]

/-- The name of the file `/a`. -/
def nameA : CStr := ⟨[97], by simp⟩

/-- A file of two blocks, of which only the first is listed. -/
theorem readdir_agrees_twoBlocks : Ends (aofsReaddir .root) twoBlocks fun r d' =>
    d' = twoBlocks ∧ r.1 = 0 ∧ ∃ ns, r.2 = [.dot, .dotDot] ++ ns ∧ ns.Nodup ∧
      ∀ n, n ∈ ns ↔ n ≠ .empty ∧ Ends (aofsGetattr n.slash) twoBlocks fun a _ => a.1 = 0 :=
  have ho : OnlyFile twoBlocks nameA.slash 0 := twoBlocks_onlyFile.1
  readdir_agrees (ho.namedHeads (by decide))

end Messaround.Aofs
