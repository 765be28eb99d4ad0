import Messaround.Aofs.Small
import Messaround.Lib.Reach

/-!
`delete_chain` on any image.

The loop has no counter. It ends because every block it leaves is wiped first, so that a
block met again has no link: the blocks with a link are the measure.
-/

namespace Messaround.Aofs

open Messaround.CInt Messaround.Reach Disk

variable {d d' : Disk} {i j : Fin BLOCK_NUM} {b : Block}

namespace Disk

/-- A link of block `i` leads to block `j`. -/
def Leads (d : Disk) (i j : Fin BLOCK_NUM) : Prop := d.next i = addr j

/-- The links lead from block `i` to block `j`, in any number of steps. -/
def Reaches (d : Disk) : Fin BLOCK_NUM → Fin BLOCK_NUM → Prop := Relation.ReflTransGen d.Leads

/-- Every link is `-1` or the number of a block. -/
structure LinksInRange (d : Disk) : Prop where
  total_le : d.sb.totalblocks.toNat ≤ BLOCK_NUM
  next : ∀ i, -1 ≤ d.next i ∧ d.next i < d.sb.totalblocks.toNat

lemma LinksInRange.leads (hd : d.LinksInRange) (hi : d.next i ≠ -1) :
    ∃ j, d.Leads i j ∧ (j : ℕ) < d.sb.totalblocks.toNat := by
  obtain ⟨h1, h2⟩ := hd.next i
  have h3 := hd.total_le
  refine ⟨⟨(d.next i).toNat, by omega⟩, ?_, ?_⟩
  · simp only [Leads, addr]; omega
  · simp only; omega

/-- The number of blocks with a link. -/
def linkCount (d : Disk) : ℕ := (Finset.univ.filter fun i => d.next i ≠ -1).card

lemma linkCount_le (d : Disk) : d.linkCount ≤ BLOCK_NUM := by
  have h := Finset.card_filter_le Finset.univ fun i => d.next i ≠ -1
  rwa [Finset.card_univ, Fintype.card_fin] at h

/-! ### Wiping one block -/

lemma next_wiped (hb : Cleared b) (j : Fin BLOCK_NUM) :
    ((d.put i b).unmark i).next j = if j = i then -1 else d.next j := by
  split
  · rename_i hj
    rw [hj, Disk.next, unmark_blocks, put_blocks_self, hb.next]
  · rename_i hj
    rw [Disk.next, unmark_blocks, put_blocks_of_ne _ _ hj, Disk.next]

lemma leads_wiped (hb : Cleared b) (x y : Fin BLOCK_NUM) :
    ((d.put i b).unmark i).Leads x y ↔ x ≠ i ∧ d.Leads x y := by
  rw [Leads, next_wiped hb]
  split
  · rename_i hx
    exact iff_of_false (addr_ne y).symm fun h => h.1 hx
  · rename_i hx
    exact ⟨fun h => ⟨hx, h⟩, fun h => h.2⟩

lemma LinksInRange.wiped (hd : d.LinksInRange) (hb : Cleared b) :
    ((d.put i b).unmark i).LinksInRange := by
  refine ⟨hd.total_le, fun j => ?_⟩
  rw [next_wiped hb]
  split
  · exact ⟨le_rfl, by omega⟩
  · exact hd.next j

lemma linkCount_wiped (hb : Cleared b) (hi : d.next i ≠ -1) :
    ((d.put i b).unmark i).linkCount < d.linkCount := by
  refine Finset.card_lt_card (Finset.ssubset_iff_subset_ne.mpr ⟨fun j hj => ?_, fun he => ?_⟩)
  · rw [Finset.mem_filter_univ, next_wiped hb] at hj
    rw [Finset.mem_filter_univ]
    split at hj
    · exact absurd rfl hj
    · exact hj
  · have hmem : i ∈ Finset.univ.filter fun j => ((d.put i b).unmark i).next j ≠ -1 := by
      rw [he, Finset.mem_filter_univ]; exact hi
    rw [Finset.mem_filter_univ, next_wiped hb, if_pos rfl] at hmem
    exact hmem rfl

end Disk

/-! ### The loop -/

/-- **`delete_chain` ends on any image**, cyclic chains included, and frees exactly what its
start reaches. -/
theorem safe_deleteChain_any {fuel : ℕ} {Q : Unit → Disk → Prop} (hd : d.LinksInRange)
    (hf : d.linkCount < fuel) (hQ : ∀ d', Freed d d' (d.Reaches i) → Q () d') :
    Safe (deleteChain fuel (addr i)) d Q := by
  induction fuel generalizing d i Q with
  | zero => omega
  | succ fuel ih =>
    refine safe_deleteChain_step fun b hb => ?_
    by_cases hend : d.next i = -1
    · -- a block without a link: also one met for the second time
      rw [hend]
      have hreach : ∀ j, (j = i ∨ False) ↔ d.Reaches i j := fun j => by
        rw [or_false, Reaches, reach_end fun x hx => addr_ne x (hx.symm.trans hend)]
      exact safe_deleteChain_end (hQ _ (((Freed.refl _ fun _ h => h).cons hb).congr hreach))
    · obtain ⟨k, hk, -⟩ := hd.leads hend
      have hreach : ∀ j, (j = i ∨ ((d.put i b).unmark i).Reaches k j) ↔ d.Reaches i j := fun j =>
        (reach_cut hk (fun x hx => addr_injective (hx.symm.trans hk)) (leads_wiped hb)).symm
      rw [hk]
      refine ih (hd.wiped hb) ?_ fun d' hd' => hQ d' ((hd'.cons hb).congr hreach)
      have := linkCount_wiped hb hend
      omega

/-- **Deleting from a block on**: the loop ends, and exactly the blocks that the start reaches
in the starting image are wiped and free. -/
theorem deleteChain_frees {fuel : ℕ} (hd : d.LinksInRange) (s : Fin BLOCK_NUM)
    (hfuel : BLOCK_NUM < fuel) :
    Ends (deleteChain fuel (addr s)) d fun _ d' => Freed d d' (d.Reaches s) :=
  (safe_deleteChain_any hd (d.linkCount_le.trans_lt hfuel) fun _ h => h).ends

/-- Blocks 0 and 1 lead to each other, and the other ones nowhere. -/
def ring : Disk :=
  ⟨initialSuperBlock, fun i =>
    { (default : Block) with dbm.next := if i = 0 then 1 else if i = 1 then 0 else -1 }, []⟩

theorem deleteChain_frees_ring : ring.LinksInRange ∧
    Ends (deleteChain (BLOCK_NUM + 1) (addr 0)) ring fun _ d' =>
      Freed ring d' (ring.Reaches 0) := by
  have hr : ring.LinksInRange := by
    refine ⟨le_rfl, fun i => ?_⟩
    have htotal : ring.sb.totalblocks.toNat = 4096 := rfl
    have hnext : ring.next i = if i = 0 then 1 else if i = 1 then 0 else -1 := rfl
    rw [hnext, htotal]
    split
    · omega
    · split <;> omega
  exact ⟨hr, deleteChain_frees hr 0 (Nat.lt_succ_self _)⟩

/-! ### The links of a file of two blocks -/

lemma twoBlocks_next (i : Fin BLOCK_NUM) :
    twoBlocks.next i = if i = 0 then 1 else if i = 1 then -1 else 0 := by
  rw [Disk.next]
  split
  · rename_i h0
    rw [h0, twoBlocks_head]
  · rename_i h0
    split
    · rename_i h1
      rw [h1, twoBlocks_tail]
      rfl
    · rename_i h1
      have hblank : (default : Block).dbm.next = 0 := by decide
      rw [twoBlocks, put_blocks_of_ne _ _ h1, put_blocks_of_ne _ _ h0, mark_blocks, firstOfTwo,
        diskA, put_blocks_of_ne _ _ h0, mark_blocks, hblank]

lemma twoBlocks_linksInRange : twoBlocks.LinksInRange := by
  have htotal := twoBlocks_onlyFile.1.total
  refine ⟨htotal.le, fun i => ?_⟩
  rw [twoBlocks_next, htotal]
  split
  · decide
  · split <;> decide

end Messaround.Aofs
