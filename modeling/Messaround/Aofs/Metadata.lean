import Messaround.Aofs.Laws
import Messaround.Aofs.Listing

/-!
The handlers that change the times and the owner of a file.

Neither looks at the result of the lookup: for a missing path they store an uninitialised
block at block `-1`, which is the place of the bitmap, and report success.
-/

namespace Messaround.Aofs

open Messaround.CInt Disk

variable {d : Disk} {p : CStr} {h : Fin BLOCK_NUM}

/-- What both handlers do: the block that was looked up, or the uninitialised one, is changed
by `f` and stored. -/
def update (p : CStr) (f : Block → Block) : Code ℤ := do
  let (fileHead, head) ← aofsFindFileHead p (← newBlock)
  writeBlock fileHead (f head)
  return 0

lemma aofsUtimens_eq (p : CStr) (ts : Vector Timespec 2) :
    aofsUtimens p ts = update p fun b => b.setTimes ts := rfl

lemma aofsChown_eq (p : CStr) (uid gid : UInt32) :
    aofsChown p uid gid = update p fun b => b.setOwner uid gid := rfl

/-- The disk after `b` was stored over the bitmap. -/
def Disk.overwriteBitmap (d : Disk) (b : Block) : Disk :=
  { d with sb.bitmap := .ofFn fun i => b.bytes.getD i 0 }

/-- The update of a file changes its head block; that of a missing path stores over the
bitmap what happened to be in memory. Both report success. -/
lemma run_update (f : Block → Block) (l : Local) : ∃ d' l',
    (update p f).run exec d l = some (0, d', l') ∧
      (∀ h, d.lookup p = some h → d' = d.put h (f (d.blocks h))) ∧
      (d.lookup p = none → d' = d.overwriteBitmap (f (l.junk 0))) := by
  have hrest : Ends (do
      let (fileHead, head) ← aofsFindFileHead p (l.junk 0)
      writeBlock fileHead (f head)
      return (0 : ℤ)) d fun r d' => r = 0 ∧
        (∀ h, d.lookup p = some h → d' = d.put h (f (d.blocks h))) ∧
        (d.lookup p = none → d' = d.overwriteBitmap (f (l.junk 0))) := by
    refine Prog.Ends.bind (safe_aofsFindFileHead (fun h hh => ?_) fun hno => ?_).ends
    · refine Prog.Ends.bind (safe_writeBlock ?_).ends
      refine (safe_pure ⟨rfl, fun g hg => ?_, fun hno => ?_⟩).ends
      · obtain rfl : h = g := Option.some.inj (hh.symm.trans hg)
        rfl
      · rw [hh] at hno; cases hno
    · refine Prog.Ends.bind (Prog.ends_perform fun l => ?_)
      refine (safe_pure ⟨rfl, fun h hh => ?_, fun _ => rfl⟩).ends
      rw [hno] at hh; cases hh
  obtain ⟨r, d', l', hr, rfl, hfound, hnone⟩ := hrest { l with junk := fun k => l.junk (k + 1) }
  exact ⟨d', l', hr, hfound, hnone⟩

/-- What an update should do: fail and leave the disk as it is where the path is missing, and
change nothing but the head block of the file where it is not. -/
def UpdatesOnly (code : Code ℤ) (d : Disk) (p : CStr) (f : Block → Block) : Prop :=
  Ends code d fun r d' => (d.lookup p = none → r ≠ 0 ∧ d' = d) ∧
    ∀ h, d.lookup p = some h → d' = d.put h (f (d.blocks h))

lemma updatesOnly_iff (f : Block → Block) :
    UpdatesOnly (update p f) d p f ↔ ∃ h, d.lookup p = some h := by
  constructor
  · intro hu
    obtain ⟨r, d', l', hr, hno, -⟩ := hu default
    obtain ⟨d'', l'', hr', -⟩ := run_update (d := d) (p := p) f default
    obtain ⟨rfl, -⟩ : r = 0 ∧ d' = d'' ∧ l' = l'' := by simpa [hr] using hr'
    cases hh : d.lookup p with
    | some h => exact ⟨h, rfl⟩
    | none => exact absurd rfl (hno hh).1
  · rintro ⟨h, hh⟩ l
    obtain ⟨d', l', hr, hfound, -⟩ := run_update (d := d) (p := p) f l
    refine ⟨0, d', l', hr, fun hno => ?_, hfound⟩
    rw [hno] at hh; cases hh

/-- **When the metadata handlers do what they should**: for a path that exists, and for no
other one. -/
theorem metadata_iff (d : Disk) (p : CStr) (ts : Vector Timespec 2) (uid gid : UInt32) :
    (UpdatesOnly (aofsUtimens p ts) d p (fun b => b.setTimes ts) ↔ ∃ h, d.lookup p = some h) ∧
    (UpdatesOnly (aofsChown p uid gid) d p (fun b => b.setOwner uid gid) ↔
      ∃ h, d.lookup p = some h) := by
  rw [aofsUtimens_eq, aofsChown_eq]
  exact ⟨updatesOnly_iff fun b => b.setTimes ts, updatesOnly_iff fun b => b.setOwner uid gid⟩

lemma overwriteBitmap_zero {b : Block} (hb : b.dbm.filename[0] = 0) :
    bitAt (d.overwriteBitmap b).sb.bitmap 0 = 0 := by
  have h0 : b.bytes.getD 0 0 = 0 := by
    rw [Block.bytes, List.getD_eq_getElem?_getD, List.getElem?_append_left (by simp)]
    simpa using hb
  rw [bitAt, Disk.overwriteBitmap, Vector.getElem?_ofFn, dif_pos (by decide), Option.getD_some, h0]
  rfl

lemma twoBytes_root : twoBytes.lookup .root = none :=
  twoBytes_onlyFile.1.lookup_none (by decide)

/-- A `chown` of the root reports success, and with zeros in memory it clears the bitmap. -/
theorem not_metadata_root : twoBytes.lookup .root = none ∧
    ¬ UpdatesOnly (aofsUtimens .root (.replicate 2 ⟨0⟩)) twoBytes .root
      (fun b => b.setTimes (.replicate 2 ⟨0⟩)) ∧
    ¬ UpdatesOnly (aofsChown .root 1001 1001) twoBytes .root (fun b => b.setOwner 1001 1001) ∧
    ∃ l l' d', (aofsChown .root 1001 1001).run exec twoBytes l = some (0, d', l') ∧
      twoBytes.Allocated 0 ∧ ¬ d'.Allocated 0 := by
  have hno : ¬ ∃ h, twoBytes.lookup .root = some h := by
    rw [twoBytes_root]
    exact fun ⟨h, hh⟩ => by cases hh
  refine ⟨twoBytes_root,
    fun hu => hno ((updatesOnly_iff fun b => b.setTimes (.replicate 2 ⟨0⟩)).mp hu),
    fun hu => hno ((updatesOnly_iff fun b => b.setOwner 1001 1001).mp hu), ?_⟩
  obtain ⟨d', l', hr, -, hmissing⟩ :=
    run_update (d := twoBytes) (p := .root) (fun b => b.setOwner 1001 1001) default
  have h0 : (0 : Fin BLOCK_NUM) ∈ twoBytes.chain 0 := by rw [twoBytes_onlyFile.2]; simp
  refine ⟨default, l', d', hr, (twoBytes_onlyFile.1.all 0).mpr h0, ?_⟩
  rw [hmissing twoBytes_root, Disk.not_allocated_iff, ← bitAt_eq_zero]
  exact overwriteBitmap_zero (by simp [Block.setOwner, default, Block.ofBytes])

end Messaround.Aofs
