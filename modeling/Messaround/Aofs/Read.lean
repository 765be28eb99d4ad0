import Messaround.Aofs.Effect

/-!
Reading a file: what it does to the disk.

The time stamp of the head block is stored first; what follows only reads, so that it leaves
the disk as it is whatever it computes.
-/

namespace Messaround.Aofs

open Messaround.CInt Messaround.Segment Disk

variable {d d' : Disk} {p : CStr} {h : Fin BLOCK_NUM}

def IsRead : Call → Prop
  | .readBlock _ _ => True
  | _ => False

lemma IsRead.keeps {c : Call} {l : Local} (hc : IsRead c) : (exec c d l).2.1 = d := by
  cases c with
  | readBlock n b => rfl
  | _ => exact hc.elim

lemma IsRead.inImage {c : Call} (hc : IsRead c) : InImage c d := by
  cases c with
  | readBlock n b => trivial
  | _ => exact hc.elim

lemma uses_readBlock {n : ℤ} {b : Block} : (readBlock n b).Uses IsRead :=
  ⟨trivial, fun _ => trivial⟩

lemma uses_copyOut {b : Block} {src n dst : ℤ} : (copyOut b src n dst).Uses IsRead := by
  unfold copyOut
  split <;> trivial

lemma uses_seekStart {todo : ℕ} {cur : Block} : (seekStart todo cur).Uses IsRead := by
  induction todo generalizing cur with
  | zero => trivial
  | succ todo ih =>
    unfold seekStart
    dsimp only
    split
    · trivial
    · exact Prog.uses_bind uses_readBlock fun _ => ih

lemma uses_readMiddle {bo : ℤ} {todo i : ℕ} {cur : Block} {bytesRead : ℤ} {cs : List Copy} :
    (readMiddle bo todo i cur bytesRead cs).Uses IsRead := by
  induction todo generalizing i cur bytesRead cs with
  | zero => trivial
  | succ todo ih =>
    unfold readMiddle
    dsimp only
    split
    · trivial
    · exact Prog.uses_bind uses_readBlock fun _ => Prog.uses_bind uses_copyOut fun _ => ih

lemma uses_readFound {size offset : ℤ} {cur : Block} :
    (readFound size offset cur).Uses IsRead := by
  refine Prog.uses_bind uses_seekStart fun r => ?_
  cases r with
  | none => trivial
  | some cur =>
    refine Prog.uses_bind uses_copyOut fun c => Prog.uses_bind uses_readMiddle fun r => ?_
    split
    · trivial
    · dsimp only
      split
      · split
        · trivial
        · exact Prog.uses_bind uses_readBlock fun _ => Prog.uses_bind uses_copyOut fun _ => trivial
      · trivial

/-- The disk with a new access time in the head block. -/
def accessed (d : Disk) (h : Fin BLOCK_NUM) (t : UInt64) : Disk :=
  d.put h { d.blocks h with dbm.st_atim := t }

lemma accessed_rewrites (hl : d.Linked) (hf : d.IsFile p h) (hp : p.length ≤ MAX_FILENAME)
    (t : UInt64) : Rewrites d (accessed d h t) p h (d.chain h) (d.chain h) := by
  refine rewrites_head hl hf.1 hf.2 ?_ rfl hf.1.2 (hl.size_nonneg h hf.1)
  exact Block.name_eq hp hf.2 rfl

/-- **`aofs_read_file` changes the access time of the head block and nothing else**, in every
run that ends. -/
theorem always_aofsReadFile {size offset : ℤ} {Q : ℤ × List Copy → Disk → Prop}
    (hfound : ∀ h t r, d.lookup p = some h → Q r (accessed d h t))
    (hnone : ∀ r, d.lookup p = none → Q r d) :
    (aofsReadFile p size offset).Always exec InImage Q d := by
  refine Prog.Holds.always_bind (safe_newBlock fun b => Prog.Holds.always_bind
    (safe_aofsFindFileHead (fun h hh => ?_) fun hno => ?_))
  · dsimp only
    rw [if_neg (addr_ne h)]
    refine Prog.Holds.always_bind (safe_time fun t => Prog.Holds.always_bind
      (safe_writeBlock ?_))
    exact uses_readFound.always (fun _ _ _ => IsRead.keeps) (fun _ _ => IsRead.inImage)
      fun r => hfound h t r hh
  · dsimp only
    rw [if_pos rfl]
    exact Prog.Holds.always (safe_ret (hnone _ hno))

end Messaround.Aofs
