import Messaround.Aofs.ReadCopies

/-!
A call leaves the files of other names alone.
-/

namespace Messaround.Aofs

open Messaround.CInt Disk

variable {d d' : Disk} {q : CStr} {g : Fin BLOCK_NUM} {op : Op} {fuel : ℕ}

namespace Op

/-- The arguments of a read are in range, too. -/
def ReadInRange : Op → Prop
  | .read _ size offset => size ≤ INT_MAX ∧ offset ≤ OFF_MAX
  | _ => True

/-- **One call ends**, with its effect. -/
theorem ends (hl : d.Linked) (hv : op.Valid) (hin : op.ReadInRange) (hr : op.Room d)
    (ho : op.OnChain d) (hfuel : BLOCK_NUM ≤ fuel) :
    Ends (op.code fuel) d fun _ d' => op.Effect d d' := by
  cases op with
  | create p => exact (safe_create hl hv.1).ends
  | write p buf size offset => exact (safe_write hl hv.1 hv.2.1 hv.2.2 hr ho).ends
  | read p size offset =>
    refine Prog.Ends.bind ?_
    refine ((ends_aofsReadFile hl hv.1 hin.1 hin.2).of_always (always_read hl hv.1)).mono ?_
    exact fun r d' he l => ⟨r.1, d', l, rfl, he⟩
  | truncate p size => exact (safe_truncate hl hv.1 hv.2 hfuel ho).ends
  | delete p => exact (safe_delete hl hfuel).ends

end Op

/-- The file `q` with head `g` is found as before, and its blocks are untouched and still
allocated. -/
structure Isolated (d d' : Disk) (q : CStr) (g : Fin BLOCK_NUM) : Prop where
  before : ∀ b, Ends (aofsFindFileHead q b) d fun r _ => r.1 = addr g
  after : ∀ b, Ends (aofsFindFileHead q b) d' fun r _ => r.1 = addr g
  chain : d'.chain g = d.chain g
  blocks : ∀ i ∈ d.chain g, d'.blocks i = d.blocks i ∧ d'.Allocated i

lemma ends_find (b : Block) (hf : d.lookup q = some g) :
    Ends (aofsFindFileHead q b) d fun r _ => r.1 = addr g :=
  (safe_find_found hf rfl).ends

lemma Disk.WellFormed.lookup (hw : d.WellFormed) (hf : d.IsFile q g) : d.lookup q = some g :=
  lookup_of_unique hf fun k hk => hw.names k g hk.1 hf.1 (hk.2.trans hf.2.symm)

lemma Disk.Touches.isolated {p : CStr} (ht : Touches d d' p) (hw : d.WellFormed) (hq : q ≠ p)
    (hf : d.IsFile q g) : Isolated d d' q g := by
  obtain ⟨hfiles, hother⟩ := ht.other hw.toLinked hq
  obtain ⟨hchain, hblocks⟩ := hother g hf
  have hlookup : d'.lookup q = some g := by
    rw [← hw.lookup hf, Disk.lookup, Disk.lookup]
    simp only [hfiles]
  exact ⟨fun b => ends_find b (hw.lookup hf), fun b => ends_find b hlookup, hchain, hblocks⟩

/-- **Isolation**: a call on another name ends and leaves the file alone. -/
theorem isolated_of_call (hw : d.WellFormed) (hv : op.Valid) (hin : op.ReadInRange)
    (hroom : op.Room d) (hfuel : BLOCK_NUM ≤ fuel) (hq : q ≠ op.path) (hf : d.IsFile q g) :
    Ends (op.code fuel) d fun _ d' => Isolated d d' q g :=
  (Op.ends hw.toLinked hv hin hroom (Op.onChain_of_sized hw.toLinked hw.sized op) hfuel).mono
    fun _ _ he => he.touches.isolated hw hq hf

/-- `/b` is created beside `/a`. -/
theorem isolated_of_call_twoBytes :
    Ends ((Op.create slashB).code BLOCK_NUM) twoBytes fun _ d' => Isolated twoBytes d' slashA 0 :=
  isolated_of_call twoBytes_wellFormed ⟨by decide, trivial⟩ trivial trivial le_rfl (by decide)
    twoBytes_onlyFile.1.file

end Messaround.Aofs
