import Messaround.Aofs.Layout

/-!
What holds of every run over a disk: the rules for the calls, and for `clear_block`.

`Safe` is the judgement the functions are specified with. It quantifies over the clock, the
uninitialised memory and the position of the descriptor, it includes that the run ends, and
it includes that every `write_block` names a block of the image.
-/

namespace Messaround.Aofs

open Messaround.CInt Disk

/-- A `write_block` goes to one of the blocks of the image, and a `write_super_block` keeps
their number. -/
def InImage : Call → Disk → Prop
  | .writeBlock n _, _ => 0 ≤ n ∧ n < BLOCK_NUM
  | .writeSuperBlock sb, d => sb.totalblocks = d.sb.totalblocks
  | _, _ => True

/-- Every run of `p` from `d` writes only to blocks of the image and ends, with a result and
a disk that satisfy `Q`. -/
def Safe {α : Type} (p : Code α) (d : Disk) (Q : α → Disk → Prop) : Prop :=
  p.Holds exec InImage Q d

/-- Every run of `p` from `d` ends, with a result and a disk that satisfy `Q`. -/
def Ends {α : Type} (p : Code α) (d : Disk) (Q : α → Disk → Prop) : Prop := p.Ends exec d Q

variable {α β : Type} {d : Disk} {p : Code α} {f : α → Code β}

lemma Safe.ends {Q : α → Disk → Prop} (h : Safe p d Q) : Ends p d Q := Prog.Holds.ends h

lemma safe_bind {Q : β → Disk → Prop} (h : Safe p d fun a d' => Safe (f a) d' Q) :
    Safe (p >>= f) d Q := Prog.holds_bind h

lemma safe_ret {a : α} {Q : α → Disk → Prop} (h : Q a d) : Safe (.ret a) d Q := Prog.holds_ret h

lemma safe_pure {a : α} {Q : α → Disk → Prop} (h : Q a d) : Safe (pure a) d Q := Prog.holds_ret h

/-! ### Calls -/

lemma safe_readSuperBlock {Q : SuperBlock → Disk → Prop} (h : Q d.sb d) :
    Safe readSuperBlock d Q := Prog.holds_perform trivial fun _ => h

lemma safe_writeSuperBlock {sb : SuperBlock} {Q : Unit → Disk → Prop}
    (ht : sb.totalblocks = d.sb.totalblocks) (h : Q () { d with sb := sb }) :
    Safe (writeSuperBlock sb) d Q :=
  Prog.holds_perform ht fun _ => h

lemma safe_readBlock_any {n : ℤ} {buf : Block} {Q : Block → Disk → Prop} (h : ∀ b, Q b d) :
    Safe (readBlock n buf) d Q := Prog.holds_perform trivial fun _ => h _

lemma seek_addr (l : Local) (i : Fin BLOCK_NUM) :
    l.seek (addr i) = { l with pos := addr i } := by
  have h : ¬ addr i < -1 := by simp only [addr]; omega
  rw [Local.seek, if_neg h]

lemma exec_readBlock (l : Local) (i : Fin BLOCK_NUM) (buf : Block) :
    exec (.readBlock (addr i) buf) d l = (d.blocks i, d, { l with pos := addr i + 1 }) := by
  have h := readAt_fin d buf i
  rw [exec, seek_addr, addr, h]
  rfl

lemma exec_writeBlock (l : Local) (i : Fin BLOCK_NUM) (b : Block) :
    exec (.writeBlock (addr i) b) d l = ((), d.put i b, { l with pos := addr i + 1 }) := by
  have h := writeAt_fin d b i
  rw [exec, seek_addr, addr, h]
  rfl

lemma safe_readBlock {i : Fin BLOCK_NUM} {buf : Block} {Q : Block → Disk → Prop}
    (h : Q (d.blocks i) d) : Safe (readBlock (addr i) buf) d Q := by
  refine Prog.holds_perform trivial fun l => ?_
  rw [exec_readBlock]
  exact h

lemma safe_writeBlock {i : Fin BLOCK_NUM} {b : Block} {Q : Unit → Disk → Prop}
    (h : Q () (d.put i b)) : Safe (writeBlock (addr i) b) d Q := by
  refine Prog.holds_perform ?_ fun l => ?_
  · simp only [InImage, addr]; omega
  · rw [exec_writeBlock]
    exact h

lemma safe_time {Q : UInt64 → Disk → Prop} (h : ∀ t, Q t d) : Safe time d Q :=
  Prog.holds_perform trivial fun _ => h _

lemma safe_newBlock {Q : Block → Disk → Prop} (h : ∀ b, Q b d) : Safe newBlock d Q :=
  Prog.holds_perform trivial fun _ => h _

/-! ### Names -/

lemma takeWhile_append_of_short {p : UInt8 → Bool} {l r r' : List UInt8}
    (h : ((l ++ r).takeWhile p).length < l.length) :
    (l ++ r').takeWhile p = (l ++ r).takeWhile p := by
  induction l with
  | nil => simp at h
  | cons x l ih =>
    rw [List.cons_append, List.cons_append, List.takeWhile_cons, List.takeWhile_cons]
    rw [List.cons_append, List.takeWhile_cons] at h
    split
    · rename_i hx
      rw [if_pos hx] at h
      rw [ih (by simpa using h)]
    · rfl

lemma Block.name_congr {b b' : Block} (h : b'.dbm.filename = b.dbm.filename)
    (hs : b.name.length ≤ MAX_FILENAME) : b'.name = b.name := by
  ext1
  change (b'.dbm.filename.toList ++ b'.rest).takeWhile _ = (b.dbm.filename.toList ++ b.rest).takeWhile _
  rw [h]
  refine takeWhile_append_of_short ?_
  rw [Vector.length_toList]
  exact Nat.lt_succ_of_le hs

lemma Block.name_eq {b b' : Block} {p : CStr} (hp : p.length ≤ MAX_FILENAME) (hb : b.name = p)
    (h : b'.dbm.filename = b.dbm.filename) : b'.name = p :=
  (Block.name_congr h (by rw [hb]; exact hp)).trans hb

/-! ### Cleared blocks -/

/-- What `clear_block` leaves. -/
structure Cleared (b : Block) : Prop where
  name : b.name = .empty
  next : b.dbm.next = -1
  head : b.dbm.head = 0
  size : b.dbm.st_size = 0
  data : b.data = .replicate BLOCK_DATA 0

lemma Cleared.congr {b b' : Block} (h : Cleared b) (hf : b'.dbm.filename = b.dbm.filename)
    (hn : b'.dbm.next = b.dbm.next) (hh : b'.dbm.head = b.dbm.head)
    (hs : b'.dbm.st_size = b.dbm.st_size) (hd : b'.data = b.data) : Cleared b' := by
  refine ⟨?_, by rw [hn, h.next], by rw [hh, h.head], by rw [hs, h.size], by rw [hd, h.data]⟩
  exact Block.name_eq (Nat.zero_le _) h.name hf

lemma safe_clearBlock {b : Block} {Q : Block → Disk → Prop} (h : ∀ b', Cleared b' → Q b' d) :
    Safe (clearBlock b) d Q := by
  have hname : (b.strcpyFilename .empty).name = .empty :=
    b.name_strcpyFilename (Nat.zero_le _)
  refine safe_bind (safe_time fun t1 => safe_bind (safe_time fun t2 => ?_))
  refine safe_bind (safe_time fun t3 => safe_bind (safe_time fun t4 => safe_ret (h _ ?_)))
  exact ⟨Block.name_eq (Nat.zero_le _) hname rfl, rfl, rfl, rfl, rfl⟩

end Messaround.Aofs
