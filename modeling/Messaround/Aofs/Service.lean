import Messaround.Aofs.Metadata
import Messaround.Aofs.Store
import Messaround.Lib.Calls

/-!
The handlers answer as the store does.

Every handler rewrites at most one file. What that does to the store of the disk is said once,
and each handler then only has to name the file that it leaves.
-/

namespace Messaround.Aofs

open Messaround.CInt Messaround.Segment Disk

variable {d d' : Disk} {p q : CStr} {h i : Fin BLOCK_NUM} {c c' new : List (Fin BLOCK_NUM)}
  {buf : ℕ → UInt8} {size offset fuel o n : ℕ}

/-! ### Requests and replies -/

inductive Reply
  | code (r : ℤ)
  | attributes (r : ℤ × Stat)
  | names (r : ℤ × List CStr)
  | copies (r : ℤ × List Copy)

/-- The handler called; the loops that only the disk ends have the budget `fuel`. -/
def Operation.code (fuel : ℕ) : Operation → Code Reply
  | .getattr p => do return .attributes (← aofsGetattr p)
  | .readdir => do return .names (← aofsReaddir .root)
  | .open_ p => do return .code (← aofsOpen p)
  | .create p => do return .code (← aofsCreate p)
  | .read p size offset => do return .copies (← aofsRead p size offset)
  | .write p buf size offset => do return .code (← aofsWrite p buf size offset)
  | .unlink p => do return .code (← aofsUnlink fuel p)
  | .truncate p size => do return .code (← aofsTruncate fuel p size)
  | .utimens p ts => do return .code (← aofsUtimens p ts)
  | .chown p uid gid => do return .code (← aofsChown p uid gid)

/-- The reply where `OPEN_DISK` fails: what `open` returned. `*stbuf` is not set, and the listing
has got its two dots. -/
def Operation.refused (stbuf : Stat) : Operation → Reply
  | .getattr _ => .attributes (-1, stbuf)
  | .readdir => .names (-1, [.dot, .dotDot])
  | .read _ _ _ => .copies (-1, [])
  | _ => .code (-1)

/-- What the reply says to FUSE. Bytes are in the caller's buffer, whatever it held; a listing
begins with the two dots. -/
def Reply.Shows : Reply → Outcome → Prop
  | .code r, .status r' => r = r'
  | .attributes r, .status r' => r.1 = r'
  | .attributes r, .size n => r.1 = 0 ∧ r.2.st_mode = S_IFREG ||| 0o444 ||| 0o666 ∧ r.2.st_size = n
  | .names r, .entries has => r.1 = 0 ∧ ∃ ns, r.2 = [.dot, .dotDot] ++ ns ∧ ns.Nodup ∧
      ∀ m, m ∈ ns ↔ has m = true
  | .names r, .status r' => r.1 = r'
  | .copies r, .status r' => r.1 = r' ∧ r.2 = []
  | .copies r, .data bytes => r.1 = bytes.length ∧
      ∀ buf, ∀ j < bytes.length, copyAll buf r.2 j = bytes.getD j 0
  | _, _ => False

/-! ### A rewritten file -/

lemma Disk.Rewrites.sound (hr : Rewrites d d' p h c c') (hd : d.Sound) (hp : p.Entry)
    (honly : ∀ g, d.IsFile p g → g = h)
    (hfit : d'.IsHead h → (d'.blocks h).dbm.st_size ≤ c'.length * BLOCK_DATA) : d'.Sound := by
  have hl := hd.toLinked
  have hentry : ∀ q k, d'.IsFile q k → q.Entry := fun q k hf => hr.entry hd hp hf
  have hself : ∀ g, d'.IsFile p g → g = h := by
    intro g hg
    by_contra hgh
    exact hgh (honly g ((hr.isFile_iff_of_ne hl hgh).mp hg))
  refine ⟨⟨hr.linked hl, hr.sized hl hd.sized hfit, fun g k hg hk he => ?_, fun g hg => ?_⟩,
    by rw [hr.edit.total, hd.total], hentry⟩
  · by_cases hq : (d'.blocks k).name = p
    · rw [hself g ⟨hg, he.trans hq⟩, hself k ⟨hk, hq⟩]
    · have hfg := (hr.isFile_iff hl hq).mp ⟨hg, he⟩
      have hfk := (hr.isFile_iff hl hq).mp ⟨hk, rfl⟩
      exact hd.names g k hfg.1 hfk.1 (hfg.2.trans hfk.2.symm)
  · exact (hentry _ g ⟨hg, rfl⟩).1

section found

variable (hd : d.Sound) (hf : d.lookup p = some h)
include hd hf

lemma Disk.Sound.only (g : Fin BLOCK_NUM) (hg : d.IsFile p g) : g = h := by
  have hfile := (lookup_eq_some.mp hf).1
  exact hd.names g h hg.1 hfile.1 (hg.2.trans hfile.2.symm)

lemma Disk.Sound.path : p.Entry := hd.entry p h (lookup_eq_some.mp hf).1

/-- **A file that is rewritten** is replaced in the store. -/
lemma Disk.Rewrites.served (hr : Rewrites d d' p h (d.chain h) c) (hne : c ≠ [])
    (hfit : (d'.blocks h).dbm.st_size ≤ c.length * BLOCK_DATA) {f : StoredFile}
    (hsize : (d'.blocks h).dbm.st_size = f.size) (hbytes : d'.raw c = f.bytes) :
    d'.Sound ∧ d'.store = d.store.put p (d.stored h).blocks f := by
  have hl := hd.toLinked
  have hch := hr.chain_eq hl (hr.isHead hl hne)
  have hfile : d'.stored h = f := by
    rw [Disk.stored, Disk.fileSize, hsize, hch, hbytes, Int.toNat_natCast]
  refine ⟨hr.sound hd (hd.path hf) (hd.only hf) fun _ => hfit, ?_⟩
  rw [hr.store_eq hd (hr.lookup hl hf hne) hch, hfile, stored_blocks]

lemma served_head {b : Block} (hname : b.dbm.filename = (d.blocks h).dbm.filename)
    (hnext : b.dbm.next = (d.blocks h).dbm.next) (hhead : b.dbm.head = (d.blocks h).dbm.head)
    (hsize : b.dbm.st_size = (d.blocks h).dbm.st_size) (hdata : b.data = (d.blocks h).data) :
    (d.put h b).Sound ∧ (d.put h b).store = d.store := by
  have hl := hd.toLinked
  have hfile := (lookup_eq_some.mp hf).1
  have hr : Rewrites d (d.put h b) p h (d.chain h) (d.chain h) :=
    rewrites_head hl hfile.1 hfile.2 (Block.name_eq (hd.path hf).1 hfile.2 hname) hnext
      (by rw [hhead]; exact hfile.1.2) (by rw [hsize]; exact hl.size_nonneg h hfile.1)
  have hraw : (d.put h b).raw (d.chain h) = (d.stored h).bytes := by
    rw [stored_raw]
    refine List.flatMap_congr fun j _ => ?_
    by_cases hj : j = h
    · rw [hj, put_blocks_self, hdata]
    · rw [put_blocks_of_ne _ _ hj]
  have hst : ((d.put h b).blocks h).dbm.st_size = (d.stored h).size := by
    rw [put_blocks_self, hsize, hd.toWellFormed.st_size hf, stored_fileSize]
  obtain ⟨hs, he⟩ := hr.served hd hf (chain_ne_nil hl hf)
    (by rw [put_blocks_self, hsize]; exact hd.sized h hfile.1) hst hraw
  exact ⟨hs, he.trans (Store.put_same _ (store_files hf))⟩

end found

/-- **A file that is created.** -/
lemma served_new (hd : d.Sound) (hp : p.Entry) (hno : d.lookup p = none) {b : Block}
    (hi : d.IsFree i) (hb : NewHead b p) : ((d.mark i).put i b).Sound ∧
      ((d.mark i).put i b).lookup p = some i ∧
      ((d.mark i).put i b).stored i = .new ∧
      ((d.mark i).put i b).store = d.store.put p 0 .new := by
  have hl := hd.toLinked
  have hr := rewrites_new hi hb
  have hlookup := lookup_of_new hno (isFile_new hb) fun g hg hg' =>
    (hr.isFile_iff_of_ne hl hg).mp hg'
  have hfile : ((d.mark i).put i b).stored i = .new := by
    rw [Disk.stored, chain_new hi hb hl, Disk.fileSize, put_blocks_self, hb.size, raw_cons,
      put_blocks_self, hb.data, StoredFile.new]
    simp [raw]
  refine ⟨hr.sound hd hp (fun g hg => absurd hg (lookup_eq_none.mp hno g)) fun _ => ?_, hlookup,
    hfile, ?_⟩
  · rw [put_blocks_self, hb.size]
    exact Int.natCast_nonneg _
  · rw [hr.store_eq hd hlookup (chain_new hi hb hl), hfile, List.length_nil]

/-- **A file that is deleted.** -/
lemma served_gone (hd : d.Sound) (hf : d.lookup p = some h) (hw : Wiped d d' (d.chain h)) :
    d'.Sound ∧ d'.store = d.store.remove p (d.stored h) := by
  have hl := hd.toLinked
  have hfile := (lookup_eq_some.mp hf).1
  have hr := hw.rewrites hl hfile
  -- the wiped head was the only file of its name
  have hno : ∀ g, ¬ d'.IsFile p g := by
    intro g hg
    have hgh : g = h := by
      by_contra hgh
      exact hgh (hd.only hf g ((hr.isFile_iff_of_ne hl hgh).mp hg))
    rw [hgh] at hg
    exact ((hw.alloc h).mp hg.1.1).1 (hl.mem_chain hfile.1)
  have hfree := hr.edit.freeCount hl hr.owns hd.total
  rw [List.length_nil, add_zero] at hfree
  refine ⟨hr.sound hd (hd.path hf) (hd.only hf) fun hh => absurd ⟨hh, hr.after hh⟩ (hno h), ?_⟩
  refine Store.ext (funext fun r => ?_) ?_
  · by_cases hq : r = p
    · rw [hq, store_missing (lookup_eq_none.mpr hno), Store.remove_files_self]
    · rw [hr.store_other hl hq, Store.remove_files_of_ne _ hq]
  · simp only [Store.remove, store, stored_blocks, hfree]

/-! ### Writing -/

section write

variable (hd : d.Sound)
include hd

lemma Wrote.served (hf : d.lookup p = some h) (hw : Wrote d d' p h new buf o n)
    (ho : o ≤ d.fileSize h) :
    d'.Sound ∧ d'.store = d.store.put p (d.stored h).blocks ((d.stored h).write buf o n) := by
  have hwf := hd.toWellFormed
  have hstart := ho.trans (hwf.size_le hf)
  have hlen := hw.length_eq hstart
  have hnew : new.length = (d.stored h).lacks (o + n) := by
    rw [StoredFile.lacks, stored_blocks]
    rw [List.length_append] at hlen
    omega
  have hfit : o + n ≤ (d.chain h ++ new).length * BLOCK_DATA := by
    rw [hlen]
    exact ceilDiv_le.mp (le_max_right _ _)
  refine hw.rewrites.served hd hf (by simp [chain_ne_nil hd.toLinked hf]) ?_ hw.size ?_
  · rw [hw.size]
    exact_mod_cast hfit
  · rw [hw.raw_eq hstart, hnew, StoredFile.write, StoredFile.extend, stored_raw]

/-- **`aofs_write`**, where the store has room. -/
lemma write_served {out : Outcome} {s' : Store} (hp : p.Entry) (hs : size ≤ INT_MAX)
    (ho : offset ≤ OFF_MAX) (hout : Store.serve (.write p buf size offset) d.store = some (out, s')) :
    Safe (aofsWrite p buf size offset) d fun r d' =>
      Reply.Shows (.code r) out ∧ d'.Sound ∧ d'.store = s' := by
  have hl := hd.toLinked
  cases hf : d.lookup p with
  | some h =>
    have hmin := Nat.min_le_right offset (d.fileSize h)
    have hstart := hmin.trans (hd.toWellFormed.size_le hf)
    simp only [Store.serve, store_files hf, Store.writeTo, store_free, stored_fileSize,
      StoredFile.lacks_le, stored_blocks] at hout
    split at hout
    next hroom =>
      cases hout
      refine safe_aofsWriteFile_found hl hf hp.1 hs ho rfl (fun _ => ⟨hstart, hroom⟩)
        fun d' new hw _ => ⟨rfl, ?_⟩
      rw [← stored_blocks]
      exact hw.served hd hf hmin
    next => cases hout
  | none =>
    -- the file is created first, and is written with nothing in it
    simp only [Store.serve, store_missing hf] at hout
    split at hout
    next => cases hout
    next hfree =>
      rw [store_free] at hfree
      simp only [Store.writeTo, Store.put_free, store_free, StoredFile.lacks_le, StoredFile.new_blocks,
        add_zero] at hout
      split at hout
      next hroom =>
        cases hout
        have hzero : min offset StoredFile.new.size = 0 := Nat.min_zero offset
        rw [hzero] at hroom ⊢
        rw [zero_add] at hroom
        refine safe_aofsWriteFile_new hl hf hp.1 hs ho (Nat.pos_of_ne_zero hfree)
          (hroom.trans (Nat.mul_le_mul_right _ (by omega))) fun d' i b new hi hb hw => ⟨rfl, ?_⟩
        obtain ⟨hd₁, hf₁, hnew, hstore⟩ := served_new hd hp hf hi.1 hb
        obtain ⟨hd', he⟩ := hw.served hd₁ hf₁ (Nat.zero_le _)
        rw [hnew, hstore, StoredFile.new_blocks] at he
        exact ⟨hd', he⟩
      next => cases hout

end write

/-! ### Truncating -/

lemma raw_of_bytes {l : List UInt8} (hlen : c.length * BLOCK_DATA = l.length)
    (hb : ∀ x, d.byteAt c x = l.getD x 0) : d.raw c = l :=
  ext_getD (by rw [raw_length, hlen]) hb

lemma getD_take_zeros {l : List UInt8} (hn : n ≤ l.length) (k x : ℕ) :
    (l.take n ++ List.replicate k 0).getD x 0 = if x < n then l.getD x 0 else 0 := by
  have hlen : (l.take n).length = n := by rw [List.length_take, min_eq_left hn]
  split
  next hx =>
    rw [List.getD_append _ _ _ _ (by omega), List.getD_eq_getElem?_getD,
      List.getElem?_take_of_lt hx, List.getD_eq_getElem?_getD]
  next hx =>
    rw [List.getD_append_right _ _ _ _ (by omega), List.getD_eq_getElem?_getD,
      List.getElem?_getD_replicate_default_eq]

/-- Numbers of blocks do not wrap. -/
lemma toInt_sub_blocks {a b : ℕ} (ha : a ≤ INT_MAX) (hb : b ≤ INT_MAX) :
    toInt ((a : ℤ) - b) = a - b := by
  simp only [INT_MAX] at ha hb
  exact toInt_of_range (by omega) (by omega)

lemma sizeStored_raw (k : ℤ) (c : List (Fin BLOCK_NUM)) : (sizeStored d h k).raw c = d.raw c :=
  raw_of_bytes (raw_length d c).symm (stored_bytes c)

lemma Grown.raw_eq (hg : Grown d d' p i new) (hl : d.Linked) (hfile : d.IsFile p h) :
    d'.raw (d.chain h ++ new) = ((d.stored h).extend new.length).bytes := by
  rw [StoredFile.extend, stored_raw]
  refine raw_of_bytes ?_ fun x => ?_
  · rw [List.length_append, List.length_append, raw_length, List.length_replicate, Nat.add_mul]
  · rw [hg.bytes hl hfile, getD_raw_zeros]

section truncate

variable (hd : d.Sound) (hf : d.lookup p = some h)
include hd hf

lemma fileSize_blocks : d.fileSize h / BLOCK_DATA ≤ INT_MAX ∧
    blockCount (d.blocks h).dbm.st_size = (d.fileSize h / BLOCK_DATA : ℕ) := by
  have hhead := (lookup_eq_some.mp hf).1.1
  have himage : d.fileSize h ≤ BLOCK_NUM * BLOCK_DATA :=
    Op.size_le_image hd.toLinked hhead (hd.sized h hhead) (by rw [hd.toWellFormed.st_size hf])
  refine ⟨(Nat.div_le_div_right himage).trans (by decide), ?_⟩
  rw [hd.toWellFormed.st_size hf, blockCount_of_le himage]

lemma served_cut {pre post : List (Fin BLOCK_NUM)} (hc : d.chain h = pre ++ i :: post)
    (hlen : pre.length = size / BLOCK_DATA) (hw : Wiped d d' post)
    (hle : size ≤ d.fileSize h) (hne : size / BLOCK_DATA ≠ d.fileSize h / BLOCK_DATA) :
    (sizeStored (d'.put i (lastKept (d.blocks i) (size % BLOCK_DATA))) h size).Sound ∧
      (sizeStored (d'.put i (lastKept (d.blocks i) (size % BLOCK_DATA))) h size).store =
        d.store.put p (d.stored h).blocks ((d.stored h).cut size) := by
  have hl := hd.toLinked
  have hfile := (lookup_eq_some.mp hf).1
  have hp := (hd.path hf).1
  have hmod : size % BLOCK_DATA < BLOCK_DATA := Nat.mod_lt _ (by decide)
  have hsplit : size / BLOCK_DATA * BLOCK_DATA + size % BLOCK_DATA = size := by
    rw [mul_comm]; exact Nat.div_add_mod _ _
  have hfit : size ≤ (d.raw (d.chain h)).length := by
    rw [raw_length]
    exact hle.trans (hd.toWellFormed.size_le hf)
  have hkept : (pre ++ [i]).length = size / BLOCK_DATA + 1 := by
    rw [List.length_append, hlen, List.length_singleton]
  have hroom : size ≤ (pre ++ [i]).length * BLOCK_DATA := by
    rw [hkept, Nat.add_mul]
    omega
  rw [StoredFile.cut, stored_fileSize, stored_raw, if_neg hne]
  refine ((hw.cut hl hfile hc hp).stored hl hp (by simp) (Int.natCast_nonneg size)).served hd hf
    (by simp) ?_ stored_size (raw_of_bytes ?_ fun x => ?_)
  · rw [stored_size]
    exact_mod_cast hroom
  · rw [hkept] at hroom ⊢
    simp only [List.length_append, List.length_take, List.length_replicate, min_eq_left hfit]
    omega
  · -- behind the new end the last block is wiped
    rw [stored_bytes, hw.cut_bytes hl hfile hc hmod.le, getD_take_zeros hfit, hlen, hsplit]
    rfl

lemma served_grown {pre : List (Fin BLOCK_NUM)} (hc : d.chain h = pre ++ [i])
    (hg : Grown d d' p i new) (hfit : n ≤ ((d.chain h).length + new.length) * BLOCK_DATA) :
    (sizeStored d' h n).Sound ∧ (sizeStored d' h n).store =
      d.store.put p (d.stored h).blocks { (d.stored h).extend new.length with size := n } := by
  have hl := hd.toLinked
  have hfile := (lookup_eq_some.mp hf).1
  have hp := (hd.path hf).1
  refine ((hg.rewrites hl hfile hc hp).stored hl hp (by simp [hc])
    (Int.natCast_nonneg n)).served hd hf (by simp [hc]) ?_ stored_size
      ?_
  · rw [stored_size, List.length_append]
    exact_mod_cast hfit
  · rw [sizeStored_raw, hg.raw_eq hl hfile]

lemma served_full {pre : List (Fin BLOCK_NUM)} (hc : d.chain h = pre ++ [i])
    (hg : Grown d d' p i new) : d'.Sound ∧
      d'.store = d.store.put p (d.stored h).blocks ((d.stored h).extend new.length) := by
  have hl := hd.toLinked
  have hfile := (lookup_eq_some.mp hf).1
  have hsame : (d'.blocks h).dbm.st_size = d.fileSize h := by
    obtain ⟨k, hk⟩ := hg.blocks hl hfile (hl.mem_chain hfile.1)
    rw [hk, ← hd.toWellFormed.st_size hf]
  refine (hg.rewrites hl hfile hc (hd.path hf).1).served hd hf (by simp [hc]) ?_ ?_
    (hg.raw_eq hl hfile)
  · rw [hsame, List.length_append]
    exact_mod_cast (hd.toWellFormed.size_le hf).trans
      (Nat.mul_le_mul_right _ (Nat.le_add_right _ _))
  · rw [hsame, StoredFile.extend, stored_fileSize]

/-- Only the size changes. -/
lemma served_kept (hfit : n ≤ (d.chain h).length * BLOCK_DATA) :
    (sizeStored d h n).Sound ∧ (sizeStored d h n).store =
      d.store.put p (d.stored h).blocks { d.stored h with size := n } := by
  have hl := hd.toLinked
  have hfile := (lookup_eq_some.mp hf).1
  refine (stored_rewrites hl hfile (hd.path hf).1 (Int.natCast_nonneg n)).served hd hf
    (chain_ne_nil hl hf) ?_ stored_size ?_
  · rw [stored_size]
    exact_mod_cast hfit
  · rw [sizeStored_raw, stored_raw]

/-- **`aofs_truncate`**, where the store answers. -/
lemma truncate_served {out : Outcome} {s' : Store} (hs : size ≤ OFF_MAX)
    (hi : size / BLOCK_DATA ≤ INT_MAX) (hfuel : BLOCK_NUM ≤ fuel)
    (hout : d.store.truncateTo p (d.stored h) size = some (out, s')) :
    Safe (aofsTruncateFile fuel p size) d fun r d' =>
      Reply.Shows (.code r) out ∧ d'.Sound ∧ d'.store = s' := by
  have hl := hd.toLinked
  have hfile := (lookup_eq_some.mp hf).1
  have hst := hd.toWellFormed.st_size hf
  have hfit := hd.toWellFormed.size_le hf
  obtain ⟨hold, hblocks⟩ := fileSize_blocks hd hf
  have hnew : blockCount size = (size / BLOCK_DATA : ℕ) := blockCount_eq hi
  have hmissing : missingBlocks (d.blocks h).dbm.st_size size = (d.stored h).missing size := by
    rw [missingBlocks, hblocks, hnew, toInt_sub_blocks hi hold, StoredFile.missing,
      stored_fileSize, Int.toNat_sub]
  simp only [Store.truncateTo, store_free, stored_fileSize, stored_blocks] at hout
  refine safe_aofsTruncateFile_found hf hs (fun hlt hdiff => ?_) (fun hmore _ => ?_)
    fun hcut hgrow => ?_
  · -- the file loses blocks
    rw [hst, Int.ofNat_lt] at hlt
    rw [if_pos hlt.le] at hout
    cases hout
    have hwalk := Op.onChain_of_sized hl hd.sized (.truncate p size) h hf
      (by rw [hst]; exact_mod_cast hlt) hdiff
    refine safe_shrink hl hfuel hfile.1 hwalk fun pre i post d' hc hlen hfr => ⟨rfl, ?_⟩
    rw [hnew, Int.toNat_natCast] at hlen
    rw [← stored_blocks]
    refine served_cut hd hf hc hlen hfr.toWiped hlt.le fun he => hdiff ?_
    rw [hblocks, hnew, he, sub_self]
    rfl
  · -- it is given blocks
    rw [hst, Int.ofNat_lt] at hmore
    rw [if_neg (not_le.mpr hmore)] at hout
    refine safe_grow hl hfuel hfile.1 (hd.path hf).1 fun pre i new d' hc hg hlen _ =>
      ⟨fun hfree => ?_, fun hfree => ?_⟩
    · rw [min_eq_left hfree, hmissing] at hlen
      rw [hmissing] at hfree
      rw [if_neg (not_lt.mpr hfree), ← hlen] at hout
      split at hout
      next hroom =>
        cases hout
        rw [← stored_blocks]
        exact ⟨rfl, served_grown hd hf hc hg hroom⟩
      next => cases hout
    · -- there are not enough of them, and it keeps those that there were
      rw [min_eq_right hfree.le] at hlen
      rw [hmissing] at hfree
      rw [if_pos hfree, ← hlen] at hout
      cases hout
      rw [← stored_blocks]
      exact ⟨rfl, served_full hd hf hc hg⟩
  · -- the number of blocks stays, and so do the bytes
    rw [hblocks, hnew, toInt_sub_blocks hold hi, hst] at hcut
    rw [hblocks, hnew, toInt_sub_blocks hi hold, hst] at hgrow
    rcases le_or_gt size (d.fileSize h) with hle | hlt
    · have hsame : size / BLOCK_DATA = d.fileSize h / BLOCK_DATA := by
        rcases hle.lt_or_eq with hlt | heq
        · exact_mod_cast (sub_eq_zero.mp (hcut (by exact_mod_cast hlt))).symm
        · rw [heq]
      rw [if_pos hle, StoredFile.cut, stored_fileSize, if_pos hsame] at hout
      cases hout
      rw [← stored_blocks]
      exact ⟨rfl, served_kept hd hf (hle.trans hfit)⟩
    · have hnone : (d.stored h).missing size = 0 := by
        have hsame := sub_eq_zero.mp (hgrow (by exact_mod_cast hlt))
        rw [StoredFile.missing, stored_fileSize, Int.ofNat_inj.mp hsame, Nat.sub_self]
      rw [if_neg (not_le.mpr hlt), hnone, if_neg (Nat.not_lt_zero _), add_zero] at hout
      split at hout
      next hroom =>
        cases hout
        rw [← stored_blocks, StoredFile.extend_zero]
        exact ⟨rfl, served_kept hd hf hroom⟩
      next => cases hout

end truncate

/-! ### Reading -/

section read

variable (hd : d.Sound) (hf : d.lookup p = some h)
include hd hf

lemma served_accessed (t : UInt64) :
    (accessed d h t).Sound ∧ (accessed d h t).store = d.store :=
  served_head hd hf rfl rfl rfl rfl rfl

omit hd hf in
lemma readFits_of_readable (hr : (d.stored h).Readable size offset) :
    ReadFits d h size offset := by
  rw [StoredFile.Readable, stored_fileSize, stored_blocks] at hr
  rcases hr with ⟨hpos, hend, hblocks⟩ | ⟨hfar, hmax⟩ | ⟨hnone, hmod⟩
  · exact .inside hpos hend hblocks
  · refine .behind ?_
    simp only [INT_MAX] at hmax
    rw [toInt_of_range (by omega) (by omega), Int.toNat_natCast]
    exact hfar
  · exact .empty hnone hmod

lemma shows_of_readLaw {r : ℤ × List Copy} (hr : ReadLaw d h size offset r) :
    Reply.Shows (.copies r) (.data (((d.stored h).content.drop offset).take size)) := by
  have hlen : (((d.stored h).content.drop offset).take size).length =
      min size (d.fileSize h - offset) := by
    rw [List.length_take, List.length_drop, stored_content, hd.toWellFormed.content_eq hf,
      List.length_map, List.length_range]
  refine ⟨by rw [hr.count, hlen], fun b j hj => ?_⟩
  rw [hlen] at hj
  rw [hr.bytes b j hj, stored_content, List.getD_eq_getElem?_getD, List.getD_eq_getElem?_getD,
    List.getElem?_take_of_lt (lt_of_lt_of_le hj (Nat.min_le_left _ _)), List.getElem?_drop]

/-- **`aofs_read`** of what is readable. -/
lemma read_served (hs : size ≤ INT_MAX) (ho : offset ≤ OFF_MAX)
    (hr : (d.stored h).Readable size offset) :
    Ends (aofsRead p size offset) d fun r d' => Reply.Shows (.copies r)
      (.data (((d.stored h).content.drop offset).take size)) ∧ d'.Sound ∧ d'.store = d.store := by
  have hsize : size < 18446744073709551616 := hs.trans_lt (by decide)
  have hlaw := (endsIff_aofsReadFile hd.toWellFormed hf hsize ho).1
    (readFits_of_readable hr)
  have hdisk : (aofsReadFile p size offset).Always exec InImage
      (fun _ d' => d'.Sound ∧ d'.store = d.store) d :=
    always_aofsReadFile (fun g t _ hg => by
      obtain rfl : h = g := Option.some.inj (hf.symm.trans hg)
      exact served_accessed hd hf t) fun _ hno => by rw [hf] at hno; cases hno
  refine fun l => ?_
  obtain ⟨r, d', l', hrun, hread⟩ := hlaw l
  exact ⟨r, d', l', hrun, shows_of_readLaw hd hf hread, (hdisk l).2 r d' l' hrun⟩

end read

lemma read_missing (hno : d.lookup p = none) :
    Safe (aofsRead p size offset) d fun r d' => r = (-ENOENT, []) ∧ d' = d := by
  refine safe_bind (safe_newBlock fun b => safe_bind (safe_find_missing hno ?_))
  dsimp only
  rw [if_pos rfl]
  exact safe_ret ⟨rfl, rfl⟩

/-! ### The other handlers -/

section handlers

variable (hd : d.Sound)
include hd

lemma create_served {out : Outcome} {s' : Store} (hp : p.Entry)
    (hout : Store.serve (.create p) d.store = some (out, s')) :
    Safe (aofsCreate p) d fun r d' => Reply.Shows (.code r) out ∧ d'.Sound ∧ d'.store = s' := by
  simp only [Store.serve, store_free] at hout
  refine safe_bind (safe_aofsCreateFile hp.1 hd.total_le (fun i b hi hb => ?_) fun hfull => ?_)
  · have hfree : d.freeCount ≠ 0 :=
      (Finset.card_pos.mpr ⟨i, (Finset.mem_filter_univ i).mpr hi.1⟩).ne'
    rw [if_pos (not_lt.mp (addr_nonneg i))]
    rw [if_neg hfree] at hout
    cases hf : d.lookup p with
    | some h =>
      rw [store_files hf] at hout
      cases hout
    | none =>
      rw [store_missing hf] at hout
      cases hout
      obtain ⟨hs, -, -, hstore⟩ := served_new hd hp hf hi.1 hb
      exact safe_pure ⟨rfl, hs, hstore⟩
  · rw [if_pos hfull] at hout
    cases hout
    rw [if_neg (by decide)]
    exact safe_pure ⟨rfl, hd, rfl⟩

lemma unlink_served {out : Outcome} {s' : Store} (hfuel : BLOCK_NUM ≤ fuel)
    (hout : Store.serve (.unlink p) d.store = some (out, s')) :
    Safe (aofsUnlink fuel p) d fun r d' =>
      Reply.Shows (.code r) out ∧ d'.Sound ∧ d'.store = s' := by
  simp only [Store.serve] at hout
  refine safe_aofsDeleteFile hd.toLinked hfuel (fun h d' hf hw => ?_) fun hno => ?_
  · rw [store_files hf] at hout
    cases hout
    exact ⟨rfl, served_gone hd hf hw⟩
  · rw [store_missing hno] at hout
    cases hout
    exact ⟨rfl, hd, rfl⟩

lemma update_served {f : Block → Block} {out : Outcome} {s' : Store}
    (hout : (if (d.store.files p).isSome then some (Outcome.status 0, d.store) else none) =
      some (out, s')) (hname : ∀ b, (f b).dbm.filename = b.dbm.filename)
    (hnext : ∀ b, (f b).dbm.next = b.dbm.next) (hhead : ∀ b, (f b).dbm.head = b.dbm.head)
    (hsize : ∀ b, (f b).dbm.st_size = b.dbm.st_size) (hdata : ∀ b, (f b).data = b.data) :
    Safe (update p f) d fun r d' => Reply.Shows (.code r) out ∧ d'.Sound ∧ d'.store = s' := by
  cases hf : d.lookup p with
  | some h =>
    rw [store_files hf, if_pos (Option.isSome_some)] at hout
    cases hout
    refine safe_bind (safe_newBlock fun b => safe_bind (safe_find_found hf ?_))
    refine safe_bind (safe_writeBlock (safe_pure ⟨rfl, ?_⟩))
    exact served_head hd hf (hname _) (hnext _) (hhead _) (hsize _) (hdata _)
  | none =>
    rw [store_missing hf] at hout
    cases hout

omit hd in
lemma open_served {out : Outcome} {s' : Store}
    (hout : Store.serve (.open_ p) d.store = some (out, s')) :
    Safe (aofsOpen p) d fun r d' => Reply.Shows (.code r) out ∧ d' = d ∧ d.store = s' := by
  simp only [Store.serve] at hout
  cases hout
  refine safe_bind (safe_newBlock fun b => safe_bind (safe_aofsFindFileHead (fun h hf => ?_)
    fun hno => ?_))
  · rw [store_files hf, if_pos Option.isSome_some]
    dsimp only
    rw [if_pos (addr_ne h)]
    exact safe_pure ⟨rfl, rfl, rfl⟩
  · rw [store_missing hno]
    exact safe_pure ⟨rfl, rfl, rfl⟩

lemma getattr_served {out : Outcome} {s' : Store} (hp : p.Entry)
    (hout : Store.serve (.getattr p) d.store = some (out, s')) :
    Safe (aofsGetattr p) d fun r d' => Reply.Shows (.attributes r) out ∧ d' = d ∧ d.store = s' := by
  have hroot : p ≠ .root := by
    obtain ⟨-, n, hn, rfl⟩ := hp
    exact CStr.slash_ne_root hn
  simp only [Store.serve] at hout
  cases hf : d.lookup p with
  | some h =>
    rw [store_files hf] at hout
    cases hout
    refine safe_aofsGetattr hroot (fun g hg => ?_) fun hno => by rw [hf] at hno; cases hno
    obtain rfl : h = g := Option.some.inj (hf.symm.trans hg)
    refine ⟨⟨rfl, rfl, ?_⟩, rfl, rfl⟩
    rw [stored_fileSize, ← hd.toWellFormed.st_size hf]
    rfl
  | none =>
    rw [store_missing hf] at hout
    cases hout
    exact safe_aofsGetattr hroot (fun g hg => by rw [hf] at hg; cases hg) fun _ => ⟨rfl, rfl, rfl⟩

omit hd in
lemma store_isSome : (d.store.files q).isSome = true ↔ ∃ h, d.IsFile q h := by
  rw [store_apply, Option.isSome_map, Option.isSome_iff_exists, exists_lookup_iff]

lemma readdir_served {out : Outcome} {s' : Store}
    (hout : Store.serve .readdir d.store = some (out, s')) :
    Safe (aofsReaddir .root) d fun r d' => Reply.Shows (.names r) out ∧ d' = d ∧ d.store = s' := by
  have hentry : ∀ h, d.IsHead h → (d.blocks h).name = (d.blocks h).entryName.slash := by
    intro h hh
    obtain ⟨-, n, -, hn⟩ := hd.entry _ h ⟨hh, rfl⟩
    rw [entryName_eq hn, hn]
  simp only [Store.serve] at hout
  cases hout
  refine safe_aofsReaddir ⟨⟨rfl, _, rfl, ?_, fun m => ?_⟩, rfl, rfl⟩
  · refine nodup_heads.map_on fun h hh g hg he => ?_
    rw [mem_heads] at hh hg
    exact hd.names h g hh hg (by rw [hentry h hh, hentry g hg, he])
  · rw [List.mem_map, store_isSome]
    constructor
    · rintro ⟨h, hh, rfl⟩
      exact ⟨h, mem_heads.mp hh, hentry h (mem_heads.mp hh)⟩
    · rintro ⟨h, hh, hname⟩
      exact ⟨h, mem_heads.mpr hh, entryName_eq hname⟩

end handlers

/-! ### Runs -/

/-- The operation may reply `r` and leave the disk `d'`. -/
def Operation.Gives (op : Operation) (d : Disk) (r : Reply) (d' : Disk) : Prop :=
  ∃ fuel l l', (op.code fuel).run exec d l = some (r, d', l')

lemma Operation.code_le {fuel fuel' : ℕ} (hf : fuel ≤ fuel') (op : Operation) :
    (op.code fuel).Le (op.code fuel') := by
  cases op with
  | unlink p => exact Prog.le_bind (aofsDeleteFile_le hf p) fun _ => .refl _
  | truncate p size => exact Prog.le_bind (aofsTruncateFile_le hf p size) fun _ => .refl _
  | _ => exact .refl _

/-- What holds at the end of every run with enough fuel holds of what an operation gives. -/
lemma Operation.Gives.of_ends {op : Operation} {r : Reply} {Q : Reply → Disk → Prop}
    (hd : op.Gives d r d') (hQ : ∀ fuel, BLOCK_NUM ≤ fuel → Ends (op.code fuel) d Q) : Q r d' := by
  obtain ⟨fuel, l, l', h⟩ := hd
  have hrun := (Operation.code_le (Nat.le_max_left fuel BLOCK_NUM) op).run h
  obtain ⟨r', d'', l'', hr, hq⟩ := hQ _ (Nat.le_max_right fuel BLOCK_NUM) l
  obtain ⟨rfl, rfl, -⟩ : r = r' ∧ d' = d'' ∧ l' = l'' := by simpa [hrun] using hr
  exact hq

lemma ends_reply {α : Type} {code : Code α} {f : α → Reply} {Q : Reply → Disk → Prop}
    (h : Ends code d fun r d' => Q (f r) d') : Ends (do return f (← code)) d Q :=
  Prog.Ends.bind (h.mono fun _ _ hq => (safe_pure hq).ends)

/-- **One operation** is answered as by the store of the disk, and leaves a sound disk with the
store that is left. -/
lemma operation_served (hd : d.Sound) {op : Operation} (hv : op.Valid) (hfuel : BLOCK_NUM ≤ fuel)
    {out : Outcome} {s' : Store} (hout : Store.serve op d.store = some (out, s')) :
    Ends (op.code fuel) d fun r d' => r.Shows out ∧ d'.Sound ∧ d'.store = s' := by
  have hsame : ∀ {α : Type} {code : Code α} {f : α → Reply},
      Safe code d (fun r d' => (f r).Shows out ∧ d' = d ∧ d.store = s') →
      Ends (do return f (← code)) d fun r d' => r.Shows out ∧ d'.Sound ∧ d'.store = s' :=
    fun h => ends_reply (h.ends.mono fun _ _ ⟨hshow, he, hs⟩ => ⟨hshow, he ▸ hd, he ▸ hs⟩)
  cases op with
  | getattr p => exact hsame (getattr_served hd hv hout)
  | readdir => exact hsame (readdir_served hd hout)
  | open_ p => exact hsame (open_served hout)
  | create p => exact ends_reply (create_served hd hv hout).ends
  | read p size offset =>
    obtain ⟨-, hs, ho⟩ := hv
    simp only [Store.serve] at hout
    cases hf : d.lookup p with
    | some h =>
      rw [store_files hf] at hout
      dsimp only at hout
      split at hout
      next hr =>
        cases hout
        exact ends_reply (read_served hd hf hs ho hr)
      next => cases hout
    | none =>
      rw [store_missing hf] at hout
      cases hout
      refine ends_reply ((read_missing hf).ends.mono fun r d' ⟨hr, he⟩ => ?_)
      rw [hr, he]
      exact ⟨⟨rfl, rfl⟩, hd, rfl⟩
  | write p buf size offset =>
    obtain ⟨hp, hs, ho⟩ := hv
    exact ends_reply (write_served hd hp hs ho hout).ends
  | unlink p => exact ends_reply (unlink_served hd hfuel hout).ends
  | truncate p size =>
    obtain ⟨-, hs, hi⟩ := hv
    simp only [Store.serve] at hout
    cases hf : d.lookup p with
    | some h =>
      rw [store_files hf] at hout
      exact ends_reply (truncate_served hd hf hs hi hfuel hout).ends
    | none =>
      rw [store_missing hf] at hout
      cases hout
      exact ends_reply (safe_aofsTruncateFile_missing hf ⟨rfl, hd, rfl⟩).ends
  | utimens p ts =>
    simp only [Store.serve] at hout
    exact ends_reply (update_served (f := fun b => b.setTimes ts) hd hout (fun _ => rfl)
      (fun _ => rfl) (fun _ => rfl) (fun _ => rfl) fun _ => rfl).ends
  | chown p uid gid =>
    simp only [Store.serve] at hout
    exact ends_reply (update_served (f := fun b => b.setOwner uid gid) hd hout (fun _ => rfl)
      (fun _ => rfl) (fun _ => rfl) (fun _ => rfl) fun _ => rfl).ends

lemma Blank.sound (hd : Blank d) : d.Sound :=
  ⟨hd.wellFormed, hd.total, fun _ h hf => absurd hf.1 (hd.not_isHead h)⟩

lemma Blank.store_eq (hd : Blank d) : d.store = .empty := by
  refine Store.ext (funext fun q => ?_) ?_
  · rw [store_missing (hd.lookup q), Store.empty]
  · rw [store_free, hd.freeCount, Store.empty]

/-! ### Runs with descriptors -/

/-- The disk, and the descriptors that the process may still open. -/
structure Server where
  disk : Disk
  fds : ℕ

/-- The handler opens the disk file and works on it, or returns at once. -/
def Upcall.Gives (call : Upcall) (s : Server) (r : Reply) (s' : Server) : Prop :=
  if call.granted ∧ s.fds ≠ 0 then
    call.op.Gives s.disk r s'.disk ∧ s'.fds = s.fds - call.op.leaks
  else (∃ stbuf, r = call.op.refused stbuf) ∧ s' = s

lemma shows_refused (stbuf : Stat) (op : Operation) : (op.refused stbuf).Shows (.status (-1)) := by
  cases op with
  | read p size offset => exact ⟨rfl, rfl⟩
  | _ => rfl

/-- The server stands for the service. -/
def Server.Stands (s : Server) (t : Service) : Prop :=
  s.disk.Sound ∧ s.disk.store = t.store ∧ s.fds = t.fds

/-- **One request** is answered as by the service, with a descriptor and without one. -/
lemma upcall_served {call : Upcall} {s : Server} {t t' : Service} {out : Outcome}
    (hv : call.op.Valid) (hst : s.Stands t) (hout : t.serve call = some (out, t')) :
    (∃ r s', call.Gives s r s') ∧
      ∀ r s', call.Gives s r s' → r.Shows out ∧ s'.Stands t' := by
  obtain ⟨hsound, hstore, hfds⟩ := hst
  unfold Service.serve at hout
  unfold Upcall.Gives
  rw [hfds]
  split at hout
  next hopen =>
    simp only [if_pos hopen]
    obtain ⟨⟨out', store⟩, hserve, hres⟩ := Option.map_eq_some_iff.mp hout
    cases hres
    rw [← hstore] at hserve
    have hends := fun fuel (hfuel : BLOCK_NUM ≤ fuel) => operation_served hsound hv hfuel hserve
    refine ⟨?_, fun r s' hg => ?_⟩
    · obtain ⟨r, d', l', hr, -⟩ := hends _ le_rfl default
      exact ⟨r, ⟨d', _⟩, ⟨_, _, l', hr⟩, rfl⟩
    · obtain ⟨hshow, hsound', hstore'⟩ := hg.1.of_ends hends
      exact ⟨hshow, hsound', hstore', hg.2⟩
  next hclosed =>
    simp only [if_neg hclosed]
    cases hout
    refine ⟨⟨_, s, ⟨.zero, rfl⟩, rfl⟩, fun r s' hg => ?_⟩
    obtain ⟨⟨stbuf, rfl⟩, rfl⟩ := hg
    exact ⟨shows_refused stbuf call.op, hsound, hstore, hfds⟩

lemma entry_slashA : slashA.Entry := ⟨by decide, nameA, by decide, rfl⟩

/-- `/a` is created, written, read and cut; `utimens` takes the only descriptor. -/
def slashARun : List Upcall :=
  [⟨.create slashA, true⟩, ⟨.open_ slashA, false⟩, ⟨.write slashA (fun _ => 7) 3 0, true⟩,
    ⟨.read slashA 3 0, true⟩, ⟨.truncate slashA 1, true⟩, ⟨.utimens slashA #v[⟨0⟩, ⟨0⟩], true⟩,
    ⟨.open_ slashA, true⟩]

lemma slashARun_valid : ∀ call ∈ slashARun, call.op.Valid := by
  intro call hcall
  simp only [slashARun, List.mem_cons, List.not_mem_nil, or_false] at hcall
  rcases hcall with rfl | rfl | rfl | rfl | rfl | rfl | rfl
  · exact entry_slashA
  · exact entry_slashA
  · exact ⟨entry_slashA, by decide, by decide⟩
  · exact ⟨entry_slashA, by decide, by decide⟩
  · exact ⟨entry_slashA, by decide, by decide⟩
  · exact entry_slashA
  · exact entry_slashA

/-- The file after the write. -/
def sevens : StoredFile := ⟨3, [7, 7, 7] ++ List.replicate (BLOCK_DATA - 3) 0⟩

lemma slashARun_served : ∃ store, Calls.run Service.serve slashARun ⟨.empty, 1⟩ =
    some ([.status 0, .status (-1), .status 3, .data [7, 7, 7], .status 0, .status 0, .status (-1)],
      ⟨store, 0⟩) := by
  have hlacks : StoredFile.new.lacks 3 = 0 := by
    rw [StoredFile.lacks, StoredFile.new_blocks]
    rfl
  have hwritten : StoredFile.new.write (fun _ => 7) 0 3 = sevens := by
    rw [StoredFile.write, Nat.zero_add, hlacks, StoredFile.extend_zero]
    simp [StoredFile.new, overwrite, List.range_succ, sevens]
  have hread : sevens.Readable 3 0 := .inl ⟨by decide, by decide, .inl (by decide)⟩
  have hcontent : (sevens.content.drop 0).take 3 = [7, 7, 7] := by
    simp [StoredFile.content, sevens]
  set s₁ := Store.empty.put slashA 0 .new with hs₁
  set s₂ := s₁.put slashA StoredFile.new.blocks sevens with hs₂
  set s₃ := s₂.put slashA sevens.blocks (sevens.cut 1) with hs₃
  refine ⟨s₃, ?_⟩
  have hcreate : Store.serve (.create slashA) .empty = some (.status 0, s₁) := by
    simp [Store.serve, Store.empty, hs₁]
  have hwrite : Store.serve (.write slashA (fun _ => 7) 3 0) s₁ = some (.status 3, s₂) := by
    simp [Store.serve, Store.writeTo, hs₁, hs₂, hlacks, hwritten]
  have hreads : Store.serve (.read slashA 3 0) s₂ = some (.data [7, 7, 7], s₂) := by
    simp only [Store.serve, hs₂, Store.put_files_self, if_pos hread, hcontent]
  have hcut : Store.serve (.truncate slashA 1) s₂ = some (.status 0, s₃) := by
    have hle : 1 ≤ sevens.size := by decide
    simp only [Store.serve, hs₂, hs₃, Store.put_files_self, Store.truncateTo, if_pos hle]
  have htimes : ∀ ts, Store.serve (.utimens slashA ts) s₃ = some (.status 0, s₃) := fun ts => by
    simp [Store.serve, hs₃]
  simp [slashARun, Calls.run, Service.serve, Operation.leaks, hcreate, hwrite, hreads, hcut, htimes]

end Messaround.Aofs
