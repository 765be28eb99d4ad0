import Messaround.Aofs.Creation

/-!
Requests of FUSE one after the other, and the names of the files that they leave.

`aofs_create` does not look for the path: where it exists, a second head block gets the same
name. The requests that write, truncate and unlink go to the first head of the name.
-/

namespace Messaround.Aofs

open Messaround.CInt Messaround.Segment Disk

variable {d d' : Disk} {p q : CStr} {h g : Fin BLOCK_NUM} {c c' : List (Fin BLOCK_NUM)}

/-! ### Requests -/

inductive Request
  | create (path : CStr)
  | write (path : CStr) (buf : ℕ → UInt8) (size offset : ℕ)
  | truncate (path : CStr) (size : ℕ)
  | unlink (path : CStr)

namespace Request

/-- The handler called; the loops that only the disk ends have the budget `fuel`. -/
def code (fuel : ℕ) : Request → Code ℤ
  | .create p => aofsCreate p
  | .write p buf size offset => aofsWrite p buf size offset
  | .truncate p size => aofsTruncate fuel p size
  | .unlink p => aofsUnlink fuel p

/-- The numbers are in range: the size of a write is an `int`, an offset and a length are of
type `off_t`. -/
def Valid : Request → Prop
  | .write _ _ size offset => size ≤ INT_MAX ∧ offset ≤ OFF_MAX
  | .truncate _ size => size ≤ OFF_MAX
  | _ => True

/-- The request may return `r` and leave the disk `d'`. -/
def Gives (req : Request) (d : Disk) (r : ℤ) (d' : Disk) : Prop :=
  ∃ fuel l l', (req.code fuel).run exec d l = some (r, d', l')

lemma code_le {fuel fuel' : ℕ} (hf : fuel ≤ fuel') (req : Request) :
    (req.code fuel).Le (req.code fuel') := by
  cases req with
  | truncate p size => exact aofsTruncateFile_le hf p size
  | unlink p => exact aofsDeleteFile_le hf p
  | _ => exact .refl _

/-- What holds after every run with enough fuel holds after a run that ends. -/
lemma Gives.of_safe {req : Request} {r : ℤ} {Q : ℤ → Disk → Prop} (hd : req.Gives d r d')
    (hQ : ∀ fuel, BLOCK_NUM ≤ fuel → Safe (req.code fuel) d Q) : Q r d' := by
  obtain ⟨fuel, l, l', h⟩ := hd
  have hrun := (code_le (Nat.le_max_left fuel BLOCK_NUM) req).run h
  exact ((hQ _ (Nat.le_max_right fuel BLOCK_NUM)).always l).2 r d' l' hrun

lemma exists_gives {req : Request} {fuel : ℕ} {Q : ℤ → Disk → Prop}
    (h : Ends (req.code fuel) d Q) : ∃ r d', req.Gives d r d' ∧ Q r d' := by
  obtain ⟨r, d', l', hr, hq⟩ := h default
  exact ⟨r, d', ⟨fuel, _, l', hr⟩, hq⟩

end Request

/-- The disks that runs of requests from the image reach, when every request satisfies `ok`
in the state it is made in. -/
inductive Served (ok : Disk → Request → Prop) : Disk → Prop
  | image {d : Disk} (h : Image d) : Served ok d
  | step {d d' : Disk} {req : Request} {r : ℤ} (h : Served ok d) (hv : req.Valid)
      (hok : ok d req) (hd : req.Gives d r d') : Served ok d'

/-! ### The invariant -/

/-- A path below the root whose bytes fit the field of the name. -/
def CStr.Usual (p : CStr) : Prop := p ≠ .root ∧ p.length ≤ MAX_FILENAME

/-- Sound chains whose heads have different names, all of them usual. -/
structure NamedApart (d : Disk) : Prop extends d.Linked where
  unique : ∀ p h g, d.IsFile p h → d.IsFile p g → h = g
  usual : ∀ p h, d.IsFile p h → p.Usual

lemma Blank.namedApart (hd : Blank d) : NamedApart d :=
  ⟨hd.linked, fun _ h _ hf _ => absurd hf.1 (hd.not_isHead h),
    fun _ h hf => absurd hf.1 (hd.not_isHead h)⟩

/-- The rewritten file is the only one of its name, before and therefore after. -/
lemma NamedApart.rewrites (hn : NamedApart d) (hr : Rewrites d d' p h c c') (hp : p.Usual)
    (honly : ∀ g, d.IsFile p g → g = h) : NamedApart d' := by
  have hself : ∀ g, d'.IsFile p g → g = h := by
    intro g hg
    by_contra hgh
    exact hgh (honly g ((hr.isFile_iff_of_ne hn.toLinked hgh).mp hg))
  refine ⟨hr.linked hn.toLinked, fun q k g hk hg => ?_, fun q g hg => ?_⟩
  · by_cases hq : q = p
    · subst hq
      rw [hself k hk, hself g hg]
    · exact hn.unique q k g ((hr.isFile_iff hn.toLinked hq).mp hk)
        ((hr.isFile_iff hn.toLinked hq).mp hg)
  · by_cases hq : q = p
    · rw [hq]; exact hp
    · exact hn.usual q g ((hr.isFile_iff hn.toLinked hq).mp hg)

lemma NamedApart.rewrites_found (hn : NamedApart d) (hf : d.lookup p = some h)
    (hr : Rewrites d d' p h c c') : NamedApart d' := by
  have hfile := (lookup_eq_some.mp hf).1
  exact hn.rewrites hr (hn.usual p h hfile) fun g hg => hn.unique p g h hg hfile

lemma NamedApart.rewrites_missing (hn : NamedApart d) (hno : d.lookup p = none) (hp : p.Usual)
    (hr : Rewrites d d' p h c c') : NamedApart d' :=
  hn.rewrites hr hp fun g hg => absurd hg (lookup_eq_none.mp hno g)

/-! ### Steps -/

/-- A `create` finds no file of the path, or no free block. A write finds the blocks that it
needs, and a write or a truncate stays on the chain of its file. The path of a file that is
created is a usual one. -/
def Request.Proper (d : Disk) : Request → Prop
  | .create p => d.freeCount = 0 ∨ (d.lookup p = none ∧ p.Usual)
  | .write p buf size offset => (Op.write p buf size offset).Room d ∧
      (Op.write p buf size offset).OnChain d ∧ (d.lookup p = none → p.Usual)
  | .truncate p size => (Op.truncate p size).OnChain d
  | .unlink _ => True

section step

variable (hn : NamedApart d)
include hn

lemma safe_create_full (h0 : d.freeCount = 0) :
    Safe (aofsCreateFile p) d fun r d' => r = -1 ∧ d' = d := by
  refine safe_bind (safe_allocateBlock hn.total_le (fun i b hi _ => ?_) fun _ => ?_)
  · have hpos := Finset.card_pos.mpr ⟨i, (Finset.mem_filter_univ i).mpr hi.1⟩
    exact absurd h0 (ne_of_gt hpos)
  · rw [if_pos rfl]
    exact safe_ret ⟨rfl, rfl⟩

lemma safe_aofsCreate (hok : (Request.create p).Proper d) :
    Safe (aofsCreate p) d fun _ d' => NamedApart d' := by
  have hfile : Safe (aofsCreateFile p) d fun _ d' => NamedApart d' := by
    rcases hok with h0 | ⟨hno, hp⟩
    · exact (safe_create_full hn h0).mono fun _ d' he => by rw [he.2]; exact hn
    · refine safe_aofsCreateFile hp.2 hn.total_le (fun i b hi hb => ?_) fun _ => hn
      exact hn.rewrites_missing hno hp (rewrites_new hi.1 hb)
  refine safe_bind (hfile.mono fun r d' hd => ?_)
  split
  · exact safe_pure hd
  · exact safe_pure hd

lemma safe_aofsWrite {buf : ℕ → UInt8} {size offset : ℕ} (hs : size ≤ INT_MAX)
    (ho : offset ≤ OFF_MAX) (hok : (Request.write p buf size offset).Proper d) :
    Safe (aofsWrite p buf size offset) d fun _ d' => NamedApart d' := by
  obtain ⟨hroom, hon, hnew⟩ := hok
  cases hf : d.lookup p with
  | some h =>
    exact safe_aofsWriteFile_found hn.toLinked hf (hn.usual p h (lookup_eq_some.mp hf).1).2 hs ho
      rfl (fun hpos => ⟨hon h hf hpos, hroom.1 h hf hpos⟩)
      fun d' new hw _ => hn.rewrites_found hf hw.rewrites
  | none =>
    obtain ⟨hfree, hfit⟩ := hroom.2 hf
    refine safe_aofsWriteFile_new hn.toLinked hf (hnew hf).2 hs ho hfree hfit
      fun d' i b new hi hb hw => ?_
    have hr := hw.rewrites
    rw [chain_new hi.1 hb hn.toLinked] at hr
    exact hn.rewrites_missing hf (hnew hf)
      ((rewrites_new hi.1 hb).trans hr (List.subset_append_left _ _))

lemma safe_aofsTruncate {size fuel : ℕ} (hs : size ≤ OFF_MAX) (hfuel : BLOCK_NUM ≤ fuel)
    (hok : (Request.truncate p size).Proper d) :
    Safe (aofsTruncate fuel p size) d fun _ d' => NamedApart d' := by
  cases hf : d.lookup p with
  | none => exact safe_aofsTruncateFile_missing hf hn
  | some h =>
    refine safe_aofsTruncateFile hn.toLinked hf (hn.usual p h (lookup_eq_some.mp hf).1).2 hfuel hs
      (hok h hf) fun r d' ht => ?_
    cases ht with
    | kept hr => exact hn.rewrites_found hf hr
    | cut c hr => exact hn.rewrites_found hf hr
    | grown new hr => exact hn.rewrites_found hf hr
    | full new hr => exact hn.rewrites_found hf hr

lemma safe_aofsUnlink {fuel : ℕ} (hfuel : BLOCK_NUM ≤ fuel) :
    Safe (aofsUnlink fuel p) d fun r d' => NamedApart d' ∧
      (r = 0 → p ≠ .root ∧ d'.lookup p = none) := by
  refine safe_aofsDeleteFile hn.toLinked hfuel (fun h d' hf hw => ?_) fun _ =>
    ⟨hn, fun h0 => absurd h0 (by decide)⟩
  have hfile := (lookup_eq_some.mp hf).1
  have hr := hw.rewrites hn.toLinked hfile
  refine ⟨hn.rewrites_found hf hr, fun _ => ⟨(hn.usual p h hfile).1, ?_⟩⟩
  refine lookup_eq_none.mpr fun g hg => ?_
  by_cases hgh : g = h
  · subst hgh
    exact ((hw.alloc g).mp hg.1.1).1 (hn.mem_chain hfile.1)
  · exact hgh (hn.unique p g h ((hr.isFile_iff_of_ne hn.toLinked hgh).mp hg) hfile)

/-- **One request** keeps the names apart. -/
theorem namedApart_of_gives {req : Request} {r : ℤ} (hv : req.Valid) (hok : req.Proper d)
    (hd : req.Gives d r d') : NamedApart d' := by
  refine hd.of_safe (Q := fun _ d' => NamedApart d') fun fuel hfuel => ?_
  cases req with
  | create p => exact safe_aofsCreate hn hok
  | write p buf size offset => exact safe_aofsWrite hn hv.1 hv.2 hok
  | truncate p size => exact safe_aofsTruncate hn hv hfuel hok
  | unlink p => exact (safe_aofsUnlink hn hfuel).mono fun _ _ h => h.1

end step

/-! ### Runs -/

/-- No two heads have the same name, and where an unlink reports success, the path has no
attributes any more. -/
structure NamesUnique (d : Disk) : Prop where
  unique : ∀ p h g, d.IsFile p h → d.IsFile p g → h = g
  gone : ∀ p d', (Request.unlink p).Gives d 0 d' →
    Ends (aofsGetattr p) d' fun r _ => r.1 = -ENOENT

lemma Served.namedApart (hd : Served Request.Proper d) : NamedApart d := by
  induction hd with
  | image hi => exact hi.blank.namedApart
  | step _ hv hok hd ih => exact namedApart_of_gives ih hv hok hd

/-- **Names stay unique** in every run whose requests are proper. -/
theorem namesUnique_of_served (hd : Served Request.Proper d) : NamesUnique d := by
  have hn := hd.namedApart
  refine ⟨hn.unique, fun p d' hu => ?_⟩
  obtain ⟨-, hgone⟩ := hu.of_safe fun fuel hfuel => safe_aofsUnlink hn hfuel
  obtain ⟨hp, hno⟩ := hgone rfl
  exact (safe_aofsGetattr hp (fun h hh => by rw [hno] at hh; cases hh) fun _ => rfl).ends

/-! ### Two files of one name -/

lemma safe_aofsCreate_head (hp : p.length ≤ MAX_FILENAME)
    (ht : d.sb.totalblocks.toNat ≤ BLOCK_NUM) (hfree : 0 < d.freeCount) :
    Safe (aofsCreate p) d fun r d' =>
      r = 0 ∧ ∃ i b, d.IsFree i ∧ NewHead b p ∧ d' = (d.mark i).put i b := by
  refine safe_bind (safe_aofsCreateFile hp ht (fun i b hi hb => ?_) fun h0 => by omega)
  rw [if_pos (not_lt.mp (addr_nonneg i))]
  exact safe_pure ⟨rfl, i, b, hi.1, hb, rfl⟩

/-- Where two files have the name, an unlink reports success and leaves one of them. -/
lemma unlink_leaves (hl : d.Linked) (hh : d.IsFile p h) (hg : d.IsFile p g) (hne : h ≠ g) :
    ∃ d', (Request.unlink p).Gives d 0 d' ∧ ∃ k, d'.lookup p = some k := by
  obtain ⟨k, hk⟩ := exists_lookup hh
  -- the one that the lookup does not find
  obtain ⟨j, hj, hjk⟩ : ∃ j, d.IsFile p j ∧ j ≠ k := by
    by_cases hhk : h = k
    · exact ⟨g, hg, fun hgk => hne (hhk.trans hgk.symm)⟩
    · exact ⟨h, hh, hhk⟩
  have hdel : Safe ((Request.unlink p).code BLOCK_NUM) d fun r d' =>
      r = 0 ∧ d'.IsFile p j := by
    refine safe_aofsDeleteFile hl le_rfl (fun i d' hi hw => ?_) fun hno => by
      rw [hk] at hno; cases hno
    obtain rfl : k = i := Option.some.inj (hk.symm.trans hi)
    have hr := hw.rewrites hl (lookup_eq_some.mp hk).1
    exact ⟨rfl, (hr.isFile_iff_of_ne hl hjk).mpr hj⟩
  obtain ⟨r, d', hd, rfl, hleft⟩ := Request.exists_gives hdel.ends
  exact ⟨d', hd, exists_lookup hleft⟩

lemma createA_valid : (Request.create slashA).Valid := trivial

/-- The first request of a run creates `/a`. -/
lemma exists_created : ∃ d₀ d₁ h, Image d₀ ∧ (Request.create slashA).Gives d₀ 0 d₁ ∧
    OnlyFile d₁ slashA h ∧ 0 < d₁.freeCount := by
  obtain ⟨d₀, h0⟩ := exists_image
  have hfree : d₀.freeCount = BLOCK_NUM := h0.blank.freeCount
  have hc : Safe ((Request.create slashA).code 0) d₀ _ :=
    safe_aofsCreate_head (by decide) h0.blank.total.le (by rw [hfree]; decide)
  obtain ⟨_, d₁, hg, rfl, i, b, hi, hb, rfl⟩ := Request.exists_gives hc.ends
  refine ⟨d₀, _, i, h0, hg, h0.blank.onlyFile hb, ?_⟩
  have hcount := freeCount_mark (b := b) hi
  rw [hfree] at hcount
  simp only [BLOCK_NUM] at hcount
  omega

/-- A run of one proper request. -/
theorem namesUnique_created : ∃ d h, d.IsFile slashA h ∧ NamesUnique d := by
  obtain ⟨d₀, d₁, h, h0, h1, ho, -⟩ := exists_created
  have hok : (Request.create slashA).Proper d₀ :=
    Or.inr ⟨h0.blank.lookup slashA, by decide, by decide⟩
  exact ⟨d₁, h, ho.file, namesUnique_of_served ((Served.image h0).step createA_valid hok h1)⟩

/-- `/a` is created twice. Then an unlink reports success, and `/a` has attributes. -/
theorem not_namesUnique : ∃ d₀ d₁ d₂ d₃, Image d₀ ∧ (Request.create slashA).Gives d₀ 0 d₁ ∧
    (Request.create slashA).Gives d₁ 0 d₂ ∧ Served (fun _ _ => True) d₂ ∧
    (∃ h g, h ≠ g ∧ d₂.IsFile slashA h ∧ d₂.IsFile slashA g) ∧
    (Request.unlink slashA).Gives d₂ 0 d₃ ∧ (Ends (aofsGetattr slashA) d₃ fun r _ => r.1 = 0) ∧
    ¬ NamesUnique d₂ := by
  obtain ⟨d₀, d₁, h, h0, h1, ho, hfree⟩ := exists_created
  have hc : Safe ((Request.create slashA).code 0) d₁ _ :=
    safe_aofsCreate_head (by decide) ho.total.le hfree
  obtain ⟨_, d₂, h2, rfl, i, b, hi, hb, rfl⟩ := Request.exists_gives hc.ends
  have hl := (rewrites_new hi hb).linked ho.linked
  have hhi : h ≠ i := fun hhi => hi.1 (hhi ▸ ho.file.1.1)
  have hfile : ((d₁.mark i).put i b).IsFile slashA h :=
    ((rewrites_new hi hb).isFile_iff_of_ne ho.linked hhi).mpr ho.file
  obtain ⟨d₃, h3, hleft⟩ := unlink_leaves hl hfile (isFile_new hb) hhi
  have hstat := (getattr_succeeds_iff (show slashA ≠ .root by decide)).mpr hleft
  refine ⟨d₀, d₁, _, d₃, h0, h1, h2, ?_, ⟨h, i, hhi, hfile, isFile_new hb⟩, h3, hstat,
    fun hu => hhi (hu.unique slashA h i hfile (isFile_new hb))⟩
  exact ((Served.image h0).step createA_valid trivial h1).step createA_valid trivial h2

end Messaround.Aofs
