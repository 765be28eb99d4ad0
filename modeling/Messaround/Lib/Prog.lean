import Mathlib.Tactic.Common

/-!
Programs as trees of calls, and what holds of every run of them.

A program is a tree: a leaf gives the result, a node makes one call and goes on with the
answer. The meaning of the calls is a handler over a shared state `S`, which the
judgements speak about, and a local state `L`, which they quantify over: it holds what a
run may find there and no judgement depends on (the clock, uninitialised memory, the
position of a descriptor).
-/

namespace Messaround

/-- A program with calls `C`, where the call `c` is answered by an `Ans c`. -/
inductive Prog {C : Type} (Ans : C → Type) (α : Type) : Type
  | ret (a : α)
  | call (c : C) (k : Ans c → Prog Ans α)
  /-- No result: a loop's budget is used up, or C leaves the behaviour undefined. -/
  | stuck

namespace Prog

variable {C : Type} {Ans : C → Type} {α β S L : Type}

def bind : Prog Ans α → (α → Prog Ans β) → Prog Ans β
  | .ret a, f => f a
  | .call c k, f => .call c fun x => (k x).bind f
  | .stuck, _ => .stuck

instance : Monad (Prog Ans) where
  pure := .ret
  bind := bind

/-- The program that makes one call. -/
def perform (c : C) : Prog Ans (Ans c) := .call c .ret

@[simp] lemma pure_eq (a : α) : (Pure.pure a : Prog Ans α) = .ret a := rfl
@[simp] lemma ret_bind (a : α) (f : α → Prog Ans β) : (Prog.ret a : Prog Ans α) >>= f = f a := rfl
@[simp] lemma call_bind (c : C) (k : Ans c → Prog Ans α) (f : α → Prog Ans β) :
    Prog.call c k >>= f = .call c fun x => k x >>= f := rfl

lemma bind_assoc {γ : Type} (p : Prog Ans α) (f : α → Prog Ans β) (g : β → Prog Ans γ) :
    p >>= f >>= g = p >>= fun a => f a >>= g := by
  induction p with
  | ret a => rfl
  | call c k ih => exact congrArg (Prog.call c) (funext fun x => ih x)
  | stuck => rfl

lemma bind_ret (p : Prog Ans α) : p >>= Prog.ret = p := by
  induction p with
  | ret a => rfl
  | call c k ih => exact congrArg (Prog.call c) (funext fun x => ih x)
  | stuck => rfl

variable (h : (c : C) → S → L → Ans c × S × L)

/-- The run of a program: its result and the states it leaves, if it has a result. -/
def run : Prog Ans α → S → L → Option (α × S × L)
  | .ret a, s, l => some (a, s, l)
  | .call c k, s, l => (k (h c s l).1).run (h c s l).2.1 (h c s l).2.2
  | .stuck, _, _ => none

/-- The calls of a run, each with the shared state it was made in. -/
def calls : Prog Ans α → S → L → List (C × S)
  | .ret _, _, _ => []
  | .call c k, s, l => (c, s) :: (k (h c s l).1).calls (h c s l).2.1 (h c s l).2.2
  | .stuck, _, _ => []

lemma run_bind (p : Prog Ans α) (f : α → Prog Ans β) (s : S) (l : L) :
    (p >>= f).run h s l = (p.run h s l).bind fun r => (f r.1).run h r.2.1 r.2.2 := by
  induction p generalizing s l with
  | ret a => rfl
  | call c k ih => simp only [call_bind, run]; exact ih _ _ _
  | stuck => rfl

lemma calls_bind (p : Prog Ans α) (f : α → Prog Ans β) (s : S) (l : L) :
    (p >>= f).calls h s l = p.calls h s l ++
      ((p.run h s l).elim [] fun r => (f r.1).calls h r.2.1 r.2.2) := by
  induction p generalizing s l with
  | ret a => rfl
  | call c k ih => simp only [call_bind, calls, run, List.cons_append]; rw [ih]
  | stuck => rfl

/-- Every run of `p` from `s` makes only calls allowed by `G`, has a result, and leaves a
result and a shared state that satisfy `Q`. -/
def Holds (G : C → S → Prop) (p : Prog Ans α) (Q : α → S → Prop) (s : S) : Prop :=
  ∀ l, (∀ x ∈ p.calls h s l, G x.1 x.2) ∧ ∃ a s' l', p.run h s l = some (a, s', l') ∧ Q a s'

/-- Every run of `p` from `s` has a result, and leaves a result and a shared state that
satisfy `Q`. -/
def Ends (p : Prog Ans α) (s : S) (Q : α → S → Prop) : Prop :=
  ∀ l, ∃ a s' l', p.run h s l = some (a, s', l') ∧ Q a s'

variable {h} {G : C → S → Prop} {p : Prog Ans α} {f : α → Prog Ans β} {s : S}

lemma Holds.ends {Q : α → S → Prop} (hp : p.Holds h G Q s) : p.Ends h s Q := fun l => (hp l).2

lemma Ends.mono {Q Q' : α → S → Prop} (hp : p.Ends h s Q) (hQ : ∀ a s', Q a s' → Q' a s') :
    p.Ends h s Q' := by
  intro l
  obtain ⟨a, s', l', hr, hq⟩ := hp l
  exact ⟨a, s', l', hr, hQ a s' hq⟩

/-- Two things that hold at the end of every run hold together at the end of some run. -/
lemma Ends.meet [Inhabited L] {Q Q' : α → S → Prop} (hp : p.Ends h s Q) (hp' : p.Ends h s Q') :
    ∃ a s', Q a s' ∧ Q' a s' := by
  obtain ⟨a, s', l', hr, hq⟩ := hp default
  obtain ⟨a', s'', l'', hr', hq'⟩ := hp' default
  obtain ⟨rfl, rfl, -⟩ : a = a' ∧ s' = s'' ∧ l' = l'' := by simpa [hr] using hr'
  exact ⟨a, s', hq, hq'⟩

lemma Ends.bind {Q : β → S → Prop}
    (hp : p.Ends h s fun a s' => (f a).Ends h s' Q) : (p >>= f).Ends h s Q := by
  intro l
  obtain ⟨a, s', l', hr, hq⟩ := hp l
  obtain ⟨b, s'', l'', hr', hq'⟩ := hq l'
  exact ⟨b, s'', l'', by rw [run_bind, hr]; exact hr', hq'⟩

lemma ends_perform {c : C} {Q : Ans c → S → Prop} (hQ : ∀ l, Q (h c s l).1 (h c s l).2.1) :
    (perform c : Prog Ans (Ans c)).Ends h s Q :=
  fun l => ⟨_, _, _, rfl, hQ l⟩

lemma Holds.mono {Q Q' : α → S → Prop} (hp : p.Holds h G Q s) (hQ : ∀ a s', Q a s' → Q' a s') :
    p.Holds h G Q' s := by
  intro l
  obtain ⟨hc, a, s', l', hr, hq⟩ := hp l
  exact ⟨hc, a, s', l', hr, hQ a s' hq⟩

lemma holds_ret {a : α} {Q : α → S → Prop} (hq : Q a s) :
    (Prog.ret a : Prog Ans α).Holds h G Q s :=
  fun l => ⟨by simp [calls], a, s, l, rfl, hq⟩

lemma holds_call {c : C} {k : Ans c → Prog Ans α} {Q : α → S → Prop} (hg : G c s)
    (hk : ∀ l, (k (h c s l).1).Holds h G Q (h c s l).2.1) :
    (Prog.call c k).Holds h G Q s := by
  intro l
  obtain ⟨hc, a, s', l', hr, hq⟩ := hk l (h c s l).2.2
  refine ⟨?_, a, s', l', hr, hq⟩
  intro x hx
  rcases List.mem_cons.mp hx with rfl | hx'
  · exact hg
  · exact hc x hx'

lemma holds_perform {c : C} {Q : Ans c → S → Prop} (hg : G c s)
    (hQ : ∀ l, Q (h c s l).1 (h c s l).2.1) : (perform c : Prog Ans (Ans c)).Holds h G Q s :=
  holds_call hg fun l => holds_ret (hQ l)

/-- **Sequencing**: what holds after `p` is where the rest starts. -/
theorem holds_bind {Q : β → S → Prop}
    (hp : p.Holds h G (fun a s' => (f a).Holds h G Q s') s) : (p >>= f).Holds h G Q s := by
  intro l
  obtain ⟨hc, a, s', l', hr, hq⟩ := hp l
  obtain ⟨hc', b, s'', l'', hr', hq'⟩ := hq l'
  refine ⟨?_, b, s'', l'', by rw [run_bind, hr]; exact hr', hq'⟩
  intro x hx
  rw [calls_bind, hr, Option.elim_some, List.mem_append] at hx
  exact hx.elim (hc x) (hc' x)

/-! ### Runs without a result -/

/-- Every run of `p` from `s` makes only calls allowed by `G`, and leaves a result and a
shared state that satisfy `Q` if it has a result. -/
def Always (h : (c : C) → S → L → Ans c × S × L) (G : C → S → Prop) (p : Prog Ans α)
    (Q : α → S → Prop) (s : S) : Prop :=
  ∀ l, (∀ x ∈ p.calls h s l, G x.1 x.2) ∧ ∀ a s' l', p.run h s l = some (a, s', l') → Q a s'

lemma Holds.always {Q : α → S → Prop} (hp : p.Holds h G Q s) : p.Always h G Q s := by
  intro l
  obtain ⟨hc, a, s', l', hr, hq⟩ := hp l
  refine ⟨hc, fun a2 s2 l2 h2 => ?_⟩
  obtain ⟨rfl, rfl, -⟩ : a = a2 ∧ s' = s2 ∧ l' = l2 := by simpa [hr] using h2
  exact hq

/-- Runs that end, end with what holds of those that do. -/
lemma Ends.of_always {Q Q' : α → S → Prop} (hp : p.Ends h s Q) (ha : p.Always h G Q' s) :
    p.Ends h s Q' := by
  intro l
  obtain ⟨a, s', l', hr, -⟩ := hp l
  exact ⟨a, s', l', hr, (ha l).2 a s' l' hr⟩

lemma always_bind {Q : β → S → Prop}
    (hp : p.Always h G (fun a s' => (f a).Always h G Q s') s) : (p >>= f).Always h G Q s := by
  intro l
  obtain ⟨hc, hq⟩ := hp l
  rw [calls_bind, run_bind]
  cases hr : p.run h s l with
  | none =>
    refine ⟨fun x hx => hc x (by simpa using hx), fun b s2 l2 h2 => by simp at h2⟩
  | some r =>
    obtain ⟨a, s', l'⟩ := r
    obtain ⟨hc', hq'⟩ := hq a s' l' hr l'
    refine ⟨fun x hx => ?_, hq'⟩
    rw [Option.elim_some, List.mem_append] at hx
    exact hx.elim (hc x) (hc' x)

lemma Holds.always_bind {Q : β → S → Prop}
    (hp : p.Holds h G (fun a s' => (f a).Always h G Q s') s) : (p >>= f).Always h G Q s :=
  Prog.always_bind hp.always

/-- If `F` holds, every run of `p` from `s` has a result and leaves one that satisfies `Q`;
otherwise no run does. -/
def EndsIff (h : (c : C) → S → L → Ans c × S × L) (p : Prog Ans α) (s : S) (Q : α → S → Prop)
    (F : Prop) : Prop :=
  (F → p.Ends h s Q) ∧ (¬ F → ∀ l a s' l', p.run h s l = some (a, s', l') → ¬ Q a s')

lemma EndsIff.iff [Inhabited L] {Q : α → S → Prop} {F : Prop} (hp : p.EndsIff h s Q F) :
    p.Ends h s Q ↔ F := by
  refine ⟨fun he => ?_, hp.1⟩
  by_contra hF
  obtain ⟨a, s', l', hr, hq⟩ := he default
  exact hp.2 hF _ a s' l' hr hq

lemma endsIff_stuck {Q : α → S → Prop} {F : Prop} (hF : ¬ F) :
    (Prog.stuck : Prog Ans α).EndsIff h s Q F :=
  ⟨fun h => absurd h hF, fun _ l a s' l' hr => by simp [run] at hr⟩

/-- No run has a result. -/
lemma EndsIff.run_eq_none {F : Prop} (hp : p.EndsIff h s (fun _ _ => True) F) (hF : ¬ F) (l : L) :
    p.run h s l = none := by
  cases hr : p.run h s l with
  | none => rfl
  | some r => exact absurd trivial (hp.2 hF l r.1 r.2.1 r.2.2 hr)

lemma Holds.endsIff {Q : α → S → Prop} {F : Prop} (hp : p.Holds h G (fun a s' => Q a s' ↔ F) s) :
    p.EndsIff h s Q F := by
  refine ⟨fun hF => hp.ends.mono fun a s' hq => hq.mpr hF, fun hF l a s' l' hr hq => hF ?_⟩
  obtain ⟨-, a', s'', l'', hr', hq'⟩ := hp l
  obtain ⟨rfl, rfl, -⟩ : a = a' ∧ s' = s'' ∧ l' = l'' := by simpa [hr] using hr'
  exact hq'.mp hq

lemma Holds.endsIff_bind {Q : β → S → Prop} {F : Prop}
    (hp : p.Holds h G (fun a s' => (f a).EndsIff h s' Q F) s) : (p >>= f).EndsIff h s Q F := by
  refine ⟨fun hF => Ends.bind (hp.ends.mono fun a s' hq => hq.1 hF), fun hF l b s2 l2 hr => ?_⟩
  obtain ⟨-, a, s', l', hr', hq⟩ := hp l
  rw [run_bind, hr'] at hr
  exact hq.2 hF _ b s2 l2 hr

/-- What every call keeps of the local state holds at the end of a run. -/
lemma run_keeps {I : L → Prop} (hI : ∀ c s l, I l → I (h c s l).2.2) {l l' : L} {a : α} {s' : S}
    (hr : p.run h s l = some (a, s', l')) (hl : I l) : I l' := by
  induction p generalizing s l with
  | ret b =>
    obtain ⟨-, -, rfl⟩ : b = a ∧ s = s' ∧ l = l' := by simpa [run] using hr
    exact hl
  | call c k ih => exact ih _ hr (hI c s l hl)
  | stuck => simp [run] at hr

/-- No run of `p` from `s` has a result that starts in a local state with `I`. -/
def Blocked (h : (c : C) → S → L → Ans c × S × L) (I : L → Prop) (p : Prog Ans α) (s : S) : Prop :=
  ∀ l, I l → p.run h s l = none

lemma blocked_stuck {I : L → Prop} : (Prog.stuck : Prog Ans α).Blocked h I s := fun _ _ => rfl

lemma Blocked.bind {I : L → Prop} (hp : p.Blocked h I s) : (p >>= f).Blocked h I s := by
  intro l hl
  rw [run_bind, hp l hl]
  rfl

/-- A program is blocked where all that it leads to is. -/
lemma Ends.blocked_bind {I : L → Prop} (hI : ∀ c s l, I l → I (h c s l).2.2)
    (hp : p.Ends h s fun a s' => (f a).Blocked h I s') : (p >>= f).Blocked h I s := by
  intro l hl
  obtain ⟨a, s', l', hr, hq⟩ := hp l
  rw [run_bind, hr]
  exact hq l' (run_keeps hI hr hl)

/-! ### The calls of a tree -/

/-- All calls in the tree satisfy `P`. -/
def Uses (P : C → Prop) : Prog Ans α → Prop
  | .ret _ => True
  | .call c k => P c ∧ ∀ x, (k x).Uses P
  | .stuck => True

lemma uses_bind {P : C → Prop} (hp : p.Uses P) (hf : ∀ a, (f a).Uses P) : (p >>= f).Uses P := by
  induction p with
  | ret a => exact hf a
  | call c k ih => exact ⟨hp.1, fun x => ih x (hp.2 x)⟩
  | stuck => trivial

/-- Calls that leave the shared state as it is leave it so together. -/
lemma Uses.always {P : C → Prop} {Q : α → S → Prop} (hp : p.Uses P)
    (hkeep : ∀ c s l, P c → (h c s l).2.1 = s) (hG : ∀ c s, P c → G c s) (hQ : ∀ a, Q a s) :
    p.Always h G Q s := by
  induction p with
  | ret a =>
    intro l
    refine ⟨by simp [calls], fun a' s' l' hr => ?_⟩
    obtain ⟨rfl, rfl, -⟩ : a = a' ∧ s = s' ∧ l = l' := by simpa [run] using hr
    exact hQ a
  | call c k ih =>
    intro l
    have hs := hkeep c s l hp.1
    obtain ⟨h1, h2⟩ := ih (h c s l).1 (hp.2 _) (h c s l).2.2
    refine ⟨?_, ?_⟩
    · intro x hx
      rw [calls, hs] at hx
      rcases List.mem_cons.mp hx with rfl | hx'
      · exact hG c s hp.1
      · exact h1 x hx'
    · intro a s' l' hr
      rw [run, hs] at hr
      exact h2 a s' l' hr
  | stuck => exact fun l => ⟨by simp [calls], fun a s' l' hr => by simp [run] at hr⟩

/-- What the allowed calls preserve holds at every call of a run. -/
lemma calls_invariant {I : S → Prop} (hI : ∀ c s l, G c s → I s → I (h c s l).2.1) (h0 : I s)
    {l : L} (hG : ∀ x ∈ p.calls h s l, G x.1 x.2) : ∀ x ∈ p.calls h s l, I x.2 := by
  induction p generalizing s l with
  | ret a => simp [calls]
  | call c k ih =>
    intro x hx
    rw [calls, List.mem_cons] at hx
    rcases hx with rfl | hx'
    · exact h0
    · exact ih _ (hI c s l (hG (c, s) (by simp [calls])) h0)
        (fun y hy => hG y (by rw [calls]; exact List.mem_cons_of_mem _ hy)) x hx'
  | stuck => simp [calls]

/-- No branch of the tree is stuck, and every result satisfies `P`. -/
inductive Yields (P : α → Prop) : Prog Ans α → Prop
  | ret {a : α} (ha : P a) : Yields P (.ret a)
  | call (c : C) {k : Ans c → Prog Ans α} (hk : ∀ x, Yields P (k x)) : Yields P (.call c k)

lemma yields_bind {P : α → Prop} {P' : β → Prop} (hp : p.Yields P)
    (hf : ∀ a, P a → (f a).Yields P') : (p >>= f).Yields P' := by
  induction hp with
  | ret ha => exact hf _ ha
  | call c _ ih => exact .call c ih

/-- No branch of the tree is stuck. -/
abbrev Total (p : Prog Ans α) : Prop := p.Yields fun _ => True

lemma total_pure (a : α) : (Pure.pure a : Prog Ans α).Total := .ret trivial

lemma total_perform (c : C) : (perform c : Prog Ans (Ans c)).Total := .call c fun _ => .ret trivial

lemma total_bind (hp : p.Total) (hf : ∀ a, (f a).Total) : (p >>= f).Total :=
  yields_bind hp fun a _ => hf a

lemma Yields.ends {P : α → Prop} {Q : α → S → Prop} (hp : p.Yields P)
    (hQ : ∀ a s', P a → Q a s') : p.Ends h s Q := by
  induction hp generalizing s with
  | ret ha => exact fun l => ⟨_, s, l, rfl, hQ _ s ha⟩
  | call c _ ih => exact fun l => ih (h c s l).1 (h c s l).2.2

lemma Total.ends {Q : α → S → Prop} (hp : p.Total) (hQ : ∀ a s', Q a s') : p.Ends h s Q :=
  Yields.ends hp fun a s' _ => hQ a s'

/-- Every run of `p` from `s` makes a call that satisfies `B`. -/
def Makes (h : (c : C) → S → L → Ans c × S × L) (B : C → S → Prop) (p : Prog Ans α) (s : S) :
    Prop :=
  ∀ l, ∃ x ∈ p.calls h s l, B x.1 x.2

lemma makes_perform {B : C → S → Prop} {c : C} (hb : B c s) :
    (perform c : Prog Ans (Ans c)).Makes h B s :=
  fun l => ⟨(c, s), by simp [perform, calls], hb⟩

lemma Makes.bind {B : C → S → Prop} (hp : p.Makes h B s) : (p >>= f).Makes h B s := by
  intro l
  obtain ⟨x, hx, hb⟩ := hp l
  exact ⟨x, by rw [calls_bind]; exact List.mem_append_left _ hx, hb⟩

lemma Holds.makes_bind {B : C → S → Prop}
    (hp : p.Holds h G (fun a s' => (f a).Makes h B s') s) : (p >>= f).Makes h B s := by
  intro l
  obtain ⟨-, a, s', l', hr, hq⟩ := hp l
  obtain ⟨x, hx, hb⟩ := hq l'
  refine ⟨x, ?_, hb⟩
  rw [calls_bind, hr, Option.elim_some]
  exact List.mem_append_right _ hx

/-! ### Two handlers -/

/-- **Simulation**: another handler that answers the calls of a run alike, and keeps its states
related to those of the run, gives the same result. -/
theorem run_simulates {S' L' : Type} {g : (c : C) → S' → L' → Ans c × S' × L'}
    {R : S → L → S' → L' → Prop}
    (hstep : ∀ c s l t m, G c s → R s l t m → (g c t m).1 = (h c s l).1 ∧
      R (h c s l).2.1 (h c s l).2.2 (g c t m).2.1 (g c t m).2.2)
    {l : L} (hG : ∀ x ∈ p.calls h s l, G x.1 x.2) {t : S'} {m : L'} (hR : R s l t m) :
    Option.Rel (fun r r' => r'.1 = r.1 ∧ R r.2.1 r.2.2 r'.2.1 r'.2.2)
      (p.run h s l) (p.run g t m) := by
  induction p generalizing s l t m with
  | ret a => exact .some ⟨rfl, hR⟩
  | call c k ih =>
    obtain ⟨hans, hR'⟩ := hstep c s l t m (hG (c, s) (by simp [calls])) hR
    rw [run, run, hans]
    exact ih _ (fun x hx => hG x (by rw [calls]; exact List.mem_cons_of_mem _ hx)) hR'
  | stuck => exact .none

/-! ### More budget -/

/-- `q` does what `p` does, and may go on where `p` is stuck. -/
inductive Le : Prog Ans α → Prog Ans α → Prop
  | stuck (q : Prog Ans α) : Le .stuck q
  | ret (a : α) : Le (.ret a) (.ret a)
  | call (c : C) {k k' : Ans c → Prog Ans α} (hk : ∀ x, Le (k x) (k' x)) :
      Le (.call c k) (.call c k')

lemma Le.refl (p : Prog Ans α) : Le p p := by
  induction p with
  | ret a => exact .ret a
  | call c k ih => exact .call c ih
  | stuck => exact .stuck _

lemma le_bind {q : Prog Ans α} {g : α → Prog Ans β} (hp : Le p q) (hf : ∀ a, Le (f a) (g a)) :
    Le (p >>= f) (q >>= g) := by
  induction hp with
  | stuck q => exact .stuck _
  | ret a => exact hf a
  | call c _ ih => exact .call c ih

lemma Le.run {q : Prog Ans α} (hp : Le p q) {l : L} {r : α × S × L} (hr : p.run h s l = some r) :
    q.run h s l = some r := by
  induction hp generalizing s l with
  | stuck q => simp [Prog.run] at hr
  | ret a => exact hr
  | call c _ ih => exact ih _ hr

lemma Le.calls {q : Prog Ans α} (hp : Le p q) (s : S) (l : L) :
    p.calls h s l <+: q.calls h s l := by
  induction hp generalizing s l with
  | stuck q => exact List.nil_prefix
  | ret a => exact List.prefix_refl _
  | call c _ ih => exact List.cons_prefix_cons.mpr ⟨rfl, ih _ _ _⟩

end Prog

end Messaround
