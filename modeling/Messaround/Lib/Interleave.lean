import Messaround.Lib.Prog

/-!
Two programs on one shared state.

A step is one call. A schedule says which of the programs makes the next one; it passes over
a program that has ended, and behind it the first program ends before the second. Each has a
local state of its own.

A program is specified together with what it lets the other one do: it relies on `R` for
every change from outside, and guarantees `G` for its own.
-/

namespace Messaround.Prog

variable {C : Type} {Ans : C → Type} {α β S L : Type} (h : (c : C) → S → L → Ans c × S × L)

/-- One call, if the program has not ended. -/
def step : Prog Ans α → S → L → Prog Ans α × S × L
  | .call c k, s, l => (k (h c s l).1, (h c s l).2.1, (h c s l).2.2)
  | p, s, l => (p, s, l)

/-- The results of both programs and the shared state they leave; in the schedule, `true` is
a step of the first. -/
def par : (sched : List Bool) → Prog Ans α → Prog Ans β → S → L → L → Option (α × β × S)
  | [], p, q, s, l, m =>
    (p.run h s l).bind fun r => (q.run h r.2.1 m).map fun r' => (r.1, r'.1, r'.2.1)
  | true :: sched, p, q, s, l, m =>
    par sched (p.step h s l).1 q (p.step h s l).2.1 (p.step h s l).2.2 m
  | false :: sched, p, q, s, l, m =>
    par sched p (q.step h s m).1 (q.step h s m).2.1 l (q.step h s m).2.2

/-- Under the schedule, both programs end, with results and a state that satisfy `Q`. -/
def Together (sched : List Bool) (p : Prog Ans α) (q : Prog Ans β) (s : S)
    (Q : α → β → S → Prop) : Prop :=
  ∀ l m, ∃ a b s', par h sched p q s l m = some (a, b, s') ∧ Q a b s'

variable {h} {sched : List Bool} {p : Prog Ans α} {q : Prog Ans β} {f : α → Prog Ans β} {s : S}

lemma step_perform_bind (c : C) (f : Ans c → Prog Ans β) (s : S) (l : L) :
    (perform c >>= f).step h s l = (f (h c s l).1, (h c s l).2.1, (h c s l).2.2) := rfl

lemma run_step (p : Prog Ans α) (s : S) (l : L) :
    (p.step h s l).1.run h (p.step h s l).2.1 (p.step h s l).2.2 = p.run h s l := by
  cases p <;> rfl

/-- What the end of a schedule leaves out is done by the first program first. -/
lemma par_append_true {l m : L} : par h (sched ++ [true]) p q s l m = par h sched p q s l m := by
  induction sched generalizing p q s l m with
  | nil =>
    rw [List.nil_append, par, par, par, run_step]
  | cons t sched ih =>
    cases t
    · exact ih
    · exact ih

lemma Together.mono {Q Q' : α → β → S → Prop} (ht : Together h sched p q s Q)
    (hQ : ∀ a b s', Q a b s' → Q' a b s') : Together h sched p q s Q' := by
  intro l m
  obtain ⟨a, b, s', hr, hq⟩ := ht l m
  exact ⟨a, b, s', hr, hQ a b s' hq⟩

/-- Two things that hold at the end of every run do not exclude each other. -/
lemma Together.meet [Inhabited L] {Q Q' : α → β → S → Prop} {F : Prop}
    (ht : Together h sched p q s Q) (ht' : Together h sched p q s Q')
    (hF : ∀ a b s', Q a b s' → Q' a b s' → F) : F := by
  obtain ⟨a, b, s', hr, hq⟩ := ht default default
  obtain ⟨a', b', s'', hr', hq'⟩ := ht' default default
  obtain ⟨rfl, rfl, rfl⟩ : a = a' ∧ b = b' ∧ s' = s'' := by simpa [hr] using hr'
  exact hF a b s' hq hq'

/-! ### Rely and guarantee -/

/-- Whatever the environment does within `R`, every call of `p` is a change within `G`, and
`p` ends with `Q`, which lasts under `R`. -/
def Under (h : (c : C) → S → L → Ans c × S × L) (R G : S → S → Prop) :
    Prog Ans α → (α → S → Prop) → S → Prop
  | .ret a, Q, s => ∀ s', R s s' → Q a s'
  | .call c k, Q, s => ∀ s' l, R s s' → G s' (h c s' l).2.1 ∧
      Under h R G (k (h c s' l).1) Q (h c s' l).2.1
  | .stuck, _, _ => False

variable {R G R' G' : S → S → Prop}

lemma under_bind {Q : β → S → Prop} (hr : ∀ s, R s s)
    (hp : p.Under h R G (fun a s' => (f a).Under h R G Q s') s) :
    (p >>= f).Under h R G Q s := by
  induction p generalizing s with
  | ret a => exact hp s (hr s)
  | call c k ih => exact fun s' l hs => ⟨(hp s' l hs).1, ih _ (hp s' l hs).2⟩
  | stuck => exact hp

lemma Under.mono {Q Q' : α → S → Prop} (hp : p.Under h R G Q s) (hQ : ∀ a s', Q a s' → Q' a s') :
    p.Under h R G Q' s := by
  induction p generalizing s with
  | ret a => exact fun s' hs => hQ a s' (hp s' hs)
  | call c k ih => exact fun s' l hs => ⟨(hp s' l hs).1, ih _ (hp s' l hs).2⟩
  | stuck => exact hp

lemma under_ret {a : α} {Q : α → S → Prop} (hQ : ∀ s', R s s' → Q a s') :
    (Prog.ret a : Prog Ans α).Under h R G Q s := hQ

lemma under_perform {c : C} {Q : Ans c → S → Prop}
    (hc : ∀ s' l, R s s' → G s' (h c s' l).2.1 ∧ ∀ s'', R (h c s' l).2.1 s'' → Q (h c s' l).1 s'') :
    (perform c : Prog Ans (Ans c)).Under h R G Q s := hc

/-- A program without stuck branches ends whatever the environment does. -/
lemma Yields.under {P : α → Prop} (hp : p.Yields P) :
    p.Under h (fun _ _ => True) (fun _ _ => True) (fun a _ => P a) s := by
  induction hp generalizing s with
  | ret ha => exact fun _ _ => ha
  | call c _ ih => exact fun s' l _ => ⟨trivial, ih _⟩

/-- The specification of `p` lasts while others run. -/
lemma Under.stable {Q : α → S → Prop} {s' : S} (ht : ∀ a b c, R a b → R b c → R a c)
    (hp : p.Under h R G Q s) (hs : R s s') : p.Under h R G Q s' := by
  cases p with
  | ret a => exact fun s'' hs' => hp s'' (ht _ _ _ hs hs')
  | call c k => exact fun s'' l hs' => hp s'' l (ht _ _ _ hs hs')
  | stuck => exact hp

lemma Under.step {Q : α → S → Prop} (hr : ∀ s, R s s) (hr' : ∀ s, R' s s)
    (hG : ∀ s s', G s s' → R' s s') (hp : p.Under h R G Q s) (l : L) :
    (p.step h s l).1.Under h R G Q (p.step h s l).2.1 ∧ R' s (p.step h s l).2.1 := by
  cases p with
  | ret a => exact ⟨hp, hr' s⟩
  | call c k => exact ⟨(hp s l (hr s)).2, hG _ _ (hp s l (hr s)).1⟩
  | stuck => exact hp.elim

lemma Under.run {Q : α → S → Prop} (hr : ∀ s, R s s) (hr' : ∀ s, R' s s)
    (ht' : ∀ a b c, R' a b → R' b c → R' a c) (hG : ∀ s s', G s s' → R' s s')
    (hp : p.Under h R G Q s) (l : L) : ∃ a s' l', p.run h s l = some (a, s', l') ∧ R' s s' ∧
      ∀ s'', R s' s'' → Q a s'' := by
  induction p generalizing s l with
  | ret a => exact ⟨a, s, l, rfl, hr' s, hp⟩
  | call c k ih =>
    obtain ⟨hg, hk⟩ := hp s l (hr s)
    obtain ⟨a, s', l', hrun, hs, hq⟩ := ih _ hk (h c s l).2.2
    exact ⟨a, s', l', hrun, ht' _ _ _ (hG _ _ hg) hs, hq⟩
  | stuck => exact hp.elim

/-- **Parallel composition**: when each guarantees what the other relies on, both end under
every schedule, with what each of them promises. -/
theorem together_of_under {Q : α → S → Prop} {Q' : β → S → Prop} (hr : ∀ s, R s s)
    (ht : ∀ a b c, R a b → R b c → R a c) (hr' : ∀ s, R' s s)
    (ht' : ∀ a b c, R' a b → R' b c → R' a c) (hG : ∀ s s', G s s' → R' s s')
    (hG' : ∀ s s', G' s s' → R s s') (hp : p.Under h R G Q s) (hq : q.Under h R' G' Q' s) :
    Together h sched p q s fun a b s' => Q a s' ∧ Q' b s' := by
  intro l m
  induction sched generalizing p q s l m with
  | nil =>
    obtain ⟨a, s', l', hrun, hs, hqa⟩ := hp.run hr hr' ht' hG l
    obtain ⟨b, s'', m', hrun', hs', hqb⟩ := (hq.stable ht' hs).run hr' hr ht hG' m
    exact ⟨a, b, s'', by rw [par, hrun, Option.bind_some, hrun']; rfl, hqa _ hs', hqb _ (hr' _)⟩
  | cons t sched ih =>
    cases t
    · obtain ⟨hq', hs⟩ := hq.step hr' hr hG' m
      exact ih (hp.stable ht hs) hq' _ _
    · obtain ⟨hp', hs⟩ := hp.step hr hr' hG l
      exact ih hp' (hq.stable ht' hs) _ _

/-- Results that do not depend on the shared state do not depend on the schedule. -/
lemma together_of_yields {P : α → Prop} {P' : β → Prop} (hp : p.Yields P) (hq : q.Yields P') :
    Together h sched p q s fun a b _ => P a ∧ P' b :=
  together_of_under (fun _ => trivial) (fun _ _ _ _ _ => trivial) (fun _ => trivial)
    (fun _ _ _ _ _ => trivial) (fun _ _ _ => trivial) (fun _ _ _ => trivial) hp.under hq.under

end Messaround.Prog
