import Mathlib.Tactic.Common

/-!
Sequences of calls on a state, and what it means that they are answered as on another one.
-/

namespace Messaround.Calls

variable {C A S T : Type}

/-- The answers to a sequence of calls and the state it leaves. A call may be undefined. -/
def run (step : C → S → Option (A × S)) : List C → S → Option (List A × S)
  | [], s => some ([], s)
  | c :: cs, s => do
    let (a, s) ← step c s
    let (as, s) ← run step cs s
    return (a :: as, s)

/-- The answers to a sequence of calls that are always defined. -/
def runSpec (spec : C → T → A × T) : List C → T → List A × T
  | [], t => ([], t)
  | c :: cs, t =>
    let (a, t) := spec c t
    let (as, t) := runSpec spec cs t
    (a :: as, t)

variable {step : C → S → Option (A × S)} {spec : C → T → A × T} {G : C → Prop}
  {R : S → T → Prop}

/-- **Refinement of runs**: where every call is answered as specified and keeps the states
related, so is every sequence. -/
theorem run_refines (hstep : ∀ c s t, G c → R s t →
      ∃ s', step c s = some ((spec c t).1, s') ∧ R s' (spec c t).2)
    {cs : List C} (hG : ∀ c ∈ cs, G c) {s : S} {t : T} (hR : R s t) :
    ∃ s', run step cs s = some ((runSpec spec cs t).1, s') ∧ R s' (runSpec spec cs t).2 := by
  induction cs generalizing s t with
  | nil => exact ⟨s, rfl, hR⟩
  | cons c cs ih =>
    obtain ⟨s₁, h₁, hR₁⟩ := hstep c s t (hG c List.mem_cons_self) hR
    obtain ⟨s₂, h₂, hR₂⟩ := ih (fun c' hc' => hG c' (List.mem_cons_of_mem _ hc')) hR₁
    refine ⟨s₂, ?_, hR₂⟩
    rw [run, h₁]
    change (run step cs s₁).bind _ = _
    rw [h₂]
    rfl

/-! ### Calls with several answers -/

variable {B : Type} {may : C → S → A → S → Prop} {serve : C → T → Option (B × T)}
  {shows : A → B → Prop}

/-- The answers that a sequence of calls may get and the state that it may leave. -/
inductive Trace (may : C → S → A → S → Prop) : List C → S → List A → S → Prop
  | nil (s : S) : Trace may [] s [] s
  | cons {c : C} {cs : List C} {s s' s'' : S} {a : A} {as : List A} (h : may c s a s')
      (hs : Trace may cs s' as s'') : Trace may (c :: cs) s (a :: as) s''

lemma run_cons_eq_some {c : C} {cs : List C} {t t' : T} {bs : List B}
    (h : run serve (c :: cs) t = some (bs, t')) : ∃ b t₁ bs', serve c t = some (b, t₁) ∧
      run serve cs t₁ = some (bs', t') ∧ bs = b :: bs' := by
  rw [run] at h
  obtain ⟨⟨b, t₁⟩, h₁, h⟩ := Option.bind_eq_some_iff.mp h
  obtain ⟨⟨bs', t₂⟩, h₂, h⟩ := Option.bind_eq_some_iff.mp h
  cases h
  exact ⟨b, t₁, bs', h₁, h₂, rfl⟩

/-- **Refinement where a call has several answers**: each of them shows what the specification
answers, whenever it does, and there is one. -/
theorem trace_refines (hstep : ∀ c s t b t', G c → R s t → serve c t = some (b, t') →
      (∃ a s', may c s a s') ∧ ∀ a s', may c s a s' → shows a b ∧ R s' t')
    {cs : List C} (hG : ∀ c ∈ cs, G c) {s : S} {t t' : T} {bs : List B} (hR : R s t)
    (h : run serve cs t = some (bs, t')) :
    (∃ as s', Trace may cs s as s') ∧
      ∀ as s', Trace may cs s as s' → List.Forall₂ shows as bs ∧ R s' t' := by
  induction cs generalizing s t bs with
  | nil =>
    cases h
    refine ⟨⟨[], s, .nil s⟩, fun as s' ht => ?_⟩
    cases ht
    exact ⟨.nil, hR⟩
  | cons c cs ih =>
    obtain ⟨b, t₁, bs', h₁, h₂, rfl⟩ := run_cons_eq_some h
    have hG' := fun c' hc' => hG c' (List.mem_cons_of_mem _ hc')
    obtain ⟨⟨a, s₁, ha⟩, hall⟩ := hstep c s t b t₁ (hG c List.mem_cons_self) hR h₁
    obtain ⟨⟨as, s₂, has⟩, -⟩ := ih hG' (hall a s₁ ha).2 h₂
    refine ⟨⟨a :: as, s₂, .cons ha has⟩, fun as s' ht => ?_⟩
    cases ht with
    | cons hc hs =>
      obtain ⟨hshow, hR'⟩ := hall _ _ hc
      obtain ⟨hrest, hend⟩ := (ih hG' hR' h₂).2 _ _ hs
      exact ⟨.cons hshow hrest, hend⟩

end Messaround.Calls
