import Messaround.Shell.Forks

/-!
The argument vector of a command with redirections.

The vector is cut at the first operator, as long as it has not been cut before. The branch of
`<` cuts it in any case, so that it ends up at the last `<` if there is one.
-/

namespace Messaround.Shell

open Prog

/-- What a program passes to `execvp`, call by call, where every `open` succeeds. -/
inductive Execs : Code → List (Option String × List String) → Prop
  | ret : Execs (.ret ()) []
  | quiet {c : Syscall} {k : Answer c → Code} {l : List (Option String × List String)}
      (hc : Quiet c) (x : Answer c) : Execs (k x) l → Execs (.call c k) l
  | opened {filename : Option String} {flags : List OpenFlag} {k : ℤ → Code}
      {l : List (Option String × List String)} (fd : ℤ) (hfd : 0 ≤ fd) :
      Execs (k fd) l → Execs (.call (.openFile filename flags) k) l
  | executed {command : Option String} {argv stage : List String} {k : ℤ → Code} :
      Execs (.call (.execvp command argv stage) k) [(command, argv)]
  | failed {command : Option String} {argv stage : List String} {k : ℤ → Code}
      {l : List (Option String × List String)} :
      Execs (k (-1)) l → Execs (.call (.execvp command argv stage) k) ((command, argv) :: l)
  | fork {k : ℤ → Code} {l : List (Option String × List String)} (pid : ℤ) :
      Execs (k pid) l → Execs (.call .fork k) l
  | back {k : Unit → Code} {l : List (Option String × List String)} :
      Execs (k ()) l → Execs (.call .back k) l
  | exit {status : ℤ} {k : Empty → Code} : Execs (.call (.exit status) k) []

variable {p : Code} {f : Unit → Code} {l : List (Option String × List String)}
  {args rest : List String}

lemma execs_quiet_call {c : Syscall} {k : Answer c → Code} (hc : Quiet c) :
    Execs (.call c k) l ↔ ∃ x, Execs (k x) l := by
  constructor
  · intro h
    cases h with
    | quiet _ x hx => exact ⟨x, hx⟩
    | opened => exact hc.elim
    | executed => exact hc.elim
    | failed => exact hc.elim
    | fork => exact hc.elim
    | back => exact hc.elim
    | exit => exact hc.elim
  · exact fun ⟨x, hx⟩ => .quiet hc x hx

lemma Quiet.nonempty {c : Syscall} (hc : Quiet c) : Nonempty (Answer c) := by
  cases c with
  | openFile => exact hc.elim
  | errno => exact ⟨(0 : ℤ)⟩
  | dup2 => exact ⟨(0 : ℤ)⟩
  | close => exact ⟨(0 : ℤ)⟩
  | pipe => exact ⟨((0, 0, 0) : ℤ × ℤ × ℤ)⟩
  | fork => exact hc.elim
  | waitpid => exact ⟨(0 : ℤ)⟩
  | execvp => exact hc.elim
  | exit => exact hc.elim
  | eprint => exact ⟨()⟩
  | back => exact hc.elim

lemma execs_quiet (hp : p.Uses Quiet) (ht : p.Total) :
    Execs (p >>= f) l ↔ Execs (f ()) l := by
  induction ht with
  | ret _ => exact Iff.rfl
  | call c _ ih =>
    have hx := hp.1.nonempty
    rw [call_bind, execs_quiet_call hp.1]
    simp only [ih _ (hp.2 _), exists_const]

lemma execs_open {filename : Option String} {flags : List OpenFlag} {g : ℤ → Code} :
    Execs (sys (.openFile filename flags) >>= g) l ↔ ∃ fd, 0 ≤ fd ∧ Execs (g fd) l := by
  constructor
  · intro h
    cases h with
    | quiet hc => exact hc.elim
    | opened fd hfd h => exact ⟨fd, hfd, h⟩
  · exact fun ⟨fd, hfd, h⟩ => .opened fd hfd h

lemma execs_redirects {file : Option String} (hp : Redirects file p) :
    Execs (p >>= f) l ↔ Execs (f ()) l := by
  rcases hp.cases_open with rfl | ⟨flags, lineNum, g, rfl, hg⟩
  · exact Iff.rfl
  · have hopen : ∀ fd, 0 ≤ fd ∧ Execs ((onlyIf (fd < 0) (openFailed file lineNum) >>= fun _ =>
        g fd) >>= f) l ↔ 0 ≤ fd ∧ Execs (f ()) l := fun fd => by
      refine and_congr_right fun hfd => ?_
      rw [onlyIf, if_neg (Int.not_lt.mpr hfd)]
      exact execs_quiet (hg fd).1 (hg fd).2
    rw [Prog.bind_assoc, execs_open, exists_congr hopen, exists_and_right]
    exact and_iff_right ⟨0, Int.le_refl 0⟩

lemma execs_end {newArgs : Option (List String)} (i : ℕ) :
    Execs (isolateLoop args [] i newArgs) l ↔ l = [(args.head?, newArgs.getD args)] := by
  have hquiet : (printError "Error executing command" 60).Uses Quiet := ⟨trivial, fun _ => trivial⟩
  have hback : ∀ l, Execs (printError "Error executing command" 60 >>= fun _ => sys .back) l ↔
      l = [] := fun l => by
    rw [execs_quiet hquiet (total_perform _)]
    constructor
    · intro h
      cases h with
      | quiet hc => exact hc.elim
      | back h =>
        cases h
        rfl
    · rintro rfl
      exact .back .ret
  rw [isolateLoop, execute, Prog.bind_assoc]
  constructor
  · intro h
    cases h with
    | quiet hc => exact hc.elim
    | executed => rfl
    | failed h => rw [(hback _).mp h]
  · rintro rfl
    exact .executed

/-! ### The vector -/

/-- `newArgs` behind the tokens `rest`, which start at index `i`. -/
def cut (args : List String) : List String → ℕ → Option (List String) → Option (List String)
  | [], _, newArgs => newArgs
  | u :: rest, i, newArgs => cut args rest (i + 1) (cutAt args i newArgs u)

lemma execs_isolateLoop (hrest : ∀ u ∈ rest, ¬Bar u) (i : ℕ) (newArgs : Option (List String)) :
    Execs (isolateLoop args rest i newArgs) l ↔
      l = [(args.head?, (cut args rest i newArgs).getD args)] := by
  induction rest generalizing i newArgs with
  | nil => exact execs_end i
  | cons u rest ih =>
    obtain ⟨hu, hrest⟩ := List.forall_mem_cons.mp hrest
    obtain ⟨p, hp, heq⟩ := @isolateLoop_redirects args rest u i newArgs hu
    rw [heq, execs_redirects hp]
    exact ih hrest (i + 1) _

lemma cut_words {words : List String} (hw : ∀ u ∈ words, ¬Operator u) (i : ℕ)
    (newArgs : Option (List String)) :
    cut args (words ++ rest) i newArgs = cut args rest (i + words.length) newArgs := by
  induction words generalizing i with
  | nil => rfl
  | cons u words ih =>
    obtain ⟨hu, hw⟩ := List.forall_mem_cons.mp hw
    have hlt : u ≠ "<" := fun h => hu (Or.inl h)
    rw [List.cons_append, cut, cutAt, if_neg hlt, if_neg hu, ih hw, List.length_cons,
      Nat.add_right_comm, Nat.add_assoc]

/-- Once cut, the vector is cut again at every `<`, which makes it longer each time. -/
lemma cut_some {k i : ℕ} (hk : k < i) (hi : i + rest.length = args.length) :
    ∃ j, cut args rest i (some (args.take k)) = some (args.take j) ∧ j < args.length ∧
      (j = k ∧ "<" ∉ rest ∨ k < j ∧ "<" ∈ rest) := by
  induction rest generalizing k i with
  | nil => exact ⟨k, rfl, by simp at hi; omega, Or.inl ⟨rfl, by simp⟩⟩
  | cons u rest ih =>
    rw [List.length_cons] at hi
    rw [cut, cutAt]
    by_cases hu : u = "<"
    · rw [if_pos hu]
      obtain ⟨j, heq, hj, hcase⟩ := ih (Nat.lt_succ_self i) (by omega)
      refine ⟨j, heq, hj, Or.inr ⟨?_, by simp [hu]⟩⟩
      rcases hcase with ⟨rfl, -⟩ | ⟨hij, -⟩
      · exact hk
      · exact Nat.lt_trans hk hij
    · have hkeep : (if Operator u then some (args.take k) <|> some (args.take i)
          else some (args.take k)) = some (args.take k) := by split <;> rfl
      rw [if_neg hu, hkeep]
      obtain ⟨j, heq, hj, hcase⟩ := ih (Nat.lt_succ_of_lt hk) (by omega)
      refine ⟨j, heq, hj, ?_⟩
      have hmem : "<" ∈ u :: rest ↔ "<" ∈ rest := by simp [Ne.symm hu]
      rw [hmem]
      exact hcase

lemma cut_operator {u : String} (hu : Operator u) (i : ℕ) :
    cut args (u :: rest) i none = cut args rest (i + 1) (some (args.take i)) := by
  have hcut : cutAt args i none u = some (args.take i) := by
    unfold cutAt
    by_cases hlt : u = "<"
    · rw [if_pos hlt]
    · rw [if_neg hlt, if_pos hu]
      rfl
  rw [cut, hcut]

/-! ### Words and redirections -/

/-- The tokens of pairs of an operator and a file. -/
def tokens (pairs : List (String × String)) : List String := pairs.flatMap fun p => [p.1, p.2]

/-- The command is executed once, with the plain words and nothing else. -/
def WordsPassed (words : List String) (pairs : List (String × String)) : Prop :=
  ∀ l, Execs (isolateRun (words ++ tokens pairs)) l ↔ l = [(words.head?, words)]

/-- **Redirections and the argument vector**: it holds the words alone exactly when no `<`
stands behind the first operator. -/
theorem wordsPassed_iff {words : List String} {pairs : List (String × String)} (hne : words ≠ [])
    (hw : ∀ w ∈ words, ¬Operator w ∧ ¬Bar w) (hp : ∀ p ∈ pairs, Operator p.1 ∧ ¬Bar p.2) :
    WordsPassed words pairs ↔ "<" ∉ (tokens pairs).tail := by
  have hbar : ∀ u ∈ words ++ tokens pairs, ¬Bar u := by
    intro u hu
    rcases List.mem_append.mp hu with hu | hu
    · exact (hw u hu).2
    · obtain ⟨p, hmem, hu⟩ := List.mem_flatMap.mp hu
      rcases List.mem_cons.mp hu with rfl | hu
      · rintro (h | h)
        all_goals simpa [Operator, h] using (hp p hmem).1
      · rw [List.mem_singleton.mp hu]
        exact (hp p hmem).2
  have hhead : (words ++ tokens pairs).head? = words.head? := by
    cases words with
    | nil => exact absurd rfl hne
    | cons w words => rfl
  unfold WordsPassed isolateRun
  simp only [execs_isolateLoop hbar, hhead, cut_words fun u hu => (hw u hu).1, Nat.zero_add]
  cases pairs with
  | nil => exact iff_of_true (fun l => by simp [tokens, cut]) (by simp [tokens])
  | cons p pairs =>
    set rest := p.2 :: tokens pairs with hrest
    have htok : tokens (p :: pairs) = p.1 :: rest := rfl
    obtain ⟨j, heq, hj, hcase⟩ := @cut_some (words ++ p.1 :: rest) rest _ _
      (Nat.lt_succ_self words.length) (by simp; omega)
    rw [htok, cut_operator (hp p (by simp)).1, heq, List.tail_cons, Option.getD_some]
    rcases hcase with ⟨rfl, hno⟩ | ⟨hlt, hmem⟩
    · rw [List.take_left]
      exact iff_of_true (fun l => Iff.rfl) hno
    · refine iff_of_false (fun h => ?_) (not_not.mpr hmem)
      have hl : (words.head?, (words ++ p.1 :: rest).take j) = (words.head?, words) :=
        List.singleton_inj.mp ((h _).mp rfl)
      have hlen := congrArg List.length (Prod.mk.inj hl).2
      rw [List.length_take, Nat.min_eq_left (Nat.le_of_lt hj)] at hlen
      omega

theorem wordsPassed_iff_sort :
    WordsPassed ["sort"] [("<", "in"), (">", "out")] ↔ "<" ∉ ["in", ">", "out"] :=
  wordsPassed_iff (by simp) (by simp [Operator]) (by simp [Operator])

/-- `sort > out < in` sorts the files `>` and `out`. -/
theorem not_wordsPassed_sort :
    (∀ l, Execs (isolateRun ["sort", ">", "out", "<", "in"]) l ↔
      l = [(some "sort", ["sort", ">", "out"])]) ∧
    ¬WordsPassed ["sort"] [(">", "out"), ("<", "in")] := by
  have hrun : ∀ l, Execs (isolateRun ["sort", ">", "out", "<", "in"]) l ↔
      l = [(some "sort", ["sort", ">", "out"])] := fun l => by
    rw [isolateRun, execs_isolateLoop (by simp)]
    rfl
  refine ⟨hrun, fun h => ?_⟩
  have hl := (h _).mp ((hrun _).mpr rfl)
  simp at hl

end Messaround.Shell
