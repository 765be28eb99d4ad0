import Mathlib.Logic.Relation
import Mathlib.Logic.Function.Basic
import Messaround.Shell.Run

/-!
The processes of a pipeline with their descriptor tables, in any interleaving.

A pipe is known by its number, and its ends are what descriptors refer to. The process that
has run a `|` branch has made its standard output the write end of the pipe; it closes the
descriptor `pipe` gave it, but not its standard output, before it waits for the process that
reads the pipe.
-/

namespace Messaround.Shell

/-- What a descriptor refers to. -/
inductive End
  | file
  | readEnd (pipe : ℕ)
  | writeEnd (pipe : ℕ)
  deriving DecidableEq, Repr

abbrev Table := ℤ → Option End

structure Proc where
  /-- What the process has still to do; `none` in a command that `execvp` has loaded. -/
  code : Option Code
  table : Table

inductive Status
  | unborn
  | live (proc : Proc)
  | dead

structure World where
  procs : ℤ → Status
  /-- The number of the next pipe. -/
  pipes : ℕ

open Function (update)

/-- The calls that only the own table tells the answer of. -/
inductive Local : (c : Syscall) → Table → Answer c → Table → Prop
  | openFile {name : String} {flags : List OpenFlag} {tab : Table} {fd : ℤ} (h0 : 0 ≤ fd)
      (hfree : tab fd = none) :
      Local (.openFile (some name) flags) tab fd (update tab fd (some .file))
  | openFailed {filename : Option String} {flags : List OpenFlag} {tab : Table} :
      Local (.openFile filename flags) tab (-1) tab
  | errno {tab : Table} (e : ℤ) : Local .errno tab e tab
  | dup2 {tab : Table} {fd newfd : ℤ} {e : End} (h : tab fd = some e) (h0 : 0 ≤ newfd) :
      Local (.dup2 fd newfd) tab newfd (update tab newfd (some e))
  | dup2Failed {tab : Table} {fd newfd : ℤ} (h : tab fd = none ∨ newfd < 0) :
      Local (.dup2 fd newfd) tab (-1) tab
  | close {tab : Table} {fd : ℤ} {e : End} (h : tab fd = some e) :
      Local (.close fd) tab 0 (update tab fd none)
  | closeFailed {tab : Table} {fd : ℤ} (h : tab fd = none) : Local (.close fd) tab (-1) tab
  | eprint {tab : Table} {text : String} : Local (.eprint text) tab () tab
  | back {tab : Table} : Local .back tab () tab

def World.set (w : World) (pid : ℤ) (s : Status) : World :=
  { w with procs := update w.procs pid s }

/-- One step of one process. A command that `execvp` has loaded closes descriptors and ends,
whenever it likes. -/
inductive Step : World → World → Prop
  | call {w : World} {p : ℤ} {c : Syscall} {k : Answer c → Code} {tab tab' : Table} {x : Answer c}
      (hp : w.procs p = .live ⟨some (.call c k), tab⟩) (hl : Local c tab x tab') :
      Step w (w.set p (.live ⟨some (k x), tab'⟩))
  | pipe {w : World} {p : ℤ} {k : ℤ × ℤ × ℤ → Code} {tab : Table} {fd0 fd1 : ℤ}
      (hp : w.procs p = .live ⟨some (.call .pipe k), tab⟩) (h0 : 2 < fd0) (h1 : 2 < fd1)
      (hne : fd0 ≠ fd1) (hfree0 : tab fd0 = none) (hfree1 : tab fd1 = none) :
      Step w { procs := update w.procs p (.live ⟨some (k (0, fd0, fd1)), update (update tab fd0
          (some (.readEnd w.pipes))) fd1 (some (.writeEnd w.pipes))⟩)
               pipes := w.pipes + 1 }
  | fork {w : World} {p pid : ℤ} {k : ℤ → Code} {tab : Table}
      (hp : w.procs p = .live ⟨some (.call .fork k), tab⟩) (hpid : 0 < pid)
      (hnew : w.procs pid = .unborn) :
      Step w ((w.set pid (.live ⟨some (k 0), tab⟩)).set p (.live ⟨some (k pid), tab⟩))
  | waitpid {w : World} {p pid : ℤ} {k : ℤ → Code} {tab : Table}
      (hp : w.procs p = .live ⟨some (.call (.waitpid pid) k), tab⟩) (hdead : w.procs pid = .dead) :
      Step w (w.set p (.live ⟨some (k pid), tab⟩))
  | executed {w : World} {p : ℤ} {command : Option String} {argv stage : List String}
      {k : ℤ → Code} {tab : Table}
      (hp : w.procs p = .live ⟨some (.call (.execvp command argv stage) k), tab⟩) :
      Step w (w.set p (.live ⟨none, tab⟩))
  | failed {w : World} {p : ℤ} {command : Option String} {argv stage : List String}
      {k : ℤ → Code} {tab : Table}
      (hp : w.procs p = .live ⟨some (.call (.execvp command argv stage) k), tab⟩) :
      Step w (w.set p (.live ⟨some (k (-1)), tab⟩))
  | exit {w : World} {p : ℤ} {status : ℤ} {k : Empty → Code} {tab : Table}
      (hp : w.procs p = .live ⟨some (.call (.exit status) k), tab⟩) : Step w (w.set p .dead)
  | drop {w : World} {p : ℤ} {tab : Table} (fd : ℤ) (hp : w.procs p = .live ⟨none, tab⟩) :
      Step w (w.set p (.live ⟨none, update tab fd none⟩))
  | halt {w : World} {p : ℤ} {tab : Table} (hp : w.procs p = .live ⟨none, tab⟩) :
      Step w (w.set p .dead)

/-- The standard descriptors, open to anything but a pipe. -/
def stdTable : Table := fun fd => if 0 ≤ fd ∧ fd ≤ 2 then some .file else none

/-- Process 1 is the child of `forknRun` at its call of `isolateRun`. -/
def World.start (args : List String) : World where
  procs := update (fun _ => .unborn) 1 (.live ⟨some (isolateRun args), stdTable⟩)
  pipes := 0

/-- The worlds that some order of steps leads to. -/
abbrev Reached (args : List String) (w : World) : Prop :=
  Relation.ReflTransGen Step (.start args) w

/-- Whenever the process that ran a `|` branch waits for a process whose standard input is a
pipe, none of its descriptors is the write end of that pipe. -/
def EofDelivered (args : List String) : Prop :=
  ∀ w, Reached args w → ∀ (p pid : ℤ) (tab : Table) (child : Proc) (pipe : ℕ),
    w.procs p = .live ⟨some (waitForRest pid), tab⟩ → w.procs pid = .live child →
    child.table STDIN_FILENO = some (.readEnd pipe) → ∀ fd, tab fd ≠ some (.writeEnd pipe)

/-! ### Runs of one process -/

/-- Calls that only the own table tells the answer of, one after another. -/
inductive Runs : Code → Table → Code → Table → Prop
  | refl (code : Code) (tab : Table) : Runs code tab code tab
  | call {c : Syscall} {k : Answer c → Code} {tab tab' tab'' : Table} {x : Answer c}
      {code : Code} (hl : Local c tab x tab') (h : Runs (k x) tab' code tab'') :
      Runs (.call c k) tab code tab''

variable {p q code code' : Code} {f : Unit → Code} {tab tab' tab'' : Table} {w : World}

lemma Runs.trans (h : Runs p tab q tab') (h' : Runs q tab' code tab'') :
    Runs p tab code tab'' := by
  induction h with
  | refl => exact h'
  | call hl _ ih => exact .call hl (ih h')

@[simp] lemma World.set_set (w : World) (pid : ℤ) (s s' : Status) :
    (w.set pid s).set pid s' = w.set pid s' := by
  simp [World.set]

@[simp] lemma World.set_procs (w : World) (pid : ℤ) (s : Status) :
    (w.set pid s).procs = update w.procs pid s := rfl

lemma World.set_self {pid : ℤ} {s : Status} (h : w.procs pid = s) : w.set pid s = w := by
  simp [World.set, ← h]

lemma Runs.steps {pid : ℤ} (h : Runs code tab code' tab')
    (hp : w.procs pid = .live ⟨some code, tab⟩) :
    Relation.ReflTransGen Step w (w.set pid (.live ⟨some code', tab'⟩)) := by
  induction h generalizing w with
  | refl => rw [World.set_self hp]
  | @call c k tab tab' _ x _ hl _ ih =>
    have hrest := @ih (w.set pid (.live ⟨some (k x), tab'⟩)) (by simp)
    rw [World.set_set] at hrest
    exact .head (.call hp hl) hrest

lemma runs_close (fd : ℤ) : Runs (sys (.close fd) >>= fun _ => p) tab p (update tab fd none) := by
  cases h : tab fd with
  | none =>
    have hsame : update tab fd none = tab := by rw [← h, Function.update_eq_self]
    rw [hsame]
    exact .call (.closeFailed h) (.refl _ _)
  | some e => exact .call (.close h) (.refl _ _)

lemma runs_dup2 {fd newfd : ℤ} {e : End} {g : ℤ → Code} (h : tab fd = some e) (h0 : 0 ≤ newfd) :
    Runs (sys (.dup2 fd newfd) >>= g) tab (g newfd) (update tab newfd (some e)) :=
  .call (.dup2 h h0) (.refl _ _)

/-- No descriptor above the standard ones is open. -/
def HighFree (tab : Table) : Prop := ∀ fd, 2 < fd → tab fd = none

/-- The code can be run to its end without opening a descriptor above the standard ones. -/
def Passes (p : Code) : Prop :=
  ∀ tab, HighFree tab → ∃ tab', HighFree tab' ∧ ∀ f : Unit → Code, Runs (p >>= f) tab (f ()) tab'

lemma onlyIf_neg {c : Prop} [Decidable c] (h : ¬ c) : onlyIf c p = pure () := if_neg h

lemma runs_open {name : String} {flags : List OpenFlag} {fd : ℤ} {g : ℤ → Code} (h0 : 0 ≤ fd)
    (hfree : tab fd = none) : Runs (sys (.openFile (some name) flags) >>= g) tab (g fd)
      (update tab fd (some .file)) :=
  .call (.openFile h0 hfree) (.refl _ _)

lemma pure_bind (f : Unit → Code) : (pure () : Code) >>= f = f () := rfl

lemma passes_redirect {file : Option String} {fd : ℤ} (flags : List OpenFlag)
    (hfile : file ≠ none) (hfd : 0 ≤ fd ∧ fd ≤ 2) : Passes (redirect file fd flags) := by
  intro tab htab
  obtain ⟨name, rfl⟩ := Option.ne_none_iff_exists'.mp hfile
  refine ⟨update (update (update tab 3 (some .file)) fd (some .file)) 3 none, ?_, fun f => ?_⟩
  · intro n hn
    by_cases h3 : n = 3
    · simp [h3]
    · simp [h3, show n ≠ fd by omega, htab n hn]
  · simp only [redirect, Prog.bind_assoc]
    refine (@runs_open tab name flags 3 _ (by omega) (htab 3 (by omega))).trans ?_
    rw [onlyIf_neg (show ¬ (3 : ℤ) < 0 by decide), pure_bind]
    refine (runs_dup2 (e := .file) (by simp) hfd.1).trans ?_
    rw [onlyIf_neg (show ¬ fd < 0 by omega), pure_bind]
    exact runs_close 3

lemma passes_redirect2 {file : Option String} {fd1 fd2 : ℤ} (flags : List OpenFlag)
    (hfile : file ≠ none) (hfd1 : 0 ≤ fd1 ∧ fd1 ≤ 2) (hfd2 : 0 ≤ fd2 ∧ fd2 ≤ 2) :
    Passes (redirect2 file fd1 fd2 flags) := by
  intro tab htab
  obtain ⟨name, rfl⟩ := Option.ne_none_iff_exists'.mp hfile
  refine ⟨update (update (update (update tab 3 (some .file)) fd1 (some .file)) fd2
    (some .file)) 3 none, ?_, fun f => ?_⟩
  · intro n hn
    by_cases h3 : n = 3
    · simp [h3]
    · simp [h3, show n ≠ fd1 by omega, show n ≠ fd2 by omega, htab n hn]
  · simp only [redirect2, Prog.bind_assoc]
    refine (@runs_open tab name flags 3 _ (by omega) (htab 3 (by omega))).trans ?_
    rw [onlyIf_neg (show ¬ (3 : ℤ) < 0 by decide), pure_bind]
    refine (runs_dup2 (e := .file) (by simp) hfd1.1).trans ?_
    rw [if_neg (show ¬ fd1 < 0 by omega), Prog.bind_assoc]
    refine (runs_dup2 (e := .file) ?_ hfd2.1).trans ?_
    · simp [show (3 : ℤ) ≠ fd1 by omega]
    · rw [onlyIf_neg (show ¬ fd2 < 0 by omega), pure_bind]
      exact runs_close 3

lemma Redirects.passes {file : Option String} (hp : Redirects file p) (hfile : file ≠ none) :
    Passes p := by
  cases hp with
  | word => exact fun tab htab => ⟨tab, htab, fun f => .refl _ _⟩
  | one fd flags hfd => exact passes_redirect flags hfile hfd
  | two fd1 fd2 flags hfd1 hfd2 => exact passes_redirect2 flags hfile hfd1 hfd2

/-- The first `|` of a pipeline is reached with the standard descriptors only. -/
lemma runs_to_bar {args c1 rest : List String} {bar : String} (hc1 : ∀ u ∈ c1, ¬ Bar u) (i : ℕ)
    (newArgs : Option (List String)) (htab : HighFree tab) :
    ∃ i' newArgs' tab', HighFree tab' ∧ Runs (isolateLoop args (c1 ++ bar :: rest) i newArgs) tab
      (isolateLoop args (bar :: rest) i' newArgs') tab' := by
  induction c1 generalizing i newArgs tab with
  | nil => exact ⟨i, newArgs, tab, htab, .refl _ _⟩
  | cons u c1 ih =>
    rw [List.forall_mem_cons] at hc1
    obtain ⟨p, hp, heq⟩ :=
      @isolateLoop_redirects args (c1 ++ bar :: rest) u i newArgs hc1.1
    obtain ⟨tab1, htab1, hrun⟩ := hp.passes (by cases c1 <;> simp) tab htab
    obtain ⟨i', newArgs', tab', htab', hrest⟩ := ih hc1.2 (i + 1) (cutAt args i newArgs u) htab1
    refine ⟨i', newArgs', tab', htab', ?_⟩
    rw [List.cons_append, heq]
    exact (hrun _).trans hrest

lemma runs_pipeInputStdin {fd : ℤ × ℤ} {e : End} (he : tab fd.1 = some e) (h1 : 2 < fd.1)
    (hne : fd.1 ≠ fd.2) : ∃ tab', tab' STDIN_FILENO = some e ∧
      ∀ f : Unit → Code, Runs (pipeInputStdin fd >>= f) tab (f ()) tab' := by
  have h0 : fd.1 ≠ STDIN_FILENO := by unfold STDIN_FILENO; omega
  refine ⟨update (update (update (update tab fd.2 none) STDIN_FILENO none) STDIN_FILENO
    (some e)) fd.1 none, by simp [h0.symm], fun f => ?_⟩
  simp only [pipeInputStdin, Prog.bind_assoc]
  refine (runs_close fd.2).trans ((runs_close STDIN_FILENO).trans ?_)
  refine (runs_dup2 (e := e) (by simp [h0, hne, he]) (by decide)).trans ?_
  rw [onlyIf_neg (show ¬ STDIN_FILENO < 0 by decide), pure_bind]
  exact runs_close fd.1

lemma runs_pipeOutputStdout {fd : ℤ × ℤ} {e : End} (he : tab fd.2 = some e) (h2 : 2 < fd.2)
    (hne : fd.1 ≠ fd.2) : ∃ tab', tab' STDOUT_FILENO = some e ∧
      ∀ f : Unit → Code, Runs (pipeOutputStdout fd >>= f) tab (f ()) tab' := by
  have hout : fd.2 ≠ STDOUT_FILENO := by unfold STDOUT_FILENO; omega
  refine ⟨update (update (update (update tab fd.1 none) STDOUT_FILENO none) STDOUT_FILENO
    (some e)) fd.2 none, by simp [hout.symm], fun f => ?_⟩
  simp only [pipeOutputStdout, Prog.bind_assoc]
  refine (runs_close fd.1).trans ((runs_close STDOUT_FILENO).trans ?_)
  refine (runs_dup2 (e := e) (by simp [hout, hne.symm, he]) (by decide)).trans ?_
  rw [onlyIf_neg (show ¬ STDOUT_FILENO < 0 by decide), pure_bind]
  exact runs_close fd.2

lemma runs_pipeOutputStdoutAndStderr {fd : ℤ × ℤ} {e : End} (he : tab fd.2 = some e)
    (h2 : 2 < fd.2) (hne : fd.1 ≠ fd.2) : ∃ tab', tab' STDOUT_FILENO = some e ∧
      ∀ f : Unit → Code, Runs (pipeOutputStdoutAndStderr fd >>= f) tab (f ()) tab' := by
  have hout : fd.2 ≠ STDOUT_FILENO := by unfold STDOUT_FILENO; omega
  have herr : fd.2 ≠ STDERR_FILENO := by unfold STDERR_FILENO; omega
  have hoe : STDOUT_FILENO ≠ STDERR_FILENO := by decide
  refine ⟨update (update (update (update (update (update tab fd.1 none) STDOUT_FILENO none)
    STDERR_FILENO none) STDOUT_FILENO (some e)) STDERR_FILENO (some e)) fd.2 none,
    by simp [hout.symm, hoe], fun f => ?_⟩
  simp only [pipeOutputStdoutAndStderr, Prog.bind_assoc]
  refine (runs_close fd.1).trans ((runs_close STDOUT_FILENO).trans ?_)
  refine (runs_close STDERR_FILENO).trans ?_
  refine (runs_dup2 (e := e) (by simp [hout, herr, hne.symm, he]) (by decide)).trans ?_
  refine (runs_dup2 (e := e) (by simp [hout, herr, hne.symm, he]) (by decide)).trans ?_
  rw [onlyIf_neg (show ¬ (STDOUT_FILENO < 0 ∨ STDERR_FILENO < 0) by decide), pure_bind]
  exact runs_close fd.2

lemma runs_pipeOutput (t : String) {fd : ℤ × ℤ} {e : End} (he : tab fd.2 = some e) (h2 : 2 < fd.2)
    (hne : fd.1 ≠ fd.2) : ∃ tab', tab' STDOUT_FILENO = some e ∧ ∀ f : Unit → Code,
      Runs ((if t = "|&" then pipeOutputStdoutAndStderr fd else pipeOutputStdout fd) >>= f) tab
        (f ()) tab' := by
  by_cases ht : t = "|&"
  · simpa [ht] using runs_pipeOutputStdoutAndStderr he h2 hne
  · simpa [ht] using runs_pipeOutputStdout he h2 hne

lemma highFree_stdTable : HighFree stdTable := by
  intro fd hfd
  rw [stdTable, if_neg (by omega)]

/-- The process of a pipeline gets to its first `|` before it has any pipe or child. -/
lemma reached_bar {c1 rest : List String} {bar : String} (hc1 : ∀ u ∈ c1, ¬ Bar u) :
    ∃ w tab i newArgs, Reached (c1 ++ bar :: rest) w ∧ HighFree tab ∧
      w.procs 1 = .live ⟨some (isolateLoop (c1 ++ bar :: rest) (bar :: rest) i newArgs), tab⟩ ∧
      w.procs 2 = .unborn ∧ w.procs 3 = .unborn := by
  obtain ⟨i, newArgs, tab, htab, hrun⟩ :=
    @runs_to_bar stdTable (c1 ++ bar :: rest) c1 rest bar hc1 0 none highFree_stdTable
  have hstart : (World.start (c1 ++ bar :: rest)).procs 1 =
      .live ⟨some (isolateRun (c1 ++ bar :: rest)), stdTable⟩ := by simp [World.start]
  have hsteps := hrun.steps hstart
  exact ⟨_, tab, i, newArgs, hsteps, htab, by simp, by simp [World.start], by simp [World.start]⟩

variable {args : List String} {pid : ℤ}

/-- The other processes are as they were. -/
def World.Frame (w w' : World) (p : ℤ) : Prop := ∀ q, q ≠ p → w'.procs q = w.procs q

lemma World.frame_set (w : World) (p : ℤ) (s : Status) : w.Frame (w.set p s) p := by
  intro q hq
  simp [hq]

lemma reached_runs {p : ℤ} (hw : Reached args w) (hp : w.procs p = .live ⟨some code, tab⟩)
    (h : Runs code tab code' tab') :
    ∃ w', Reached args w' ∧ w'.procs p = .live ⟨some code', tab'⟩ ∧ w.Frame w' p :=
  ⟨_, hw.trans (h.steps hp), by simp, w.frame_set p _⟩

lemma reached_pipe {p : ℤ} {g : ℤ × ℤ × ℤ → Code} (hw : Reached args w)
    (hp : w.procs p = .live ⟨some (sys .pipe >>= g), tab⟩) (htab : HighFree tab) :
    ∃ w' tab' pipe, Reached args w' ∧ w'.procs p = .live ⟨some (g (0, 3, 4)), tab'⟩ ∧
      tab' 3 = some (.readEnd pipe) ∧ tab' 4 = some (.writeEnd pipe) ∧ w.Frame w' p := by
  have hstep := Step.pipe hp (show 2 < 3 by decide) (show 2 < 4 by decide) (by decide)
    (htab 3 (by decide)) (htab 4 (by decide))
  exact ⟨_, _, w.pipes, hw.tail hstep, Function.update_self _ _ _, by simp, by simp,
    fun q hq => by simp [hq]⟩

lemma reached_fork {p : ℤ} {g : ℤ → Code} (hw : Reached args w)
    (hp : w.procs p = .live ⟨some (sys .fork >>= g), tab⟩) (hpid : 0 < pid)
    (hnew : w.procs pid = .unborn) (hne : pid ≠ p) :
    ∃ w', Reached args w' ∧ w'.procs p = .live ⟨some (g pid), tab⟩ ∧
      w'.procs pid = .live ⟨some (g 0), tab⟩ ∧ ∀ q, q ≠ p → q ≠ pid → w'.procs q = w.procs q :=
  ⟨_, hw.tail (.fork hp hpid hnew), by simp; rfl, by simp [hne]; rfl,
    fun q hq hq' => by simp [hq, hq']⟩

lemma reached_execute {p : ℤ} {stage newArgs : List String} (hw : Reached args w)
    (hp : w.procs p = .live ⟨some (execute stage newArgs >>= f), tab⟩) :
    ∃ w', Reached args w' ∧ w'.procs p = .dead ∧ w.Frame w' p := by
  have hexec := Step.executed hp
  have hcommand : (w.set p (.live ⟨none, tab⟩)).procs p = .live ⟨none, tab⟩ := by simp
  have hhalt := Step.halt hcommand
  rw [World.set_set] at hhalt
  exact ⟨_, (hw.tail hexec).tail hhalt, by simp, w.frame_set p _⟩

lemma reached_waitpid {p : ℤ} {g : ℤ → Code} (hw : Reached args w)
    (hp : w.procs p = .live ⟨some (sys (.waitpid pid) >>= g), tab⟩) (hdead : w.procs pid = .dead) :
    ∃ w', Reached args w' ∧ w'.procs p = .live ⟨some (g pid), tab⟩ ∧ w.Frame w' p :=
  ⟨_, hw.tail (.waitpid hp hdead), by simp; rfl, w.frame_set p _⟩

/-- **The waiting process holds the write end**: in a pipeline there is an order of steps after
which the process that ran the first `|` branch waits for the reader of its pipe, with the
write end as its standard output. -/
theorem exists_holding {c1 rest : List String} {bar : String} (hc1 : ∀ u ∈ c1, ¬ Bar u)
    (hbar : Bar bar) : ∃ w tab child pipe, Reached (c1 ++ bar :: rest) w ∧
      w.procs 1 = .live ⟨some (waitForRest 2), tab⟩ ∧ w.procs 2 = .live child ∧
      child.table STDIN_FILENO = some (.readEnd pipe) ∧
      tab STDOUT_FILENO = some (.writeEnd pipe) := by
  have h21 : (2 : ℤ) ≠ 1 := by decide
  have h31 : (3 : ℤ) ≠ 1 := by decide
  have h32 : (3 : ℤ) ≠ 2 := by decide
  obtain ⟨w, tab, i, newArgs, hw, htab, h1, h2, h3⟩ := @reached_bar c1 rest bar hc1
  rw [isolateLoop_bar _ _ hbar] at h1
  obtain ⟨w, tab, pipe, hw, h1, hread, hwrite, hframe⟩ := reached_pipe hw h1 htab
  rw [← hframe 2 h21] at h2
  rw [← hframe 3 h31] at h3
  rw [onlyIf_neg (not_not.mpr rfl), pure_bind] at h1
  obtain ⟨w, hw, h1, h2, hframe⟩ := reached_fork hw h1 (by decide) h2 h21
  rw [← hframe 3 h31 h32] at h3
  rw [if_neg (by decide)] at h1
  rw [if_pos rfl] at h2
  -- the rest of the pipeline makes the pipe its standard input, and is left there
  obtain ⟨tab2, htab2, hrun2⟩ := @runs_pipeInputStdin tab (3, 4) _ hread (by decide) (by decide)
  obtain ⟨w, hw, h2, hframe⟩ := reached_runs hw h2 (hrun2 _)
  rw [← hframe 1 h21.symm] at h1
  rw [← hframe 3 h32] at h3
  obtain ⟨tab1, htab1, hrun1⟩ := @runs_pipeOutput tab bar (3, 4) _ hwrite (by decide) (by decide)
  obtain ⟨w, hw, h1, hframe⟩ := reached_runs hw h1 (hrun1 _)
  rw [← hframe 2 h21] at h2
  rw [← hframe 3 h31] at h3
  obtain ⟨w, hw, h1, h3, hframe⟩ := reached_fork hw h1 (by decide) h3 h31
  rw [← hframe 2 h21 h32.symm] at h2
  rw [if_neg (by decide)] at h1
  rw [if_pos rfl] at h3
  -- the command of this stage runs and ends, and the process waits for the rest
  obtain ⟨w, hw, h3, hframe⟩ := reached_execute hw h3
  rw [← hframe 1 h31.symm] at h1
  rw [← hframe 2 h32.symm] at h2
  obtain ⟨w, hw, h1, hframe⟩ := reached_waitpid hw h1 h3
  rw [← hframe 2 h21] at h2
  obtain ⟨w, hw, h1, hframe⟩ := reached_runs hw h1 (runs_close 4)
  rw [← hframe 2 h21] at h2
  exact ⟨w, _, _, pipe, hw, h1, h2, htab2, by simpa [STDOUT_FILENO] using htab1⟩

lemma keeps_writeEnd {c1 rest : List String} {bar : String} (hc1 : ∀ u ∈ c1, ¬ Bar u)
    (hbar : Bar bar) : ¬ EofDelivered (c1 ++ bar :: rest) := by
  obtain ⟨w, tab, child, pipe, hw, h1, h2, hread, hwrite⟩ := @exists_holding c1 rest bar hc1 hbar
  intro heof
  exact heof w hw 1 2 tab child pipe h1 h2 hread STDOUT_FILENO hwrite

lemma exists_first_bar (h : ∃ u ∈ args, Bar u) :
    ∃ c1 bar rest, args = c1 ++ bar :: rest ∧ (∀ u ∈ c1, ¬ Bar u) ∧ Bar bar := by
  induction args with
  | nil => simp at h
  | cons u args ih =>
    by_cases hu : Bar u
    · exact ⟨[], u, args, rfl, by simp, hu⟩
    · obtain ⟨v, hv, hbar⟩ := h
      have hrest : v ∈ args := (List.mem_cons.mp hv).resolve_left fun heq => hu (heq ▸ hbar)
      obtain ⟨c1, bar, rest, rfl, hc1, hbar⟩ := ih ⟨v, hrest, hbar⟩
      exact ⟨u :: c1, bar, rest, rfl, List.forall_mem_cons.mpr ⟨hu, hc1⟩, hbar⟩

/-- **End of file is not delivered**: in no pipeline do the waiting processes give up the write
ends of their pipes. -/
theorem never_eofDelivered (args : List String) (h : ∃ u ∈ args, Bar u) : ¬ EofDelivered args := by
  obtain ⟨c1, bar, rest, rfl, hc1, hbar⟩ := exists_first_bar h
  exact keeps_writeEnd hc1 hbar

theorem never_eofDelivered_two : ¬ EofDelivered ["ls", "|&", "sort", "|", "wc"] :=
  never_eofDelivered _ ⟨"|&", List.mem_cons_of_mem _ List.mem_cons_self, .inr rfl⟩

/-- In `ls | wc` the process of the pipeline waits for `wc` with its standard output the write
end of the pipe that `wc` reads. -/
theorem not_eofDelivered_lsWc : ¬ EofDelivered ["ls", "|", "wc"] := by
  have hls : ∀ u ∈ ["ls"], ¬ Bar u := by simp [Bar]
  exact keeps_writeEnd hls (.inl rfl)

end Messaround.Shell
