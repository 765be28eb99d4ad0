import Messaround.Shell.Run

/-!
The tree of processes that a program leaves behind, and what becomes of each of them.

A process ends in a command, exits, or comes to the end of its program. A failing `execvp` is
the one call after which `isolateRun` can go on where it should not: in the child of a `|`
the loop over the tokens is still that of the whole pipeline, and the last call of each
`isolateRun` returns to the loop that called it, in the end to that of `main`.
-/

namespace Messaround.Shell

/-- What becomes of a process and of those it forks. Of the calls only `execvp`, `fork`, returns
and the `open`s that fail are recorded. -/
inductive Tree
  /-- The process is replaced by the command of this stage. -/
  | executed (stage : List String)
  | exited
  /-- The process is at the end of its program, back in the loop of `main`. -/
  | returned
  /-- A failing `execvp` of this stage's command, and what comes after it. -/
  | failed (stage : List String) (next : Tree)
  /-- A failing `open` of a redirection, and what comes after it. -/
  | refused (next : Tree)
  | forked (child parent : Tree)
  /-- An `isolateRun` returns to its caller. -/
  | back (next : Tree)
  deriving DecidableEq

namespace Tree

/-- The stages whose command is passed to `execvp`, over all processes. -/
def execs : Tree → List (List String)
  | executed stage => [stage]
  | exited => []
  | returned => []
  | failed stage next => stage :: next.execs
  | refused next => next.execs
  | forked child parent => child.execs ++ parent.execs
  | back next => next.execs

/-- No process returns from an `isolateRun`, so each ends in a command or exits. -/
def NoReturn : Tree → Prop
  | executed _ => True
  | exited => True
  | returned => False
  | failed _ next => next.NoReturn
  | refused next => next.NoReturn
  | forked child parent => child.NoReturn ∧ parent.NoReturn
  | back _ => False

/-- The next call that is recorded is a failing `open`. -/
def StartsRefused : Tree → Prop
  | refused _ => True
  | _ => False

/-- After each failing `execvp` an `open` fails before the process forks, returns, or calls
`execvp` again. -/
def Rescued : Tree → Prop
  | executed _ => True
  | exited => True
  | returned => True
  | failed _ next => next.StartsRefused ∧ next.Rescued
  | refused next => next.Rescued
  | forked child parent => child.Rescued ∧ parent.Rescued
  | back next => next.Rescued

end Tree

/-- Calls with no trace in the tree. -/
def Quiet : Syscall → Prop
  | .openFile _ _ => False
  | .fork => False
  | .execvp _ _ _ => False
  | .exit _ => False
  | .back => False
  | _ => True

/-- The trees a program can lead to: any `execvp` may fail, every `fork` gives a child, and
the other calls have any answer. -/
inductive Resolves : Code → Tree → Prop
  | ret : Resolves (.ret ()) .returned
  | quiet {c : Syscall} {k : Answer c → Code} {t : Tree} (hc : Quiet c) (x : Answer c) :
      Resolves (k x) t → Resolves (.call c k) t
  | opened {filename : Option String} {flags : List OpenFlag} {k : ℤ → Code} {t : Tree} (fd : ℤ)
      (hfd : 0 ≤ fd) : Resolves (k fd) t → Resolves (.call (.openFile filename flags) k) t
  | refused {filename : Option String} {flags : List OpenFlag} {k : ℤ → Code} {t : Tree} (fd : ℤ)
      (hfd : fd < 0) :
      Resolves (k fd) t → Resolves (.call (.openFile filename flags) k) (.refused t)
  | exit {status : ℤ} {k : Empty → Code} : Resolves (.call (.exit status) k) .exited
  | executed {command : Option String} {argv stage : List String} {k : ℤ → Code} :
      Resolves (.call (.execvp command argv stage) k) (.executed stage)
  | failed {command : Option String} {argv stage : List String} {k : ℤ → Code} {t : Tree} :
      Resolves (k (-1)) t → Resolves (.call (.execvp command argv stage) k) (.failed stage t)
  | forked {k : ℤ → Code} {child parent : Tree} (pid : ℤ) (hpid : 0 < pid) :
      Resolves (k 0) child → Resolves (k pid) parent →
      Resolves (.call .fork k) (.forked child parent)
  | back {k : Unit → Code} {t : Tree} :
      Resolves (k ()) t → Resolves (.call .back k) (.back t)

open Prog Messaround.Shell.Tree

variable {p q : Code} {f : Unit → Code} {args rest : List String} {t : Tree}

lemma Resolves.quiet_inv {c : Syscall} {k : Answer c → Code} (h : Resolves (.call c k) t)
    (hc : Quiet c) : ∃ x, Resolves (k x) t := by
  cases h with
  | quiet _ x hx => exact ⟨x, hx⟩
  | opened => exact hc.elim
  | refused => exact hc.elim
  | exit => exact hc.elim
  | executed => exact hc.elim
  | failed => exact hc.elim
  | forked => exact hc.elim
  | back => exact hc.elim

lemma Resolves.sys_inv {c : Syscall} {g : Answer c → Code} (h : Resolves (sys c >>= g) t)
    (hc : Quiet c) : ∃ x, Resolves (g x) t :=
  quiet_inv h hc

lemma Resolves.quiet_bind (h : Resolves (p >>= f) t) (hp : p.Uses Quiet) : Resolves (f ()) t := by
  induction p with
  | ret a => exact h
  | call c k ih =>
    obtain ⟨x, hx⟩ := quiet_inv h hp.1
    exact ih x hx (hp.2 x)
  | stuck => cases h

lemma quiet_onlyIf {c : Prop} [Decidable c] (hp : p.Uses Quiet) : (onlyIf c p).Uses Quiet := by
  unfold onlyIf
  split
  · exact hp
  · trivial

lemma uses_sys_bind {P : Syscall → Prop} {α : Type} {c : Syscall} {g : Answer c → Prog Answer α}
    (hc : P c) (hg : ∀ x, (g x).Uses P) : (sys c >>= g).Uses P :=
  ⟨hc, hg⟩

/-- An error message if a call has failed, and the last `close` of a function. -/
lemma quiet_finish {c : Prop} [Decidable c] {error : String} {lineNum : ℕ} {fd : ℤ} :
    (onlyIf c (printError error lineNum) >>= fun _ => sys (.close fd) >>= fun _ => pure ()).Uses
      Quiet :=
  uses_bind (quiet_onlyIf ⟨trivial, fun _ => trivial⟩) fun _ => ⟨trivial, fun _ => trivial⟩

lemma total_onlyIf {c : Prop} [Decidable c] (hp : p.Total) : (onlyIf c p).Total := by
  unfold onlyIf
  split
  · exact hp
  · exact total_pure ()

lemma total_finish {c : Prop} [Decidable c] {error : String} {lineNum : ℕ} {fd : ℤ} :
    (onlyIf c (printError error lineNum) >>= fun _ => sys (.close fd) >>= fun _ => pure ()).Total :=
  total_bind (total_onlyIf (total_perform _)) fun _ =>
    total_bind (total_perform _) fun _ => total_pure ()

lemma quiet_pipeInputStdin (fd : ℤ × ℤ) : (pipeInputStdin fd).Uses Quiet := by
  refine uses_sys_bind trivial fun _ => uses_sys_bind trivial fun _ => ?_
  exact uses_sys_bind trivial fun ret => quiet_finish

lemma quiet_pipeOutput (t : String) (fd : ℤ × ℤ) :
    (if t = "|&" then pipeOutputStdoutAndStderr fd else pipeOutputStdout fd).Uses Quiet := by
  split
  · refine uses_sys_bind trivial fun _ => uses_sys_bind trivial fun _ => ?_
    refine uses_sys_bind trivial fun _ => uses_sys_bind trivial fun ret => ?_
    exact uses_sys_bind trivial fun ret' => quiet_finish
  · refine uses_sys_bind trivial fun _ => uses_sys_bind trivial fun _ => ?_
    exact uses_sys_bind trivial fun ret => quiet_finish

lemma Resolves.openFile_inv {filename : Option String} {flags : List OpenFlag} {g : ℤ → Code}
    (h : Resolves (sys (.openFile filename flags) >>= g) t) :
    (∃ fd, 0 ≤ fd ∧ Resolves (g fd) t) ∨
      ∃ fd < 0, ∃ next, t = .refused next ∧ Resolves (g fd) next := by
  cases h with
  | quiet hc => exact hc.elim
  | opened fd hfd h => exact .inl ⟨fd, hfd, h⟩
  | refused fd hfd h => exact .inr ⟨fd, hfd, _, rfl, h⟩

lemma Resolves.exit_inv {status : ℤ} (h : Resolves (Shell.exit status >>= f) t) :
    t = .exited := by
  cases h with
  | quiet hc => exact hc.elim
  | exit => rfl

/-- The first lines of both `redirect` functions: if the `open` fails, the process exits. -/
lemma Resolves.open_inv {filename : Option String} {flags : List OpenFlag} {lineNum : ℕ}
    {g : ℤ → Code} (h : Resolves ((sys (.openFile filename flags) >>= fun nfd =>
      onlyIf (nfd < 0) (openFailed filename lineNum) >>= fun _ => g nfd) >>= f) t) :
    t = .refused .exited ∨ ∃ nfd, Resolves (g nfd >>= f) t := by
  rw [Prog.bind_assoc] at h
  rcases openFile_inv h with ⟨nfd, hnfd, ho⟩ | ⟨nfd, hnfd, next, rfl, ho⟩
  · rw [onlyIf, if_neg (Int.not_lt.mpr hnfd)] at ho
    exact .inr ⟨nfd, ho⟩
  · rw [Prog.bind_assoc, onlyIf, if_pos hnfd, openFailed, Prog.bind_assoc] at ho
    obtain ⟨_, ho⟩ := sys_inv ho trivial
    rw [Prog.bind_assoc] at ho
    obtain ⟨errno, ho⟩ := sys_inv ho trivial
    obtain rfl := exit_inv ho
    exact .inl rfl

/-- A redirection opens its file, exits if that fails, and is quiet from there on. -/
lemma Redirects.cases_open {file : Option String} (hp : Redirects file p) :
    p = pure () ∨ ∃ flags lineNum, ∃ g : ℤ → Code, p = (sys (.openFile file flags) >>= fun nfd =>
      onlyIf (nfd < 0) (openFailed file lineNum) >>= fun _ => g nfd) ∧
      ∀ nfd, (g nfd).Uses Quiet ∧ (g nfd).Total := by
  cases hp with
  | word => exact .inl rfl
  | one fd flags =>
    refine .inr ⟨flags, _, _, rfl, fun nfd => ⟨?_, ?_⟩⟩
    · exact uses_sys_bind trivial fun ret => quiet_finish
    · exact total_bind (total_perform _) fun ret => total_finish
  | two fd1 fd2 flags =>
    refine .inr ⟨flags, _, _, rfl, fun nfd => ⟨?_, ?_⟩⟩
    · refine uses_sys_bind trivial fun ret => ?_
      refine uses_bind ?_ fun _ => ⟨trivial, fun _ => trivial⟩
      split
      · exact ⟨trivial, fun _ => trivial⟩
      · exact uses_sys_bind trivial fun ret' => quiet_onlyIf ⟨trivial, fun _ => trivial⟩
    · refine total_bind (total_perform _) fun ret => ?_
      refine total_bind ?_ fun _ => total_bind (total_perform _) fun _ => total_pure ()
      split
      · exact total_perform _
      · exact total_bind (total_perform _) fun ret' => total_onlyIf (total_perform _)

lemma Resolves.redirects_inv {file : Option String} (hp : Redirects file p)
    (h : Resolves (p >>= f) t) : t = .refused .exited ∨ Resolves (f ()) t := by
  rcases hp.cases_open with rfl | ⟨flags, lineNum, g, rfl, hg⟩
  · exact .inr h
  · exact (open_inv h).imp_right fun ⟨nfd, h⟩ => quiet_bind h (hg nfd).1

lemma Resolves.fork_inv {g : ℤ → Code} (h : Resolves (sys .fork >>= g) t) :
    ∃ child parent pid, t = .forked child parent ∧ pid ≠ 0 ∧ Resolves (g 0) child ∧
      Resolves (g pid) parent := by
  cases h with
  | quiet hc => exact hc.elim
  | forked pid hpid hc hp => exact ⟨_, _, pid, rfl, Int.ne_of_gt hpid, hc, hp⟩

lemma Resolves.execute_inv {newArgs : List String}
    (h : Resolves (execute args newArgs >>= f) t) :
    t = .executed args ∨ ∃ next, t = .failed args next ∧ Resolves (f ()) next := by
  cases h with
  | quiet hc => exact hc.elim
  | executed => exact .inl rfl
  | failed hn => exact .inr ⟨_, rfl, quiet_bind hn ⟨trivial, fun _ => trivial⟩⟩

lemma Resolves.waitForRest_inv {pid : ℤ} (h : Resolves (waitForRest pid >>= f) t) :
    t = .exited := by
  rw [waitForRest, Prog.bind_assoc] at h
  obtain ⟨_, hx⟩ := sys_inv h trivial
  exact exit_inv hx

/-- At a `|`, the process forks the rest of the pipeline and its own command, and exits. -/
lemma Resolves.bar_inv {u : String} {i : ℕ} {newArgs : Option (List String)} (hu : Bar u)
    (h : Resolves (isolateLoop args (u :: rest) i newArgs >>= f) t) :
    ∃ child command g newArgs', t = .forked child (.forked command .exited) ∧
      Resolves (isolateLoop rest rest 0 none >>= g) child ∧
      (command = .executed args ∨ ∃ next, command = .failed args next ∧
        Resolves (isolateLoop args rest (i + 1) newArgs' >>= f) next) := by
  rw [isolateLoop_bar _ _ hu, Prog.bind_assoc] at h
  obtain ⟨made, h⟩ := sys_inv h trivial
  rw [Prog.bind_assoc] at h
  replace h := quiet_bind h (quiet_onlyIf ⟨trivial, fun _ => trivial⟩)
  rw [Prog.bind_assoc] at h
  obtain ⟨child, parent, pid1, rfl, hpid1, hchild, hparent⟩ := fork_inv h
  rw [if_pos rfl, Prog.bind_assoc] at hchild
  replace hchild := quiet_bind hchild (quiet_pipeInputStdin _)
  rw [Prog.bind_assoc] at hchild
  rw [if_neg hpid1, Prog.bind_assoc] at hparent
  replace hparent := quiet_bind hparent (quiet_pipeOutput _ _)
  rw [Prog.bind_assoc] at hparent
  obtain ⟨command, parent, pid2, rfl, hpid2, hcommand, hparent⟩ := fork_inv hparent
  rw [if_pos rfl, Prog.bind_assoc] at hcommand
  rw [if_neg hpid2, Prog.bind_assoc] at hparent
  obtain ⟨_, hparent⟩ := sys_inv hparent trivial
  rw [Prog.bind_assoc] at hparent
  obtain ⟨_, hparent⟩ := sys_inv hparent trivial
  obtain rfl := waitForRest_inv hparent
  exact ⟨child, command, _, _, rfl, hchild, execute_inv hcommand⟩

/-- At the end of its tokens a process calls `execvp`; if that fails, it returns. -/
lemma Resolves.end_inv {i : ℕ} {newArgs : Option (List String)}
    (h : Resolves (isolateLoop args [] i newArgs >>= f) t) :
    t = .executed args ∨ ∃ next, t = .failed args (.back next) := by
  rw [isolateLoop, Prog.bind_assoc] at h
  rcases execute_inv h with rfl | ⟨next, rfl, hnext⟩
  · exact .inl rfl
  · cases hnext with
    | quiet hc => exact hc.elim
    | back hb => exact .inr ⟨_, rfl⟩

/-! ### At most one `execvp` for each stage -/

/-- From anywhere in the loop, an `open` fails and the process exits, or it tries the command of
its own stage. -/
lemma Resolves.refused_or_mem {i : ℕ} {newArgs : Option (List String)}
    (h : Resolves (isolateLoop args rest i newArgs >>= f) t) :
    t = .refused .exited ∨ ¬ t.StartsRefused ∧ args ∈ t.execs := by
  induction rest generalizing i newArgs with
  | nil =>
    rcases end_inv h with rfl | ⟨next, rfl⟩
    · simp [execs, StartsRefused]
    · simp [execs, StartsRefused]
  | cons u rest ih =>
    by_cases hu : Bar u
    · obtain ⟨child, command, _, _, rfl, -, hcommand⟩ := bar_inv hu h
      rcases hcommand with rfl | ⟨next, rfl, -⟩
      · simp [execs, StartsRefused]
      · simp [execs, StartsRefused]
    · obtain ⟨p, hp, heq⟩ := @isolateLoop_redirects args rest u i newArgs hu
      rw [heq, Prog.bind_assoc] at h
      rcases redirects_inv hp h with rfl | h'
      · exact .inl rfl
      · exact ih h'

/-- A process that goes on after a failing `execvp` returns, or tries a command again. -/
lemma Resolves.rescued {i : ℕ} {newArgs : Option (List String)}
    (h : Resolves (isolateLoop args rest i newArgs >>= f) t) (hback : t.NoReturn)
    (honce : t.execs.Nodup) : t.Rescued := by
  induction rest generalizing args i newArgs f t with
  | nil =>
    rcases end_inv h with rfl | ⟨next, rfl⟩
    · trivial
    · exact hback.elim
  | cons u rest ih =>
    by_cases hu : Bar u
    · obtain ⟨child, command, g, newArgs', rfl, hchild, hcommand⟩ := bar_inv hu h
      simp only [execs, List.append_nil, List.nodup_append] at honce
      refine ⟨ih hchild hback.1 honce.1, ?_, trivial⟩
      rcases hcommand with rfl | ⟨next, rfl, hnext⟩
      · trivial
      · rcases refused_or_mem hnext with rfl | ⟨-, hmem⟩
        · exact ⟨trivial, trivial⟩
        · exact absurd hmem (List.nodup_cons.mp honce.2.1).1
    · obtain ⟨p, hp, heq⟩ := @isolateLoop_redirects args rest u i newArgs hu
      rw [heq, Prog.bind_assoc] at h
      rcases redirects_inv hp h with rfl | h'
      · trivial
      · exact ih h' hback honce

/-- The stages of a pipeline are told apart by the number of tokens from there on. -/
lemma Resolves.once {i : ℕ} {newArgs : Option (List String)}
    (h : Resolves (isolateLoop args rest i newArgs >>= f) t) (hlen : rest.length ≤ args.length)
    (hfail : t.Rescued) :
    t.NoReturn ∧ t.execs.Nodup ∧ ∀ stage ∈ t.execs, stage = args ∨ stage.length < rest.length := by
  induction rest generalizing args i newArgs f t with
  | nil =>
    rcases end_inv h with rfl | ⟨next, rfl⟩
    · simp [execs, NoReturn]
    · simp [Rescued, StartsRefused] at hfail
  | cons u rest ih =>
    rw [List.length_cons] at hlen ⊢
    by_cases hu : Bar u
    · obtain ⟨child, command, g, newArgs', rfl, hchild, hcommand⟩ := bar_inv hu h
      obtain ⟨hback, honce, hstage⟩ := ih hchild (Nat.le_refl _) hfail.1
      have hshort : ∀ stage ∈ child.execs, stage.length ≤ rest.length := by
        intro stage hs
        rcases hstage stage hs with rfl | hlt
        · exact Nat.le_refl _
        · omega
      have hown : command.NoReturn ∧ command.execs = [args] := by
        rcases hcommand with rfl | ⟨next, rfl, hnext⟩
        · exact ⟨trivial, rfl⟩
        · rcases refused_or_mem hnext with rfl | ⟨hno, -⟩
          · exact ⟨trivial, rfl⟩
          · exact absurd hfail.2.1.1 hno
      refine ⟨⟨hback, hown.1, trivial⟩, ?_, ?_⟩
      · simp only [execs, hown.2, List.append_nil]
        refine List.nodup_append.mpr ⟨honce, by simp, ?_⟩
        intro stage hs own hown' heq
        rw [List.mem_singleton] at hown'
        have := hshort stage hs
        rw [heq, hown'] at this
        omega
      · intro stage hs
        simp only [execs, hown.2, List.append_nil, List.mem_append, List.mem_singleton] at hs
        rcases hs with hs | rfl
        · have := hshort stage hs
          exact .inr (by omega)
        · exact .inl rfl
    · obtain ⟨p, hp, heq⟩ := @isolateLoop_redirects args rest u i newArgs hu
      rw [heq, Prog.bind_assoc] at h
      rcases redirects_inv hp h with rfl | h'
      · simp [execs, NoReturn]
      · obtain ⟨hback, honce, hstage⟩ := ih h' (by omega) hfail
        exact ⟨hback, honce, fun stage hs => (hstage stage hs).imp_right fun hlt => by omega⟩

/-- No process returns from an `isolateRun`, and no stage's command is passed to `execvp`
twice. -/
def AtMostOnce (t : Tree) : Prop := t.NoReturn ∧ t.execs.Nodup

lemma Resolves.once_iff (h : Resolves (isolateRun args) t) : AtMostOnce t ↔ t.Rescued := by
  rw [isolateRun, ← bind_ret (isolateLoop args args 0 none)] at h
  refine ⟨fun hone => h.rescued hone.1 hone.2, fun hfail => ?_⟩
  obtain ⟨hback, honce, -⟩ := h.once (Nat.le_refl _) hfail
  exact ⟨hback, honce⟩

/-- **`forknRun`** comes back to the loop of `main`, and its child runs the pipeline. -/
theorem forknRun_atMostOnce (h : Resolves (forknRun args) t) :
    ∃ child, t = .forked child .returned ∧ Resolves (isolateRun args) child ∧
      (AtMostOnce child ↔ child.Rescued) := by
  obtain ⟨child, parent, pid, rfl, hpid, hchild, hparent⟩ := h.fork_inv
  rw [if_pos rfl] at hchild
  rw [if_neg hpid] at hparent
  obtain ⟨_, hreturn⟩ := hparent.quiet_inv trivial
  cases hreturn with
  | ret => exact ⟨child, rfl, hchild, hchild.once_iff⟩

/-- **At most one execution for each stage**: in a run of `isolateRun` it is so exactly if behind
each `execvp` that fails an `open` fails, before the process comes to another `execvp` or to a
`fork` or a return. -/
theorem atMostOnce_iff (args : List String) (t : Tree) (h : Resolves (isolateRun args) t) :
    AtMostOnce t ↔ t.Rescued := h.once_iff

theorem atMostOnce_iff_ls : AtMostOnce (.executed ["ls"]) ↔ (executed ["ls"]).Rescued :=
  atMostOnce_iff ["ls"] (.executed ["ls"]) .executed

/-- After a command that cannot be executed, the child of `forknRun` is back in the loop of
`main`. -/
theorem not_atMostOnce_nosuch :
    Resolves (isolateRun ["nosuch"]) (.failed ["nosuch"] (.back .returned)) ∧
      ¬ AtMostOnce (.failed ["nosuch"] (.back .returned)) := by
  refine ⟨.failed (.quiet trivial () (.back .ret)), ?_⟩
  rintro ⟨hback, -⟩
  exact hback

end Messaround.Shell
