import Mathlib.Data.Int.Notation
import Messaround.Lib.Prog

/-!
`isolateRun` and the functions it is made of, as programs over system calls.

A `char**` is the list of the strings up to its `NULL`. Both sides of a `fork` go on with the
same program, so a program says what each process does: the answer 0 of `fork` is the
child's. A call that does not return has an answer in `Empty`.
-/

namespace Messaround.Shell

inductive OpenFlag
  | O_RDONLY
  | O_RDWR
  | O_CREAT
  | O_APPEND
  deriving DecidableEq, Repr

inductive Syscall
  | openFile (filename : Option String) (flags : List OpenFlag)
  /-- Reading the variable `errno`. -/
  | errno
  | dup2 (fd newfd : ℤ)
  | close (fd : ℤ)
  | pipe
  | fork
  | waitpid (pid : ℤ)
  /-- `stage` is the list given to the `isolateRun` that makes the call, and says whose
  command it is. -/
  | execvp (command : Option String) (argv stage : List String)
  | exit (status : ℤ)
  /-- Writing to the standard error stream; `perror` adds the text of `errno`. -/
  | eprint (text : String)
  /-- No system call: marks that an `isolateRun` returns to its caller. -/
  | back

/-- `pipe` answers its result and the two descriptors, `execvp` only if it has failed. -/
abbrev Answer : Syscall → Type
  | .openFile _ _ => ℤ
  | .errno => ℤ
  | .dup2 _ _ => ℤ
  | .close _ => ℤ
  | .pipe => ℤ × ℤ × ℤ
  | .fork => ℤ
  | .waitpid _ => ℤ
  | .execvp _ _ _ => ℤ
  | .exit _ => Empty
  | .eprint _ => Unit
  | .back => Unit

abbrev Code := Prog Answer Unit

/-- The program that makes one system call. -/
def sys (c : Syscall) : Prog Answer (Answer c) := Prog.perform c

/-- An `if` without an `else`. -/
def onlyIf (c : Prop) [Decidable c] (p : Code) : Code := if c then p else pure ()

def STDIN_FILENO : ℤ := 0
def STDOUT_FILENO : ℤ := 1
def STDERR_FILENO : ℤ := 2

def exit (status : ℤ) : Code := do
  let never ← sys (.exit status)
  nomatch never

def printError (error : String) (lineNum : ℕ) : Code :=
  sys (.eprint (error ++ " on line " ++ toString lineNum ++ "\n"))

/-- The wrapper of `execvp`, for the command `args[0]`. -/
def execute (args newArgs : List String) : Code := do
  let _ ← sys (.execvp args.head? newArgs args)
  printError "Error executing command" 60

def pipeOutputStdout (fd : ℤ × ℤ) : Code := do
  let _ ← sys (.close fd.1)
  let _ ← sys (.close STDOUT_FILENO)
  let ret ← sys (.dup2 fd.2 STDOUT_FILENO)
  onlyIf (ret < 0) (printError "Error" 73)
  let _ ← sys (.close fd.2)

def pipeOutputStdoutAndStderr (fd : ℤ × ℤ) : Code := do
  let _ ← sys (.close fd.1)
  let _ ← sys (.close STDOUT_FILENO)
  let _ ← sys (.close STDERR_FILENO)
  let ret ← sys (.dup2 fd.2 STDOUT_FILENO)
  let ret' ← sys (.dup2 fd.2 STDERR_FILENO)
  -- the `|=` of two results is negative if one of them is
  onlyIf (ret < 0 ∨ ret' < 0) (printError "Error" 90)
  let _ ← sys (.close fd.2)

def pipeInputStdin (fd : ℤ × ℤ) : Code := do
  let _ ← sys (.close fd.2)
  let _ ← sys (.close STDIN_FILENO)
  let ret ← sys (.dup2 fd.1 STDIN_FILENO)
  onlyIf (ret < 0) (printError "Error" 105)
  let _ ← sys (.close fd.1)

/-- What both `redirect` functions do if the file cannot be opened. -/
def openFailed (filename : Option String) (lineNum : ℕ) : Code := do
  sys (.eprint ("There was a problem opening file '" ++ filename.getD "(null)" ++
    "' in fnct redirect on line " ++ toString lineNum ++ "\nExiting...\n"))
  let errno ← sys .errno
  exit errno

def redirect (filename : Option String) (fd : ℤ) (flags : List OpenFlag) : Code := do
  let nfd ← sys (.openFile filename flags)
  onlyIf (nfd < 0) (openFailed filename 120)
  let ret ← sys (.dup2 nfd fd)
  onlyIf (ret < 0) (printError "Error" 125)
  let _ ← sys (.close nfd)

def redirect2 (filename : Option String) (fd1 fd2 : ℤ) (flags : List OpenFlag) : Code := do
  let nfd ← sys (.openFile filename flags)
  onlyIf (nfd < 0) (openFailed filename 141)
  let ret ← sys (.dup2 nfd fd1)
  -- the second `dup2` is only made if the first is not at fault
  (if ret < 0 then printError "Error" 145
    else do
      let ret' ← sys (.dup2 nfd fd2)
      onlyIf (ret' < 0) (printError "Error" 145))
  let _ ← sys (.close nfd)

/-- The end of a process that has run the `|` branch: it waits for the rest of the pipeline. -/
def waitForRest (pid1 : ℤ) : Code := do
  let _ ← sys (.waitpid pid1)
  exit 0

/-- The `for` loop of `isolateRun` at index `i`, where `rest` is `args` from there on, and the
call after it; `newArgs` is `none` while it is `args`. -/
def isolateLoop (args : List String) : List String → ℕ → Option (List String) → Code
  | [], _, newArgs => do
    execute args (newArgs.getD args)
    sys .back
  | t :: rest, i, newArgs =>
    if t = "<" then do
      redirect rest.head? STDIN_FILENO [.O_RDONLY]
      isolateLoop args rest (i + 1) (some (args.take i))
    else if t = ">" then do
      redirect rest.head? STDOUT_FILENO [.O_RDWR, .O_CREAT]
      isolateLoop args rest (i + 1) (newArgs <|> some (args.take i))
    else if t = ">>" then do
      redirect rest.head? STDOUT_FILENO [.O_RDWR, .O_CREAT, .O_APPEND]
      isolateLoop args rest (i + 1) (newArgs <|> some (args.take i))
    else if t = ">&" then do
      redirect2 rest.head? STDOUT_FILENO STDERR_FILENO [.O_RDWR, .O_CREAT]
      isolateLoop args rest (i + 1) (newArgs <|> some (args.take i))
    else if t = ">>&" then do
      redirect2 rest.head? STDERR_FILENO STDOUT_FILENO [.O_RDWR, .O_CREAT, .O_APPEND]
      isolateLoop args rest (i + 1) (newArgs <|> some (args.take i))
    else if t = "|" ∨ t = "|&" then do
      let newArgs := newArgs <|> some (args.take i)
      let made ← sys .pipe
      let fd := made.2
      onlyIf (made.1 ≠ 0) (sys (.eprint "Problem creating pipe\n"))
      let pid1 ← sys .fork
      if pid1 = 0 then
        pipeInputStdin fd
        -- `rest` is the copy `sub` of what follows the `|`
        isolateLoop rest rest 0 none
        isolateLoop args rest (i + 1) newArgs
      else
        (if t = "|&" then pipeOutputStdoutAndStderr fd else pipeOutputStdout fd)
        let pid2 ← sys .fork
        if pid2 = 0 then
          execute args (newArgs.getD args)
          isolateLoop args rest (i + 1) newArgs
        else
          let _ ← sys (.waitpid pid2)
          let _ ← sys (.close fd.2)
          waitForRest pid1
    else isolateLoop args rest (i + 1) newArgs

def isolateRun (args : List String) : Code := isolateLoop args args 0 none

/-- The tokens that cut a pipeline into its stages. -/
abbrev Bar (t : String) : Prop := t = "|" ∨ t = "|&"

/-- What the loop does at a token that is no `|`, where `file` is the next token. -/
inductive Redirects (file : Option String) : Code → Prop
  | word : Redirects file (pure ())
  | one (fd : ℤ) (flags : List OpenFlag) (hfd : 0 ≤ fd ∧ fd ≤ 2) :
      Redirects file (redirect file fd flags)
  | two (fd1 fd2 : ℤ) (flags : List OpenFlag) (hfd1 : 0 ≤ fd1 ∧ fd1 ≤ 2)
      (hfd2 : 0 ≤ fd2 ∧ fd2 ≤ 2) : Redirects file (redirect2 file fd1 fd2 flags)

/-- The tokens whose branch opens a file. -/
abbrev Operator (t : String) : Prop := t = "<" ∨ t = ">" ∨ t = ">>" ∨ t = ">&" ∨ t = ">>&"

/-- `newArgs` after the token `u` at index `i`. -/
def cutAt (args : List String) (i : ℕ) (newArgs : Option (List String)) (u : String) :
    Option (List String) :=
  if u = "<" then some (args.take i)
  else if Operator u then newArgs <|> some (args.take i)
  else newArgs

lemma isolateLoop_redirects {args rest : List String} {u : String} (i : ℕ)
    (newArgs : Option (List String)) (hu : ¬ Bar u) :
    ∃ p, Redirects rest.head? p ∧ isolateLoop args (u :: rest) i newArgs =
      p >>= fun _ => isolateLoop args rest (i + 1) (cutAt args i newArgs u) := by
  rw [isolateLoop, cutAt]
  by_cases h1 : u = "<"
  · exact ⟨_, .one STDIN_FILENO _ (by decide), by rw [if_pos h1, if_pos h1]⟩
  rw [if_neg h1, if_neg h1]
  by_cases h2 : u = ">"
  · exact ⟨_, .one STDOUT_FILENO _ (by decide), by rw [if_pos h2, if_pos (by simp [Operator, h2])]⟩
  rw [if_neg h2]
  by_cases h3 : u = ">>"
  · exact ⟨_, .one STDOUT_FILENO _ (by decide), by rw [if_pos h3, if_pos (by simp [Operator, h3])]⟩
  rw [if_neg h3]
  by_cases h4 : u = ">&"
  · exact ⟨_, .two STDOUT_FILENO STDERR_FILENO _ (by decide) (by decide),
      by rw [if_pos h4, if_pos (by simp [Operator, h4])]⟩
  rw [if_neg h4]
  by_cases h5 : u = ">>&"
  · exact ⟨_, .two STDERR_FILENO STDOUT_FILENO _ (by decide) (by decide),
      by rw [if_pos h5, if_pos (by simp [Operator, h5])]⟩
  rw [if_neg h5, if_neg hu, if_neg (by simp [Operator, h1, h2, h3, h4, h5])]
  exact ⟨_, .word, rfl⟩

lemma isolateLoop_bar {args rest : List String} {u : String} (i : ℕ)
    (newArgs : Option (List String)) (hu : Bar u) :
    isolateLoop args (u :: rest) i newArgs = (do
      let newArgs := newArgs <|> some (args.take i)
      let made ← sys .pipe
      let fd := made.2
      onlyIf (made.1 ≠ 0) (sys (.eprint "Problem creating pipe\n"))
      let pid1 ← sys .fork
      if pid1 = 0 then
        pipeInputStdin fd
        isolateLoop rest rest 0 none
        isolateLoop args rest (i + 1) newArgs
      else
        (if u = "|&" then pipeOutputStdoutAndStderr fd else pipeOutputStdout fd)
        let pid2 ← sys .fork
        if pid2 = 0 then
          execute args (newArgs.getD args)
          isolateLoop args rest (i + 1) newArgs
        else
          let _ ← sys (.waitpid pid2)
          let _ ← sys (.close fd.2)
          waitForRest pid1) := by
  rcases hu with rfl | rfl
  · rw [isolateLoop]
    simp
  · rw [isolateLoop]
    simp

/-- The child's return leads back into the loop of `main`, as the parent's does. -/
def forknRun (args : List String) : Code := do
  let pid ← sys .fork
  if pid = 0 then isolateRun args
  else
    let _ ← sys (.waitpid pid)

end Messaround.Shell
