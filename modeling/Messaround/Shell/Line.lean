import Mathlib.Data.List.Basic
import Mathlib.Tactic.Common

/-!
The loop of `main` over one line of tokens.

`get_args` hands out one static array: the tokens of the line, a `NULL`, and behind it what
earlier lines left there. A pointer into the array is the list of the entries from there to
the end of the array, so `args = &args[k]` drops `k` entries. A read behind the array, and a
walk that never meets a `NULL`, have no result.
-/

namespace Messaround.Shell

/-- The array entries from a pointer on; `none` is `NULL`. -/
abbrev Args := List (Option String)

/-- What `main` does for a line: the system call `chdir`, or a call of `forknRun`. -/
inductive Action
  | chdir (dir : String)
  | forknRun (args : List String)
  deriving DecidableEq, Repr

/-- The strings up to the first `NULL`, which is what a `char**` argument stands for. -/
def toNull : Args → Option (List String)
  | [] => none
  | none :: _ => some []
  | some t :: r => (toNull r).map (t :: ·)

/-- The copies of the entries `[start, stop)`; there is no copying a `NULL`. -/
def subarray (args : Args) (start stop : ℕ) : Option (List String) :=
  ((args.drop start).take (stop - start)).mapM id

/-- The `for` loop of `main` at index `i` from the base `args`, and the call after it. -/
def loop (home : String) (args : Args) (i : ℕ) : Option (List Action) :=
  if h : i < args.length then
    match args[i] with
    | none =>
      match args[0]? with
      | some (some _) => (toNull args).map fun a => [.forknRun a]
      | _ => some []
    | some t =>
      if t = "cd" then
        match args[i + 1]? with
        | none => none
        | some none => (loop home (args.drop (i + 1)) 0).map (.chdir home :: ·)
        | some (some d) =>
          if d = ";" then (loop home (args.drop (i + 2)) 0).map (.chdir home :: ·)
          else
            -- `args` has moved on and `i` is `-1`, so `args[i+2]` is entry 1 from the new base
            match (args.drop (i + 2))[1]? with
            | none => none
            | some e =>
              if e = some ";" then (loop home (args.drop (i + 4)) 0).map (.chdir d :: ·)
              else (loop home (args.drop (i + 2)) 0).map (.chdir d :: ·)
      else if t = ";" then
        (subarray args 0 i).bind fun sub =>
          (loop home (args.drop (i + 1)) 0).map (.forknRun sub :: ·)
      else loop home args (i + 1)
  else none
termination_by 2 * args.length - i
decreasing_by all_goals first | omega | (simp only [List.length_drop]; omega)

/-- What `main` does with the array that `get_args` returned. -/
def mainLine (home : String) (args : Args) : Option (List Action) :=
  match args[0]? with
  | none => none
  | some none => some []
  | some (some t) => if t = "exit" then some [] else loop home args 0

/-- The array after a line with these tokens, over what earlier lines left behind. -/
def getArgs (tokens : List String) (left : Args) : Args := tokens.map some ++ none :: left

/-! ### The loop up to its first action -/

variable {home : String} {args left : Args} {a : List String}

lemma getArgs_cons (t : String) (r : List String) (left : Args) :
    getArgs (t :: r) left = some t :: getArgs r left := rfl

lemma getArgs_nil (left : Args) : getArgs [] left = none :: left := rfl

lemma getArgs_append (a : List String) (t : String) (r : List String) (left : Args) :
    getArgs (a ++ t :: r) left = a.map some ++ some t :: getArgs r left := by
  simp [getArgs]

lemma toNull_append (a : List String) (left : Args) :
    toNull (a.map some ++ none :: left) = some a := by
  induction a with
  | nil => rfl
  | cons t a ih => simp [toNull, ih]

lemma subarray_append (a : List String) (rest : Args) :
    subarray (a.map some ++ rest) 0 a.length = some a := by
  have htake : (a.map some ++ rest).take a.length = a.map some := by simp
  rw [subarray, List.drop_zero, Nat.sub_zero, htake]
  induction a with
  | nil => rfl
  | cons t a ih => simp_all

lemma drop_passed (a : List String) (rest : Args) (k : ℕ) :
    (a.map some ++ rest).drop (a.length + k) = rest.drop k := by
  rw [List.drop_append, List.drop_eq_nil_of_le (by simp), List.length_map, List.nil_append,
    Nat.add_sub_cancel_left]

/-- A token with no meaning to the loop. -/
def Plain (t : String) : Prop := t ≠ "cd" ∧ t ≠ ";"

lemma loop_plain (rest : Args) (b : List String) (ha : ∀ t ∈ a, Plain t) :
    loop home ((b ++ a).map some ++ rest) b.length =
      loop home ((b ++ a).map some ++ rest) (b ++ a).length := by
  induction a generalizing b with
  | nil => simp
  | cons t a ih =>
    obtain ⟨hcd, hsemi⟩ := ha t (List.mem_cons_self)
    have hnext := ih (b ++ [t]) fun u hu => ha u (List.mem_cons_of_mem _ hu)
    rw [List.append_assoc, List.singleton_append] at hnext
    rw [← hnext, loop]
    simp [hcd, hsemi]

lemma loop_reach (rest : Args) (ha : ∀ t ∈ a, Plain t) :
    loop home (a.map some ++ rest) 0 = loop home (a.map some ++ rest) a.length := by
  have h := @loop_plain home a rest [] ha
  simpa using h

lemma loop_end (ha : ∀ t ∈ a, Plain t) :
    loop home (getArgs a left) 0 = some (if a = [] then [] else [.forknRun a]) := by
  rw [getArgs, loop_reach _ ha, loop]
  cases a with
  | nil => simp
  | cons t a =>
    have hall : toNull (some t :: (a.map some ++ none :: left)) = some (t :: a) :=
      toNull_append (t :: a) left
    simp [hall]

lemma loop_semi (rest : Args) (ha : ∀ t ∈ a, Plain t) :
    loop home (a.map some ++ some ";" :: rest) 0 = (loop home rest 0).map (.forknRun a :: ·) := by
  rw [loop_reach _ ha, loop]
  simp [subarray_append, drop_passed]

lemma loop_cd_null (ha : ∀ t ∈ a, Plain t) :
    loop home (a.map some ++ some "cd" :: none :: left) 0 = some [.chdir home] := by
  have hend : loop home (getArgs [] left) 0 = some [] := loop_end (by simp)
  rw [loop_reach _ ha, loop]
  simpa [getArgs, drop_passed] using hend

lemma loop_cd_semi (rest : Args) (ha : ∀ t ∈ a, Plain t) :
    loop home (a.map some ++ some "cd" :: some ";" :: rest) 0 =
      (loop home rest 0).map (.chdir home :: ·) := by
  rw [loop_reach _ ha, loop]
  simp [drop_passed]

/-- After `cd d` the entry behind the next one decides where the loop goes on. -/
lemma loop_cd_dir {d : String} (rest : Args) (ha : ∀ t ∈ a, Plain t) (hd : d ≠ ";") :
    loop home (a.map some ++ some "cd" :: some d :: rest) 0 =
      rest[1]?.bind fun e =>
        (loop home (if e = some ";" then rest.drop 2 else rest) 0).map (.chdir d :: ·) := by
  rw [loop_reach _ ha, loop]
  cases hr : rest[1]? with
  | none => simp [drop_passed, hd, hr]
  | some e =>
    by_cases he : e = some ";"
    all_goals simp [drop_passed, hd, hr, he]

lemma loop_cd_first {rest : Args} {acts : List Action} (ha : ∀ t ∈ a, Plain t)
    (hl : loop home (a.map some ++ some "cd" :: rest) 0 = some acts) :
    ∃ dir r, acts = .chdir dir :: r := by
  rcases rest with - | ⟨- | d, rest⟩
  · rw [loop_reach _ ha, loop] at hl
    simp at hl
  · rw [loop_cd_null ha, Option.some.injEq] at hl
    exact ⟨home, [], hl.symm⟩
  · by_cases hd : d = ";"
    · rw [hd, loop_cd_semi _ ha, Option.map_eq_some_iff] at hl
      obtain ⟨r, -, hr⟩ := hl
      exact ⟨home, r, hr.symm⟩
    · rw [loop_cd_dir _ ha hd, Option.bind_eq_some_iff] at hl
      obtain ⟨e, -, hm⟩ := hl
      obtain ⟨r, -, hr⟩ := Option.map_eq_some_iff.mp hm
      exact ⟨d, r, hr.symm⟩

lemma loop_ne_nil {t : String} (i : ℕ) (h0 : args[0]? = some (some t)) :
    loop home args i ≠ some [] := by
  fun_induction loop home args i
  all_goals simp_all [Option.bind_eq_some_iff]

lemma loop_nil_iff (args : Args) : loop home args 0 = some [] ↔ args.head? = some none := by
  rcases args with - | ⟨- | t, r⟩
  · rw [loop]
    simp
  · have hend : loop home (getArgs [] r) 0 = some [] := loop_end (by simp)
    simpa [getArgs] using hend
  · have hne : loop home (some t :: r) 0 ≠ some [] := loop_ne_nil 0 rfl
    simpa using hne

lemma mainLine_eq_loop {t : String} {r : List String} (ht : t ≠ "exit") :
    mainLine home (getArgs (t :: r) left) = loop home (getArgs (t :: r) left) 0 := by
  simp [mainLine, getArgs, ht]

end Messaround.Shell
