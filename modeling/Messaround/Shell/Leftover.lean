import Messaround.Shell.Line

/-!
What earlier lines left in the array of `get_args`, and when the loop of `main` reads it.

Only a `cd` with its directory at the end of the line leads the loop behind the `NULL`: the
base is then at the `NULL`, and the entry behind it is compared with `;`.
-/

namespace Messaround.Shell

variable {home : String} {a tokens r : List String}

/-- The loop meets a `cd` with a directory at the very end of the line. -/
def PastEnd : List String → Prop
  | [] => False
  | t :: r =>
    if t = "cd" then
      match r with
      | [] => False
      | d :: r' =>
        if d = ";" then PastEnd r'
        else
          match r' with
          | [] => True
          | x :: y :: r'' => if y = ";" then PastEnd r'' else PastEnd (x :: y :: r'')
          | _ => False
    else PastEnd r

lemma plain_split (tokens : List String) :
    (∀ t ∈ tokens, Plain t) ∨
      ∃ a t r, tokens = a ++ t :: r ∧ (∀ u ∈ a, Plain u) ∧ (t = "cd" ∨ t = ";") := by
  induction tokens with
  | nil => simp
  | cons t r ih =>
    by_cases ht : Plain t
    · rcases ih with h | ⟨a, u, r', rfl, ha, hu⟩
      · exact .inl (List.forall_mem_cons.mpr ⟨ht, h⟩)
      · exact .inr ⟨t :: a, u, r', rfl, List.forall_mem_cons.mpr ⟨ht, ha⟩, hu⟩
    · refine .inr ⟨[], t, r, rfl, by simp, ?_⟩
      unfold Plain at ht
      by_contra hne
      exact ht (not_or.mp hne)

lemma pastEnd_cons {t : String} (ht : t ≠ "cd") : PastEnd (t :: r) ↔ PastEnd r := by
  rw [PastEnd.eq_def]
  simp [ht]

lemma pastEnd_cd_semi : PastEnd ("cd" :: ";" :: r) ↔ PastEnd r := by
  rw [PastEnd.eq_def]
  simp

lemma pastEnd_cd_last {d : String} (hd : d ≠ ";") : PastEnd ["cd", d] := by
  rw [PastEnd.eq_def]
  simp [hd]

lemma not_pastEnd_one (t : String) : ¬ PastEnd [t] := by
  rw [PastEnd.eq_def]
  simp [PastEnd]

lemma not_pastEnd_cd_dir {d x : String} : ¬ PastEnd ["cd", d, x] := by
  rw [PastEnd.eq_def]
  simp [not_pastEnd_one]

lemma pastEnd_cd_dir {d x y : String} (hd : d ≠ ";") :
    PastEnd ("cd" :: d :: x :: y :: r) ↔ PastEnd (if y = ";" then r else x :: y :: r) := by
  rw [PastEnd.eq_def]
  by_cases hy : y = ";"
  all_goals simp [hd, hy]

lemma pastEnd_append (ha : ∀ t ∈ a, Plain t) : PastEnd (a ++ r) ↔ PastEnd r := by
  induction a with
  | nil => rfl
  | cons t a ih =>
    rw [List.forall_mem_cons] at ha
    rw [List.cons_append, pastEnd_cons ha.1.1, ih ha.2]

/-- Inside the line the entry behind the next token does not depend on the leftovers. -/
lemma loop_cd_dir_line {d x y : String} (ha : ∀ t ∈ a, Plain t) (hd : d ≠ ";") :
    loop home (a.map some ++ some "cd" :: some d :: getArgs (x :: y :: r) left) 0 =
      (loop home (getArgs (if y = ";" then r else x :: y :: r) left) 0).map (.chdir d :: ·) := by
  rw [loop_cd_dir _ ha hd, getArgs_cons, getArgs_cons]
  by_cases hy : y = ";"
  all_goals simp [hy, getArgs_cons]

lemma loop_cd_dir_one {d x : String} (ha : ∀ t ∈ a, Plain t) (hd : d ≠ ";") :
    loop home (a.map some ++ some "cd" :: some d :: getArgs [x] left) 0 =
      (loop home (getArgs [x] left) 0).map (.chdir d :: ·) := by
  rw [loop_cd_dir _ ha hd]
  simp [getArgs]

/-- What the loop does with the leftovers after a final `cd d`. -/
def behind (home : String) (left : Args) : Option (List Action) :=
  left.head?.bind fun e => loop home (if e = some ";" then left.tail else none :: left) 0

/-- An outcome for every content of the leftovers: `acts`, and behind them, if `past`, what
the loop does with the leftovers. -/
def Leads (home : String) (past : Prop) (acts : List Action) (f : Args → Option (List Action)) :
    Prop :=
  (past → ∀ left, f left = (behind home left).map (acts ++ ·)) ∧
    (¬ past → ∀ left, f left = some acts)

lemma Leads.map {past : Prop} {acts : List Action} {f : Args → Option (List Action)}
    (h : Leads home past acts f) (x : Action) :
    Leads home past (x :: acts) fun left => (f left).map (x :: ·) := by
  refine ⟨fun hp left => ?_, fun hp left => ?_⟩
  · simp [h.1 hp left, Function.comp_def]
  · simp [h.2 hp left]

/-- The line decides what is done up to its `NULL`, and whether the loop goes behind it. -/
lemma leads (home : String) (tokens : List String) :
    ∃ acts, Leads home (PastEnd tokens) acts fun left => loop home (getArgs tokens left) 0 := by
  induction hn : tokens.length using Nat.strongRecOn generalizing tokens with
  | ind n ih =>
    rcases plain_split tokens with ha | ⟨a, t, r, rfl, ha, ht⟩
    · have hnot : ¬ PastEnd tokens := by
        simpa [PastEnd] using (pastEnd_append (r := []) ha).not
      exact ⟨_, fun hp => absurd hp hnot, fun _ left => loop_end ha⟩
    rw [List.length_append, List.length_cons] at hn
    simp only [getArgs_append, pastEnd_append ha]
    rcases ht with rfl | rfl
    · rcases r with - | ⟨d, r⟩
      · exact ⟨_, fun hp => absurd hp (not_pastEnd_one _), fun _ left => loop_cd_null ha⟩
      rw [List.length_cons] at hn
      simp only [getArgs_cons]
      by_cases hd : d = ";"
      · subst hd
        obtain ⟨acts, hacts⟩ := ih _ (by omega) r rfl
        simp only [pastEnd_cd_semi, loop_cd_semi _ ha]
        exact ⟨_, hacts.map _⟩
      rcases r with - | ⟨x, - | ⟨y, r⟩⟩
      · refine ⟨[.chdir d], fun _ left => ?_, fun hp => absurd (pastEnd_cd_last hd) hp⟩
        dsimp only
        rw [getArgs_nil, loop_cd_dir _ ha hd]
        rcases left with - | ⟨e, left⟩
        · rfl
        · by_cases he : e = some ";"
          all_goals simp [behind, he]
      · obtain ⟨acts, hacts⟩ := ih _ (by simp at hn ⊢; omega) [x] rfl
        refine ⟨.chdir d :: acts, fun hp => absurd hp not_pastEnd_cd_dir, fun _ left => ?_⟩
        dsimp only
        rw [loop_cd_dir_one ha hd]
        exact (hacts.map _).2 (not_pastEnd_one x) left
      · obtain ⟨acts, hacts⟩ := ih _ (by split <;> simp at hn ⊢ <;> omega)
          (if y = ";" then r else x :: y :: r) rfl
        simp only [pastEnd_cd_dir hd, loop_cd_dir_line ha hd]
        exact ⟨_, hacts.map _⟩
    · obtain ⟨acts, hacts⟩ := ih _ (by omega) r rfl
      simp only [pastEnd_cons (show ";" ≠ "cd" by decide), loop_semi _ ha]
      exact ⟨_, hacts.map _⟩

lemma behind_null : behind home [none, none, none] = some [] := by
  simp [behind, loop_nil_iff]

lemma behind_semi : behind home [some ";", some "ls", none] = some [.forknRun ["ls"]] := by
  have hls : ∀ t ∈ ["ls"], Plain t := by simp [Plain]
  have hend : loop home (getArgs ["ls"] []) 0 = some [.forknRun ["ls"]] := by
    simpa using loop_end hls
  simpa [behind, getArgs] using hend

lemma leftover_iff_of_ne_exit (hexit : tokens.head? ≠ some "exit") :
    (∀ left left' : Args, left.length = left'.length →
      mainLine home (getArgs tokens left) = mainLine home (getArgs tokens left')) ↔
        ¬ PastEnd tokens := by
  rcases tokens with - | ⟨t, r⟩
  · simp [mainLine, getArgs, PastEnd]
  · have ht : t ≠ "exit" := by simpa using hexit
    simp only [mainLine_eq_loop ht]
    obtain ⟨acts, hpast, hsame⟩ := leads home (t :: r)
    refine ⟨fun h hp => ?_, fun hp left left' _ => (hsame hp left).trans (hsame hp left').symm⟩
    have hsame := h [none, none, none] [some ";", some "ls", none] rfl
    have hdiff := (hpast hp _).symm.trans (hsame.trans (hpast hp _))
    rw [behind_null, behind_semi] at hdiff
    simp at hdiff

/-- **The leftovers of earlier lines**: whatever they are, the loop of `main` performs the
same actions, exactly if the line is `exit` or no `cd` with a directory ends it. -/
theorem leftover_iff (home : String) (tokens : List String) :
    (∀ left left' : Args, left.length = left'.length →
      mainLine home (getArgs tokens left) = mainLine home (getArgs tokens left')) ↔
        tokens.head? = some "exit" ∨ ¬ PastEnd tokens := by
  by_cases hexit : tokens.head? = some "exit"
  · refine iff_of_true (fun left left' _ => ?_) (.inl hexit)
    rcases tokens with - | ⟨t, r⟩
    · simp at hexit
    · simp only [List.head?_cons, Option.some.injEq] at hexit
      simp [mainLine, getArgs, hexit]
  · rw [leftover_iff_of_ne_exit hexit, or_iff_right hexit]

/-- On `cd dir` after the line `cat first second ; ls` the loop runs `ls` again. -/
theorem not_leftover_cd_dir :
    mainLine "/" (getArgs ["cd", "dir"] [some ";", some "ls", none]) =
      some [.chdir "dir", .forknRun ["ls"]] ∧
    mainLine "/" (getArgs ["cd", "dir"] [none, none, none]) = some [.chdir "dir"] := by
  refine ⟨?_, ?_⟩
  · simp [mainLine, getArgs, loop, toNull]
  · simp [mainLine, getArgs, loop]

end Messaround.Shell
