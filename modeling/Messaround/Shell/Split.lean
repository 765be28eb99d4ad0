import Messaround.Shell.Line

/-!
The loop of `main` against its reference: cut the line at the `;` tokens and take each piece
for itself.

The loop does what the reference does, and more. A `;` at the base is an empty command, and
after `cd d` the loop looks for the `;` one entry too far: it finds it there only if one more
token, or an empty piece, is in between. So the actions of the loop are at least as many as
those of the reference, and a line that is not clean leads to one too many, or to a `chdir`
where the reference runs a command.
-/

namespace Messaround.Shell

variable {home : String} {left : Args} {a b p : List String} {ps : List (List String)}

/-- What the line's reference does for a nonempty piece. -/
def pieceAction (home : String) : List String → Action
  | [] => .forknRun []
  | t :: r => if t = "cd" then .chdir (r.head?.getD home) else .forknRun (t :: r)

/-- One action for each nonempty piece. -/
def pieceActions (home : String) (ps : List (List String)) : List Action :=
  (ps.filter fun p => p ≠ []).map (pieceAction home)

/-- The reference: cut the line at the `;` tokens, skip empty pieces, take each other piece
for a `cd` or a command. -/
def reference (home : String) (tokens : List String) : List Action :=
  pieceActions home (tokens.splitOn ";")

/-- The array with a line of these pieces. -/
def joined (ps : List (List String)) (left : Args) : Args := getArgs ([";"].intercalate ps) left

@[simp] lemma joined_nil : joined [[]] left = none :: left := rfl

@[simp] lemma joined_cons (t : String) :
    joined ((t :: p) :: ps) left = some t :: joined (p :: ps) left := by
  simp [joined, getArgs]

@[simp] lemma joined_semi (q : List String) :
    joined ([] :: q :: ps) left = some ";" :: joined (q :: ps) left := by
  simp [joined, getArgs]

lemma joined_append : joined ((a ++ p) :: ps) left = a.map some ++ joined (p :: ps) left := by
  induction a with
  | nil => rfl
  | cons t a ih => simp [ih]

/-- The loop continues at these pieces after `cd d`, with `b` the rest of the piece. -/
def goOn : List String → List (List String) → List (List String)
  | [], [] :: q :: ps => q :: ps
  | [_], q :: ps => q :: ps
  | b, ps => b :: ps

/-- The leftovers do not show up after a final `cd d`: the walk is back at the `NULL`, or
skips over it to another one. -/
def Tame : Args → Prop
  | [] => False
  | e :: r => e = some ";" → r.head? = some none

lemma goOn_nil {q : List String} (h : ¬ (q = [] ∧ ps ≠ [])) :
    goOn [] (q :: ps) = [] :: q :: ps := by
  rcases q with - | ⟨t, q⟩
  · rcases ps with - | ⟨r, ps⟩
    · rfl
    · simp at h
  · rfl

lemma loop_cd_joined {d : String} (ha : ∀ t ∈ a, Plain t) (hd : d ≠ ";")
    (hps : ∀ p ∈ b :: ps, ";" ∉ p) (h : ¬ (b = [] ∧ ps = [])) :
    loop home (joined ((a ++ "cd" :: d :: b) :: ps) left) 0 =
      (loop home (joined (goOn b ps) left) 0).map (.chdir d :: ·) := by
  rw [joined_append, joined_cons, joined_cons, loop_cd_dir _ ha hd]
  rcases b with - | ⟨x, - | ⟨y, b⟩⟩
  · rcases ps with - | ⟨- | ⟨t, q⟩, - | ⟨r, ps⟩⟩
    · simp at h
    · simp [goOn]
    · simp [goOn]
    · have ht : t ≠ ";" := fun ht => hps (t :: q) (by simp) (by simp [ht])
      simp [goOn, ht]
    · have ht : t ≠ ";" := fun ht => hps (t :: q) (by simp) (by simp [ht])
      simp [goOn, ht]
  · rcases ps with - | ⟨q, ps⟩
    · simp [goOn]
    · simp [goOn]
  · have hy : y ≠ ";" := fun hy => hps (x :: y :: b) (by simp) (by simp [hy])
    simp [goOn, hy]

lemma loop_cd_here {d : String} (hd : d ≠ ";") (hps : ∀ p ∈ b :: ps, ";" ∉ p)
    (h : ¬ (b = [] ∧ ps = [])) :
    loop home (joined (("cd" :: d :: b) :: ps) left) 0 =
      (loop home (joined (goOn b ps) left) 0).map (.chdir d :: ·) :=
  loop_cd_joined (a := []) (by simp) hd hps h

/-- Every outcome there is has at least `n` actions. -/
def AtLeast (n : ℕ) (r : Option (List Action)) : Prop := ∀ acts, r = some acts → n ≤ acts.length

lemma AtLeast.map {n : ℕ} {r : Option (List Action)} (hr : AtLeast n r) (x : Action) :
    AtLeast (n + 1) (r.map (x :: ·)) := by
  intro acts hacts
  obtain ⟨acts', hr', rfl⟩ := Option.map_eq_some_iff.mp hacts
  simpa using hr acts' hr'

@[simp] lemma pieceActions_nil : pieceActions home [] = [] := rfl

@[simp] lemma pieceActions_skip : pieceActions home ([] :: ps) = pieceActions home ps := by
  simp [pieceActions]

@[simp] lemma pieceActions_cons (t : String) :
    pieceActions home ((t :: p) :: ps) = pieceAction home (t :: p) :: pieceActions home ps := by
  simp [pieceActions]

lemma length_pieceActions_le :
    (pieceActions home (p :: ps)).length ≤ (pieceActions home ps).length + 1 := by
  rcases p with - | ⟨t, p⟩
  · simp
  · simp

lemma length_goOn : (pieceActions home ps).length ≤ (pieceActions home (goOn b ps)).length := by
  rcases b with - | ⟨x, - | ⟨y, b⟩⟩
  · rcases ps with - | ⟨- | ⟨t, q⟩, - | ⟨r, ps⟩⟩
    all_goals simp [goOn]
  · rcases ps with - | ⟨q, ps⟩
    all_goals simp [goOn]
  · simp [goOn]

lemma length_joined_goOn (h : ¬ (b = [] ∧ ps = [])) :
    (joined (goOn b ps) left).length ≤ (joined (b :: ps) left).length := by
  rcases b with - | ⟨x, - | ⟨y, b⟩⟩
  · rcases ps with - | ⟨- | ⟨t, q⟩, - | ⟨r, ps⟩⟩
    all_goals simp [goOn]
    all_goals omega
  · rcases ps with - | ⟨q, ps⟩
    all_goals simp [goOn]
    all_goals omega
  · simp [goOn]

lemma mem_goOn (hps : ∀ p ∈ b :: ps, ";" ∉ p) : ∀ p ∈ goOn b ps, ";" ∉ p := by
  rcases b with - | ⟨x, - | ⟨y, b⟩⟩
  · rcases ps with - | ⟨- | ⟨t, q⟩, - | ⟨r, ps⟩⟩
    all_goals simp_all [goOn]
  · rcases ps with - | ⟨q, ps⟩
    all_goals simp_all [goOn]
  · simpa [goOn] using hps

lemma plain_or_cd (hp : ";" ∉ p) :
    ("cd" ∉ p ∧ ∀ t ∈ p, Plain t) ∨
      ∃ a b, p = a ++ "cd" :: b ∧ "cd" ∉ a ∧ ∀ t ∈ a, Plain t := by
  by_cases hcd : "cd" ∈ p
  · obtain ⟨a, b, hab, ha⟩ := List.eq_append_cons_of_mem hcd
    refine .inr ⟨a, b, hab, ha, fun t ht => ⟨fun h => ha (h ▸ ht), fun h => hp ?_⟩⟩
    rw [hab, ← h]
    exact List.mem_append_left _ ht
  · exact .inl ⟨hcd, fun t ht => ⟨fun h => hcd (h ▸ ht), fun h => hp (h ▸ ht)⟩⟩

lemma joined_semi_append (a q : List String) :
    joined (a :: q :: ps) left = a.map some ++ some ";" :: joined (q :: ps) left := by
  have h : joined ((a ++ []) :: q :: ps) left = _ := joined_append
  rwa [List.append_nil, joined_semi] at h

lemma goOn_ne_nil : goOn b ps ≠ [] := by
  unfold goOn
  split
  all_goals simp

lemma loop_atLeast (hps : ∀ p ∈ ps, ";" ∉ p) (hne : ps ≠ []) :
    AtLeast (pieceActions home ps).length (loop home (joined ps left) 0) := by
  induction hn : (joined ps left).length using Nat.strongRecOn generalizing ps with
  | ind n ih =>
    obtain ⟨p, ps, rfl⟩ := List.exists_cons_of_ne_nil hne
    have htail : ∀ p ∈ ps, ";" ∉ p := fun q hq => hps q (List.mem_cons_of_mem _ hq)
    rcases plain_or_cd (hps p List.mem_cons_self) with ⟨-, ha⟩ | ⟨a, b, rfl, -, ha⟩
    · rcases ps with - | ⟨q, ps⟩
      · rw [joined, List.intercalate_singleton, loop_end ha]
        rintro acts ⟨⟩
        rcases p with - | ⟨t, p⟩
        all_goals simp
      · -- a command in front of others
        rw [joined_semi_append] at hn ⊢
        rw [loop_semi _ ha]
        intro acts hacts
        refine Nat.le_trans length_pieceActions_le ((ih _ ?_ htail (by simp) rfl).map _ acts hacts)
        simp at hn
        omega
    · suffices h : AtLeast ((pieceActions home ps).length + 1)
          (loop home (joined ((a ++ "cd" :: b) :: ps) left) 0) from
        fun acts hacts => Nat.le_trans length_pieceActions_le (h acts hacts)
      rw [joined_append, joined_cons, List.length_append, List.length_cons] at hn
      rcases b with - | ⟨d, b⟩
      · -- `cd` without a directory
        rcases ps with - | ⟨q, ps⟩
        · rw [joined_append, joined_cons, joined_nil, loop_cd_null ha]
          rintro acts ⟨⟩
          simp
        · rw [joined_append, joined_cons, joined_semi, loop_cd_semi _ ha]
          refine (ih _ ?_ htail (by simp) rfl).map _
          simp at hn
          omega
      · by_cases h : b = [] ∧ ps = []
        · -- `cd` ends the line
          intro acts hacts
          rw [joined_append, joined_cons] at hacts
          obtain ⟨dir, r, rfl⟩ := loop_cd_first ha hacts
          simp [h.2]
        · -- the loop goes on behind the token that follows the directory
          have hd : d ≠ ";" := fun hd => hps _ List.mem_cons_self (by simp [hd])
          have hb : ∀ p ∈ b :: ps, ";" ∉ p := by
            refine List.forall_mem_cons.mpr ⟨fun hb => hps _ List.mem_cons_self ?_, htail⟩
            simp [hb]
          rw [loop_cd_joined ha hd hb h]
          have hlt : (joined (goOn b ps) left).length ≤ _ := length_joined_goOn h
          rw [joined_cons, List.length_cons] at hn
          intro acts hacts
          exact Nat.le_trans (Nat.succ_le_succ length_goOn)
            ((ih _ (by omega) (mem_goOn hb) goOn_ne_nil rfl).map _ acts hacts)

/-! ### When the loop follows the reference -/

/-- The last piece of a line that the loop takes as it is meant. -/
def LastOk (left : Args) (p : List String) : Prop :=
  "cd" ∉ p ∨ p = ["cd"] ∨ (∃ d, p = ["cd", d]) ∧ Tame left

/-- The lines that the loop takes piece by piece. Before the last piece, a command is not
empty and has no `cd` in it, and a `cd` with a directory has one more token behind it or an
empty piece after it, which the loop steps over. -/
def Clean (left : Args) : List (List String) → Prop
  | [] => True
  | [p] => LastOk left p
  | p :: q :: ps =>
    ((p ≠ [] ∧ "cd" ∉ p ∨ p = ["cd"] ∨ ∃ d x, p = ["cd", d, x]) ∧ Clean left (q :: ps)) ∨
      (∃ d, p = ["cd", d]) ∧ q = [] ∧ ps ≠ [] ∧ Clean left ps

lemma pieceActions_cd : pieceActions home (("cd" :: b) :: ps) =
    .chdir (b.head?.getD home) :: pieceActions home ps := by
  simp [pieceAction]

lemma pieceActions_command (hp : p ≠ []) (hcd : "cd" ∉ p) :
    pieceActions home (p :: ps) = .forknRun p :: pieceActions home ps := by
  obtain ⟨t, p, rfl⟩ := List.exists_cons_of_ne_nil hp
  have ht : t ≠ "cd" := fun ht => hcd (by simp [ht])
  simp [pieceAction, ht]

lemma ne_of_inner_cd (ha : ∀ t ∈ a, Plain t) (hne : a ≠ []) :
    loop home (joined ((a ++ "cd" :: b) :: ps) left) 0 ≠
      some (pieceActions home ((a ++ "cd" :: b) :: ps)) := by
  intro hl
  obtain ⟨t, a, rfl⟩ := List.exists_cons_of_ne_nil hne
  have ht : t ≠ "cd" := (ha t List.mem_cons_self).1
  rw [joined_append, joined_cons] at hl
  obtain ⟨dir, r, hr⟩ := loop_cd_first ha hl
  simp [pieceAction, ht] at hr

lemma ne_of_atLeast {r : Option (List Action)} {acts : List Action} {n : ℕ}
    (hr : AtLeast n r) (hlt : acts.length < n) (x : Action) :
    r.map (x :: ·) ≠ some (x :: acts) := by
  intro h
  have hle := hr.map x _ h
  rw [List.length_cons] at hle
  omega

/-- With two or more tokens behind the directory, or one that ends the line, the rest of the
piece becomes a piece of its own. -/
lemma length_goOn_lt {x : String} (h : b = [] → ps = []) :
    (pieceActions home ps).length < (pieceActions home (goOn (x :: b) ps)).length := by
  rcases b with - | ⟨y, b⟩
  · simp [h rfl, goOn]
  · simp [goOn]

lemma loop_cd_end {d : String} (hd : d ≠ ";") :
    loop home (joined [["cd", d]] left) 0 = some [.chdir d] ↔ Tame left := by
  have hcd : loop home (some "cd" :: some d :: none :: left) 0 = _ :=
    loop_cd_dir (a := []) (none :: left) (by simp) hd
  rw [joined_cons, joined_cons, joined_nil, hcd]
  rcases left with - | ⟨e, r⟩
  · simp [Tame]
  · by_cases he : e = some ";"
    · simp [he, Tame, loop_nil_iff]
    · simp [he, Tame, loop_nil_iff]

lemma not_lastOk_inner (ha : "cd" ∉ a) (hne : a ≠ []) : ¬ LastOk left (a ++ "cd" :: b) := by
  obtain ⟨t, a, rfl⟩ := List.exists_cons_of_ne_nil hne
  have ht : t ≠ "cd" := fun ht => ha (by simp [ht])
  simp [LastOk, ht]

lemma loop_last_iff (hp : ";" ∉ p) :
    loop home (joined [p] left) 0 = some (pieceActions home [p]) ↔ LastOk left p := by
  rcases plain_or_cd hp with ⟨hcd, ha⟩ | ⟨a, b, rfl, hcd, ha⟩
  · rw [joined, List.intercalate_singleton, loop_end ha]
    rcases p with - | ⟨t, p⟩
    · simp [LastOk]
    · simp [LastOk, hcd, pieceActions_command]
  · rcases a with - | ⟨t, a⟩
    · rcases b with - | ⟨d, - | ⟨x, b⟩⟩
      · have hcd : loop home (some "cd" :: none :: left) 0 = _ := loop_cd_null (a := []) (by simp)
        simpa [LastOk, pieceAction] using hcd
      · have hd : d ≠ ";" := fun hd => hp (by simp [hd])
        rw [List.nil_append, pieceActions_cd]
        exact (loop_cd_end hd).trans (by simp [LastOk])
      · have hd : d ≠ ";" := fun hd => hp (by simp [hd])
        have hb : ∀ p ∈ [x :: b], ";" ∉ p := by
          simp at hp ⊢
          exact hp.2
        have hnot : ¬ LastOk left ("cd" :: d :: x :: b) := by simp [LastOk]
        refine iff_of_false ?_ hnot
        rw [loop_cd_joined (by simp) hd hb (by simp), List.nil_append, pieceActions_cd]
        exact ne_of_atLeast (loop_atLeast (mem_goOn hb) goOn_ne_nil) (length_goOn_lt (by simp)) _
    · exact iff_of_false (ne_of_inner_cd ha (by simp)) (not_lastOk_inner hcd (by simp))

lemma map_cons_iff {r : Option (List Action)} {acts : List Action} (x : Action) :
    r.map (x :: ·) = some (x :: acts) ↔ r = some acts := by
  cases r
  all_goals simp

lemma clean_empty {q : List String} : ¬ Clean left ([] :: q :: ps) := by
  simp [Clean]

lemma clean_command {q : List String} (hp : p ≠ []) (hcd : "cd" ∉ p) :
    Clean left (p :: q :: ps) ↔ Clean left (q :: ps) := by
  have hne : ∀ r, p ≠ "cd" :: r := fun r hr => hcd (by simp [hr])
  simp [Clean, hp, hcd, hne]

lemma clean_inner {q : List String} (ha : "cd" ∉ a) (hne : a ≠ []) :
    ¬ Clean left ((a ++ "cd" :: b) :: q :: ps) := by
  obtain ⟨t, a, rfl⟩ := List.exists_cons_of_ne_nil hne
  have ht : t ≠ "cd" := fun ht => ha (by simp [ht])
  simp [Clean, ht]

lemma ne_of_cd_dir {d : String} {q : List String} (hd : d ≠ ";")
    (hps : ∀ p ∈ q :: ps, ";" ∉ p) (h : ¬ (q = [] ∧ ps ≠ [])) :
    loop home (joined (["cd", d] :: q :: ps) left) 0 ≠
      some (pieceActions home (["cd", d] :: q :: ps)) := by
  have hb : ∀ p ∈ [] :: q :: ps, ";" ∉ p := List.forall_mem_cons.mpr ⟨by simp, hps⟩
  have hsemi : loop home (some ";" :: joined (q :: ps) left) 0 = _ :=
    loop_semi (a := []) (joined (q :: ps) left) (by simp)
  rw [loop_cd_here hd hb (by simp), goOn_nil h, joined_semi, pieceActions_cd, hsemi]
  exact ne_of_atLeast ((loop_atLeast hps (by simp)).map _) (Nat.lt_succ_self _) _

/-- **The loop does what the reference does exactly for the clean lines.** -/
theorem loop_iff (hps : ∀ p ∈ ps, ";" ∉ p) (hne : ps ≠ []) :
    loop home (joined ps left) 0 = some (pieceActions home ps) ↔ Clean left ps := by
  induction hn : ps.length using Nat.strongRecOn generalizing ps with
  | ind n ih =>
    obtain ⟨p, ps, rfl⟩ := List.exists_cons_of_ne_nil hne
    have hp : ";" ∉ p := hps p List.mem_cons_self
    have htail : ∀ p ∈ ps, ";" ∉ p := fun q hq => hps q (List.mem_cons_of_mem _ hq)
    rcases ps with - | ⟨q, ps⟩
    · simpa [Clean] using loop_last_iff hp
    have hq := ih _ (by simp [← hn]) htail (by simp) rfl
    rcases plain_or_cd hp with ⟨hcd, ha⟩ | ⟨a, b, rfl, hcd, ha⟩
    · rw [joined_semi_append, loop_semi _ ha]
      by_cases hp0 : p = []
      · refine iff_of_false (fun h => ?_) (hp0 ▸ clean_empty)
        have hle := (loop_atLeast htail (by simp)).map _ _ h
        rw [hp0, pieceActions_skip] at hle
        omega
      · rw [pieceActions_command hp0 hcd, map_cons_iff, hq, clean_command hp0 hcd]
    by_cases ha0 : a = []
    · subst ha0
      rw [List.nil_append] at hp ⊢
      rcases b with - | ⟨d, b⟩
      · have hl : loop home (some "cd" :: some ";" :: joined (q :: ps) left) 0 = _ :=
          loop_cd_semi (a := []) (joined (q :: ps) left) (by simp)
        rw [joined_cons, joined_semi, hl, pieceActions_cd]
        simp [hq, Clean]
      have hd : d ≠ ";" := fun hd => hp (by simp [hd])
      have hb : ∀ p ∈ b :: q :: ps, ";" ∉ p := by
        refine List.forall_mem_cons.mpr ⟨fun hb => hp ?_, htail⟩
        simp [hb]
      have hl := @loop_cd_here home left b (q :: ps) d hd hb (by simp)
      rcases b with - | ⟨x, - | ⟨y, b⟩⟩
      · -- the index is left on the `;`, which only an empty piece behind it makes up for
        by_cases hskip : q = [] ∧ ps ≠ []
        · obtain ⟨rfl, hps0⟩ := hskip
          obtain ⟨r, ps, rfl⟩ := List.exists_cons_of_ne_nil hps0
          have hr := ih _ (by simp [← hn]) (fun q hq => htail q (List.mem_cons_of_mem _ hq))
            (by simp) rfl
          rw [hl, goOn, pieceActions_cd, List.head?_cons, Option.getD_some, map_cons_iff,
            pieceActions_skip, hr]
          simp [Clean]
        · refine iff_of_false (ne_of_cd_dir hd htail hskip) ?_
          simp [Clean]
          exact fun hq0 hps0 _ => hskip ⟨hq0, hps0⟩
      · rw [hl, goOn, pieceActions_cd, List.head?_cons, Option.getD_some, map_cons_iff, hq]
        simp [Clean]
      · -- more than one token is left, and becomes a piece
        refine iff_of_false ?_ (by simp [Clean])
        rw [hl, pieceActions_cd]
        exact ne_of_atLeast (loop_atLeast (mem_goOn hb) goOn_ne_nil) (length_goOn_lt (by simp)) _
    · -- `cd` is an argument of a command
      exact iff_of_false (ne_of_inner_cd ha ha0) (clean_inner hcd ha0)

lemma notMem_splitOn (sep : String) (tokens : List String) :
    ∀ p ∈ tokens.splitOn sep, sep ∉ p := by
  induction tokens with
  | nil => simp
  | cons t r ih =>
    obtain ⟨p, ps, hps⟩ := List.exists_cons_of_ne_nil (List.splitOn_ne_nil sep r)
    rw [hps, List.forall_mem_cons] at ih
    rw [List.splitOn_cons_eq_if_modifyHead, hps]
    by_cases ht : t = sep
    · simpa [ht] using ih
    · simpa [ht, Ne.symm ht] using ih

/-- **Splitting a line at the semicolons**: the loop of `main` performs the actions of the
reference exactly for the clean lines. -/
theorem split_iff (home : String) (tokens : List String) (left : Args)
    (hne : tokens ≠ []) (hexit : tokens.head? ≠ some "exit") :
    mainLine home (getArgs tokens left) = some (reference home tokens) ↔
      Clean left (tokens.splitOn ";") := by
  obtain ⟨t, r, rfl⟩ := List.exists_cons_of_ne_nil hne
  have ht : t ≠ "exit" := by simpa using hexit
  have hiff := @loop_iff home left _ (notMem_splitOn ";" (t :: r))
    (List.splitOn_ne_nil ";" (t :: r))
  rw [joined, List.intercalate_splitOn] at hiff
  rw [mainLine_eq_loop ht]
  exact hiff

theorem split_iff_ls : mainLine "/" (getArgs ["ls", ";", "cd", "a", "b", ";", "pwd"] []) =
    some (reference "/" ["ls", ";", "cd", "a", "b", ";", "pwd"]) ↔
      Clean [] (["ls", ";", "cd", "a", "b", ";", "pwd"].splitOn ";") :=
  split_iff "/" _ [] (by simp) (by simp)

/-- On `cd dir ; ls` the loop also runs an empty command. -/
theorem not_split_cd_dir : mainLine "/" (getArgs ["cd", "dir", ";", "ls"] []) =
      some [.chdir "dir", .forknRun [], .forknRun ["ls"]] ∧
    mainLine "/" (getArgs ["cd", "dir", ";", "ls"] []) ≠
      some (reference "/" ["cd", "dir", ";", "ls"]) := by
  have hmain : mainLine "/" (getArgs ["cd", "dir", ";", "ls"] []) =
      some [.chdir "dir", .forknRun [], .forknRun ["ls"]] := by
    simp [mainLine, getArgs, loop, subarray, toNull]
  have href : reference "/" ["cd", "dir", ";", "ls"] = [.chdir "dir", .forknRun ["ls"]] := by
    decide
  refine ⟨hmain, ?_⟩
  rw [hmain, href]
  simp

end Messaround.Shell
