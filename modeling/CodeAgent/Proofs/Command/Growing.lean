import CodeAgent.Proofs.Command.Judging

/-! Policies whose lists grow.
A policy starts from the preset lists, and every addition appends the entries that are new. What it says
of a command hangs on which entries were added, not on when or how often: a blocked entry can only block
more, and a trusted one can only spare the user a question. -/
namespace CodeAgent.CommandPolicy

open Text

/-- One call that adds entries. -/
inductive Addition where
  | block (items : List String)
  | trust (items : List String)
deriving DecidableEq, Repr

def add (p : CommandPolicy) : Addition → CommandPolicy
  | .block items => p.block items
  | .trust items => p.trust items

def grow (p : CommandPolicy) (xs : List Addition) : CommandPolicy := xs.foldl add p

/-- The entries that texts come to. -/
def entries (items : List String) : List String := (items.map normalize).filter (· ≠ "")

def blockedBy : List Addition → List String
  | [] => []
  | .block items :: xs => entries items ++ blockedBy xs
  | .trust _ :: xs => blockedBy xs

def trustedBy : List Addition → List String
  | [] => []
  | .block _ :: xs => trustedBy xs
  | .trust items :: xs => entries items ++ trustedBy xs

/-- Entries from the settings are the first additions. -/
theorem withExtra_grow (blocked trusted : List String) (xs : List Addition) :
    (withExtra blocked trusted).grow xs = preset.grow (.block blocked :: .trust trusted :: xs) := rfl

/- One list -/

section

variable {list items : List String} {e : String}

theorem extend_cons (list : List String) (item : String) (rest : List String) :
    extend list (item :: rest) =
      extend (if normalize item = "" ∨ normalize item ∈ list then list
        else list ++ [normalize item]) rest := by
  rw [extend]
  simp

theorem entries_cons (item : String) (rest : List String) :
    entries (item :: rest) =
      if normalize item = "" then entries rest else normalize item :: entries rest := by
  by_cases none : normalize item = "" <;> simp [entries, none]

theorem mem_extend : e ∈ extend list items ↔ e ∈ list ∨ e ∈ entries items := by
  induction items generalizing list with
  | nil => simp [extend, entries]
  | cons item rest ih =>
    rw [extend_cons, ih, entries_cons]
    by_cases none : normalize item = ""
    · simp [none]
    · by_cases known : normalize item ∈ list
      · simp only [known, none, or_true, if_true, if_false, List.mem_cons]
        constructor
        · rintro (old | new)
          · exact Or.inl old
          · exact Or.inr (Or.inr new)
        · rintro (old | rfl | new)
          · exact Or.inl old
          · exact Or.inl known
          · exact Or.inr new
      · simp [known, none, or_assoc]

theorem prefix_extend (list items : List String) : list <+: extend list items := by
  induction items generalizing list with
  | nil => exact List.prefix_refl list
  | cons item rest ih =>
    rw [extend_cons]
    split
    · exact ih list
    · exact (List.prefix_append list _).trans (ih _)

theorem nodup_extend (nodup : list.Nodup) (items : List String) : (extend list items).Nodup := by
  induction items generalizing list with
  | nil => exact nodup
  | cons item rest ih =>
    rw [extend_cons]
    split
    · exact ih nodup
    · rename_i new
      apply ih
      rw [List.nodup_append]
      refine ⟨nodup, by simp, ?_⟩
      rintro a old b last rfl
      rw [List.mem_singleton.mp last] at old
      exact new (Or.inr old)

theorem ne_empty_of_mem_entries (member : e ∈ entries items) : e ≠ "" := by
  simpa using (List.mem_filter.mp member).2

theorem exists_of_mem_entries (member : e ∈ entries items) : ∃ item ∈ items, normalize item = e :=
  List.mem_map.mp (List.mem_filter.mp member).1

end

/- Both lists -/

variable {p : CommandPolicy} {xs ys : List Addition} {command e : String}

theorem mem_blocked_grow : e ∈ (p.grow xs).blocked ↔ e ∈ p.blocked ∨ e ∈ blockedBy xs := by
  induction xs generalizing p with
  | nil => simp [grow, blockedBy]
  | cons x xs ih =>
    change e ∈ ((p.add x).grow xs).blocked ↔ _
    rw [ih]
    cases x with
    | block items => simp [add, block, blockedBy, mem_extend, or_assoc]
    | trust items => simp [add, trust, blockedBy]

theorem mem_trusted_grow : e ∈ (p.grow xs).trusted ↔ e ∈ p.trusted ∨ e ∈ trustedBy xs := by
  induction xs generalizing p with
  | nil => simp [grow, trustedBy]
  | cons x xs ih =>
    change e ∈ ((p.add x).grow xs).trusted ↔ _
    rw [ih]
    cases x with
    | block items => simp [add, block, trustedBy]
    | trust items => simp [add, trust, trustedBy, mem_extend, or_assoc]

/-- No entry is empty, and none stands twice. -/
structure Tidy (p : CommandPolicy) : Prop where
  blocked : p.blocked.Nodup ∧ "" ∉ p.blocked
  trusted : p.trusted.Nodup ∧ "" ∉ p.trusted

theorem tidy_preset : preset.Tidy := ⟨by decide, by decide⟩

theorem Tidy.add (tidy : p.Tidy) (x : Addition) : (p.add x).Tidy := by
  have kept {list : List String} (was : list.Nodup ∧ "" ∉ list) (items : List String) :
      (extend list items).Nodup ∧ "" ∉ extend list items := by
    refine ⟨nodup_extend was.1 items, ?_⟩
    rw [mem_extend, not_or]
    exact ⟨was.2, fun member => ne_empty_of_mem_entries member rfl⟩
  cases x with
  | block items => exact ⟨kept tidy.blocked items, tidy.trusted⟩
  | trust items => exact ⟨tidy.blocked, kept tidy.trusted items⟩

theorem Tidy.grow (tidy : p.Tidy) (xs : List Addition) : (p.grow xs).Tidy := by
  induction xs generalizing p with
  | nil => exact tidy
  | cons x xs ih => exact ih (tidy.add x)

/-- Nothing is lost from either list. -/
structure Keeps (p q : CommandPolicy) : Prop where
  blocked : p.blocked <+: q.blocked
  trusted : p.trusted <+: q.trusted

theorem keeps_add (p : CommandPolicy) (x : Addition) : p.Keeps (p.add x) := by
  cases x with
  | block items => exact ⟨prefix_extend p.blocked items, List.prefix_refl p.trusted⟩
  | trust items => exact ⟨List.prefix_refl p.blocked, prefix_extend p.trusted items⟩

theorem keeps_grow (p : CommandPolicy) (xs : List Addition) : p.Keeps (p.grow xs) := by
  induction xs generalizing p with
  | nil => exact ⟨List.prefix_refl p.blocked, List.prefix_refl p.trusted⟩
  | cons x xs ih =>
    have first := keeps_add p x
    have later := ih (p.add x)
    exact ⟨first.blocked.trans later.blocked, first.trusted.trans later.trusted⟩

/- Entries in commands -/

/-- An entry begins and ends with a letter or sign, but for the one preset that ends with a blank. -/
theorem neat_entry (member : e ∈ (preset.grow xs).blocked) : Neat e ∨ e = "sudo " := by
  have preset_neat : ∀ e ∈ blockedByDefault, isNeat e = true ∨ e = "sudo " := by decide
  have added : ∀ xs : List Addition, e ∈ blockedBy xs → Neat e := by
    intro xs later
    induction xs with
    | nil => cases later
    | cons x xs ih =>
      cases x with
      | trust => exact ih later
      | block items =>
        rcases List.mem_append.mp later with here | behind
        · obtain ⟨item, -, rfl⟩ := exists_of_mem_entries here
          exact neat_normalize (ne_empty_of_mem_entries here)
        · exact ih behind
  rcases mem_blocked_grow.mp member with old | new
  · exact (preset_neat e old).imp neat_of_isNeat id
  · exact Or.inl (added xs new)

theorem blocks_of_entry (member : e ∈ (preset.grow xs).blocked)
    (found : contains (lower command) e = true) :
    contains (normalize command) e = true ∨
      e = "sudo " ∧ endsWith (normalize command) "sudo" = true := by
  rw [normalize_eq_trim]
  rcases neat_entry member with neat | rfl
  · rw [neat.contains_trim]
    exact Or.inl found
  · have word : Neat "sudo" := neat_of_isNeat (by decide)
    exact (word.contains_spaced found).imp_right fun cut => ⟨rfl, cut⟩

/-- A policy blocks a command exactly when nothing is left of it or an entry stands in its text, in lower
case and without the white space around it. That white space makes a difference to an entry that ends
with a blank only, and there is one, where the command ends with its word. -/
theorem verdict_of_entry (blocked trusted : List String) (xs : List Addition) (command : String) :
    let p := (withExtra blocked trusted).grow xs
    (p.verdict command = .blocked ↔ trim (lower command) = "" ∨
      ∃ e ∈ p.blocked, contains (trim (lower command)) e = true) ∧
    ∀ e ∈ p.blocked, contains (lower command) e = true → p.verdict command = .blocked ∨
      e = "sudo " ∧ endsWith (trim (lower command)) "sudo" = true := by
  intro p
  rw [← normalize_eq_trim]
  refine ⟨verdict_eq_blocked, ?_⟩
  intro e member found
  have stands : contains (normalize command) e = true ∨
      e = "sudo " ∧ endsWith (normalize command) "sudo" = true := by
    rw [show p = _ from withExtra_grow blocked trusted xs] at member
    exact blocks_of_entry member found
  exact stands.imp_left fun stands => verdict_of_blocks (Or.inr ⟨e, member, stands⟩)

theorem verdict_of_entry_drop :
    ((withExtra [" Drop TABLE "] ["psql"]).grow [.trust ["Git"], .block ["mkfs", "--all "]]).verdict
        "psql -c 'DROP Table users'" = .blocked ∨
      "drop table" = "sudo " ∧
        endsWith (trim (lower "psql -c 'DROP Table users'")) "sudo" = true :=
  (verdict_of_entry [" Drop TABLE "] ["psql"] [.trust ["Git"], .block ["mkfs", "--all "]]
    "psql -c 'DROP Table users'").2 "drop table" (by decide +kernel) (by decide +kernel)

/-- The blank that ends a preset entry is lost where it ends the command. -/
theorem verdict_cut :
    "sudo " ∈ ((withExtra [] []).grow []).blocked ∧ contains (lower "ls && sudo ") "sudo " = true ∧
      ((withExtra [] []).grow []).verdict "ls && sudo " = .allowed := by
  decide +kernel

/- Verdicts of a policy that grew -/

/-- One of the entries stands in a command. -/
def Hit (es : List String) (command : String) : Prop :=
  ∃ e ∈ es, contains (normalize command) e = true

/-- A command that begins with one of the entries, and not with `git`. -/
def Starts (es : List String) (command : String) : Prop :=
  ∃ w, (tokens command).head? = some w ∧ w ∈ es ∧ w ≠ "git"

theorem verdict_grow_eq_blocked :
    (p.grow xs).verdict command = .blocked ↔
      p.verdict command = .blocked ∨ Hit (blockedBy xs) command := by
  rw [verdict_eq_blocked, verdict_eq_blocked, Blocks, Blocks, or_assoc]
  simp only [mem_blocked_grow, or_and_right, exists_or, Hit]

theorem exists_program (clear : p.verdict command ≠ .blocked) :
    ∃ w ws, tokens command = w :: ws := by
  apply List.exists_cons_of_ne_nil
  intro none
  exact clear (verdict_of_blocks (Or.inl (tokens_eq_nil.mp none)))

theorem judgeWords_of_trusted_iff {q : CommandPolicy} {w : String} (same : w ∈ q.trusted ↔ w ∈ p.trusted)
    (ws : List String) : q.judgeWords (w :: ws) = p.judgeWords (w :: ws) := by
  simp [judgeWords, same]

/-- A command that is not blocked afterwards is spared the question when it starts with an added entry,
and has its old verdict otherwise. -/
theorem verdict_grow (git : "git" ∈ p.trusted) (clear : (p.grow xs).verdict command ≠ .blocked) :
    (p.verdict command = .requiresConfirmation ∧ Starts (trustedBy xs) command ∧
      (p.grow xs).verdict command = .allowed) ∨
    (¬ (p.verdict command = .requiresConfirmation ∧ Starts (trustedBy xs) command) ∧
      (p.grow xs).verdict command = p.verdict command) := by
  have before : p.verdict command ≠ .blocked := fun blocked =>
    clear (verdict_grow_eq_blocked.mpr (Or.inl blocked))
  obtain ⟨w, ws, words⟩ := exists_program clear
  have new := verdict_of_not_blocks (mt verdict_of_blocks clear)
  have old := verdict_of_not_blocks (mt verdict_of_blocks before)
  rw [words] at new old
  by_cases known : w ∈ p.trusted ∨ w ∉ trustedBy xs
  · -- The first word is as trusted as it was.
    have same : w ∈ (p.grow xs).trusted ↔ w ∈ p.trusted := by
      rw [mem_trusted_grow, or_iff_left_iff_imp]
      intro added
      exact known.resolve_right (not_not.mpr added)
    rw [judgeWords_of_trusted_iff same, ← old] at new
    refine Or.inr ⟨?_, new⟩
    rintro ⟨asks, v, first, added, other⟩
    rw [words] at first
    obtain rfl := Option.some.inj first
    have trusted : w ∈ p.trusted := known.resolve_right (not_not.mpr added)
    rw [old] at asks
    simp [judgeWords, trusted, other, VerdictReason.verdict] at asks
  · obtain ⟨unknown, added⟩ := not_or.mp known
    have added : w ∈ trustedBy xs := not_not.mp added
    have other : w ≠ "git" := fun same => unknown (same ▸ git)
    have trusted : w ∈ (p.grow xs).trusted := mem_trusted_grow.mpr (Or.inr added)
    refine Or.inl ⟨?_, ⟨w, by rw [words]; rfl, added, other⟩, ?_⟩
    · rw [old]
      simp [judgeWords, unknown, VerdictReason.verdict]
    · rw [new]
      simp [judgeWords, trusted, other, VerdictReason.verdict]

theorem git_mem_grow (xs : List Addition) : "git" ∈ (preset.grow xs).trusted :=
  mem_trusted_grow.mpr (Or.inl (by decide))

theorem verdict_congr (git : "git" ∈ p.trusted) (blocked : ∀ e, e ∈ blockedBy xs ↔ e ∈ blockedBy ys)
    (trusted : ∀ e, e ∈ trustedBy xs ↔ e ∈ trustedBy ys) :
    (p.grow xs).verdict command = (p.grow ys).verdict command := by
  have hits : Hit (blockedBy xs) command ↔ Hit (blockedBy ys) command := by simp only [Hit, blocked]
  have starts : Starts (trustedBy xs) command ↔ Starts (trustedBy ys) command := by
    simp only [Starts, trusted]
  by_cases first : (p.grow xs).verdict command = .blocked
  · have second : (p.grow ys).verdict command = .blocked := by
      rw [verdict_grow_eq_blocked] at first ⊢
      exact first.imp_right hits.mp
    rw [first, second]
  · have second : (p.grow ys).verdict command ≠ .blocked := by
      intro blocked
      rw [verdict_grow_eq_blocked] at first blocked
      exact first (blocked.imp_right hits.mpr)
    rcases verdict_grow git first with ⟨asks, new, allowed⟩ | ⟨same, old⟩
    · rcases verdict_grow git second with ⟨-, -, allowed'⟩ | ⟨same', -⟩
      · rw [allowed, allowed']
      · exact absurd ⟨asks, starts.mp new⟩ same'
    · rcases verdict_grow git second with ⟨asks', new', -⟩ | ⟨-, old'⟩
      · exact absurd ⟨asks', starts.mpr new'⟩ same
      · rw [old, old']

/-- What additions do to a policy. Only the entries that they come to matter to a verdict. Blocked entries
alone change it to blocked at most. Trusted ones alone leave a blocked command blocked, and otherwise
allow a command that needed approval and that starts with one of them other than `git`. The lists hold
no empty entry and none twice, hold every entry added, and keep what they held. -/
theorem verdict_of_additions (blocked trusted : List String) (before xs ys : List Addition)
    (command : String) :
    let p := (withExtra blocked trusted).grow before
    ((∀ e, e ∈ blockedBy xs ↔ e ∈ blockedBy ys) → (∀ e, e ∈ trustedBy xs ↔ e ∈ trustedBy ys) →
      (p.grow xs).verdict command = (p.grow ys).verdict command) ∧
    (trustedBy xs = [] → (p.grow xs).verdict command ≠ p.verdict command →
      (p.grow xs).verdict command = .blocked) ∧
    (blockedBy xs = [] → (p.grow xs).verdict command ≠ p.verdict command →
      p.verdict command = .requiresConfirmation ∧ (p.grow xs).verdict command = .allowed ∧
        Starts (trustedBy xs) command) ∧
    (p.grow xs).Tidy ∧ p.Keeps (p.grow xs) ∧ (∀ e ∈ blockedBy xs, e ∈ (p.grow xs).blocked) ∧
      (∀ e ∈ trustedBy xs, e ∈ (p.grow xs).trusted) := by
  intro p
  have start : p = preset.grow (.block blocked :: .trust trusted :: before) :=
    withExtra_grow blocked trusted before
  have git : "git" ∈ p.trusted := by
    rw [start]
    exact git_mem_grow _
  have tidy : p.Tidy := by
    rw [start]
    exact tidy_preset.grow _
  refine ⟨verdict_congr git, ?_, ?_, tidy.grow xs, keeps_grow p xs, ?_, ?_⟩
  · intro none changed
    by_contra clear
    rcases verdict_grow git clear with ⟨-, ⟨w, -, added, -⟩, -⟩ | ⟨-, same⟩
    · rw [none] at added
      cases added
    · exact changed same
  · intro none changed
    have clear : (p.grow xs).verdict command ≠ .blocked := by
      intro blocked
      rcases verdict_grow_eq_blocked.mp blocked with old | ⟨e, added, -⟩
      · exact changed (blocked.trans old.symm)
      · rw [none] at added
        cases added
    rcases verdict_grow git clear with ⟨asks, new, allowed⟩ | ⟨-, same⟩
    · exact ⟨asks, allowed, new⟩
    · exact absurd same changed
  · intro e added
    exact mem_blocked_grow.mpr (Or.inr added)
  · intro e added
    exact mem_trusted_grow.mpr (Or.inr added)

theorem verdict_of_additions_docker :
    ((preset.grow [.trust ["docker", " "], .block ["Docker RM ", "mkfs"]]).verdict "docker rm x" =
      (preset.grow [.block ["docker rm"], .trust ["DOCKER"], .block ["mkfs", "docker rm"]]).verdict
        "docker rm x") ∧
    (preset.grow [.block ["Docker RM "]]).verdict "docker rm x" = .blocked ∧
    (preset.verdict "docker ps" = .requiresConfirmation ∧
      (preset.grow [.trust ["Docker"]]).verdict "docker ps" = .allowed ∧
      Starts (trustedBy [.trust ["Docker"]]) "docker ps") := by
  have blocked : ∀ e, e ∈ blockedBy [.trust ["docker", " "], .block ["Docker RM ", "mkfs"]] ↔
      e ∈ blockedBy [.block ["docker rm"], .trust ["DOCKER"], .block ["mkfs", "docker rm"]] := by
    have first : blockedBy [.trust ["docker", " "], .block ["Docker RM ", "mkfs"]] =
        ["docker rm", "mkfs"] := by decide +kernel
    have second : blockedBy [.block ["docker rm"], .trust ["DOCKER"], .block ["mkfs", "docker rm"]] =
        ["docker rm", "mkfs", "docker rm"] := by decide +kernel
    intro e
    rw [first, second]
    simp only [List.mem_cons, List.not_mem_nil, or_false]
    constructor
    · rintro (rm | mkfs)
      · exact Or.inl rm
      · exact Or.inr (Or.inl mkfs)
    · rintro (rm | mkfs | rm)
      · exact Or.inl rm
      · exact Or.inr mkfs
      · exact Or.inl rm
  have trusted : trustedBy [.trust ["docker", " "], .block ["Docker RM ", "mkfs"]] =
      trustedBy [.block ["docker rm"], .trust ["DOCKER"], .block ["mkfs", "docker rm"]] := by
    decide +kernel
  refine ⟨?_, ?_, ?_⟩
  · exact (verdict_of_additions [] [] [] _ _ "docker rm x").1 blocked fun e => by rw [trusted]
  · exact (verdict_of_additions [] [] [] [.block ["Docker RM "]] [] "docker rm x").2.1 rfl
      (by decide +kernel)
  · exact (verdict_of_additions [] [] [] [.trust ["Docker"]] [] "docker ps").2.2.1 rfl
      (by decide +kernel)

end CodeAgent.CommandPolicy
