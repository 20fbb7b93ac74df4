import CodeAgent.Proofs.Tool.Looking

/-! How an edit is planned.
The file that is named is looked at first: nothing may be there, and what is there has to be what its
record says. Lines are then replaced only where the file has them. -/
namespace CodeAgent.Tool

open Attempt

variable {root given : String} {arguments : Json} {l : List Heard}

theorem trace_resolve_eq {r : Outcome String} (run : Act.Trace (resolve root given).run l r) :
    l = [] ∧ ((∃ path, Path.resolve root given = .ok path ∧ r = .ok path) ∨
      (∃ e, Path.resolve root given = .error e) ∧ ∃ f, r = .error f) := by
  unfold resolve at run
  cases resolved : Path.resolve root given with
  | ok path =>
    rw [resolved] at run
    obtain ⟨rfl, rfl⟩ := trace_pure.mp run
    exact ⟨rfl, Or.inl ⟨path, rfl, rfl⟩⟩
  | error e =>
    rw [resolved] at run
    obtain ⟨rfl, rfl⟩ := trace_throw.mp run
    exact ⟨rfl, Or.inr ⟨⟨e, rfl⟩, _, rfl⟩⟩

theorem trace_ofOutcome_bind {o : Outcome α} {f : α → Attempt β} {l : List Heard} {r : Outcome β}
    (run : Act.Trace (ofOutcome o >>= f).run l r) :
    (∃ e, o = .error e ∧ l = [] ∧ r = .error e) ∨ ∃ a, o = .ok a ∧ Act.Trace (f a).run l r := by
  rcases trace_bind.mp run with ⟨e, ran, rfl⟩ | ⟨a, l₁, l₂, rfl, ran, rest⟩
  · obtain ⟨rfl, same⟩ := Act.trace_pure.mp ran
    exact Or.inl ⟨e, same.symm, rfl, rfl⟩
  · obtain ⟨rfl, same⟩ := Act.trace_pure.mp ran
    exact Or.inr ⟨a, same.symm, rest⟩

/-- The fault of an edit whose file is not what its record says. -/
def changedSince (name : String) : Fault :=
  (Fault.conflict ("File has been modified since it was last read: " ++ name)).withHint
    "Read the file again before editing it"

/-- A file that is there is read, and its record is asked for. -/
inductive Recalling (path name : String) (current : FileRecord) (stored : Option FileRecord) :
    List Heard → Prop where
  | intro {l₁ l₂ l₃ : List Heard} (asked : Act.Trace (Files.kind? path) l₁ (some .file))
      (loaded : Act.Trace (Files.loadRecord path name).run l₂ (.ok current))
      (recalled : Act.Trace (Attempt.index (.file name)).run l₃ (.ok stored)) :
      Recalling path name current stored (l₁ ++ (l₂ ++ l₃))

/-- How a file is found that is about to be edited. -/
inductive Finding (root given : String) : List Heard → Outcome (String × Option FileRecord) → Prop where
  | outside {e : Path.Refusal} (f : Fault) (unresolved : Path.resolve root given = .error e) :
      Finding root given [] (.error f)
  | absent {path : String} {l : List Heard} (resolved : Path.resolve root given = .ok path)
      (asked : Act.Trace (Files.kind? path) l none) : Finding root given l (.ok (path, none))
  | notFile {path : String} {kind : FileKind} {l : List Heard} (f : Fault)
      (resolved : Path.resolve root given = .ok path)
      (asked : Act.Trace (Files.kind? path) l (some kind)) (other : kind ≠ .file) :
      Finding root given l (.error f)
  | unread {path : String} {l₁ l₂ : List Heard} {f : Fault}
      (resolved : Path.resolve root given = .ok path)
      (asked : Act.Trace (Files.kind? path) l₁ (some .file))
      (loaded : Act.Trace (Files.loadRecord path (Path.relative root path)).run l₂ (.error f)) :
      Finding root given (l₁ ++ l₂) (.error f)
  | unrecalled {path : String} {current : FileRecord} {l₁ l₂ l₃ : List Heard} {f : Fault}
      (resolved : Path.resolve root given = .ok path)
      (asked : Act.Trace (Files.kind? path) l₁ (some .file))
      (loaded : Act.Trace (Files.loadRecord path (Path.relative root path)).run l₂ (.ok current))
      (recalled : Act.Trace (Attempt.index (.file (Path.relative root path))).run l₃ (.error f)) :
      Finding root given (l₁ ++ (l₂ ++ l₃)) (.error f)
  | changed {path : String} {current stored : FileRecord} {l : List Heard}
      (resolved : Path.resolve root given = .ok path)
      (recalling : Recalling path (Path.relative root path) current (some stored) l)
      (differs : stored.hash ≠ current.hash) :
      Finding root given l (.error (changedSince (Path.relative root path)))
  | found {path : String} {current : FileRecord} {stored : Option FileRecord} {l : List Heard}
      (resolved : Path.resolve root given = .ok path)
      (recalling : Recalling path (Path.relative root path) current stored l)
      (same : ∀ r, stored = some r → r.hash = current.hash) :
      Finding root given l (.ok (path, some current))

theorem trace_unchanged {r : Outcome (String × Option FileRecord)}
    (run : Act.Trace (unchanged? root given).run l r) : Finding root given l r := by
  rcases trace_bind.mp run with ⟨f, failed, rfl⟩ | ⟨path, l₀, k₀, rfl, found, run₁⟩
  · obtain ⟨rfl, ⟨_, -, wrong⟩ | ⟨⟨e, unresolved⟩, -⟩⟩ := trace_resolve_eq failed
    · cases wrong
    · exact .outside f unresolved
  obtain ⟨rfl, ⟨_, resolved, same⟩ | ⟨-, _, wrong⟩⟩ := trace_resolve_eq found
  swap
  · cases wrong
  cases same
  rw [List.nil_append]
  obtain ⟨kind, l₁, k₁, rfl, asked, run₂⟩ := trace_lift_bind.mp run₁
  cases kind with
  | none =>
    obtain ⟨rfl, rfl⟩ := trace_pure.mp run₂
    simpa using Finding.absent resolved asked
  | some kind =>
    dsimp only at run₂
    by_cases file : kind = .file
    swap
    · rw [if_pos file] at run₂
      rcases trace_bind.mp run₂ with ⟨f, thrown, rfl⟩ | ⟨_, _, _, -, thrown, -⟩
      · obtain ⟨rfl, -⟩ := trace_throw.mp thrown
        simpa using Finding.notFile f resolved asked file
      · cases (trace_throw.mp thrown).2
    subst file
    rw [if_neg (by simp)] at run₂
    rcases trace_bind.mp run₂ with ⟨f, loaded, rfl⟩ | ⟨current, l₂, k₂, rfl, loaded, run₃⟩
    · exact .unread resolved asked loaded
    rcases trace_bind.mp run₃ with ⟨f, recalled, rfl⟩ | ⟨stored, l₃, k₃, rfl, recalled, run₄⟩
    · exact .unrecalled resolved asked loaded recalled
    have recalling : Recalling path (Path.relative root path) current stored (l₁ ++ (l₂ ++ l₃)) :=
      .intro asked loaded recalled
    cases stored with
    | none =>
      obtain ⟨rfl, rfl⟩ := trace_pure.mp run₄
      simpa using Finding.found resolved recalling (by simp)
    | some stored =>
      dsimp only at run₄
      by_cases digest : stored.hash = current.hash
      · rw [if_neg (not_not.mpr digest)] at run₄
        obtain ⟨rfl, rfl⟩ := trace_pure.mp run₄
        simpa using Finding.found resolved recalling (by simpa using digest)
      · rw [if_pos digest] at run₄
        rcases trace_bind.mp run₄ with ⟨f, thrown, rfl⟩ | ⟨_, _, _, -, thrown, -⟩
        · obtain ⟨rfl, same⟩ := trace_throw.mp thrown
          cases same
          simpa [changedSince] using Finding.changed resolved recalling digest
        · cases (trace_throw.mp thrown).2

theorem resolve_of_unchanged {found : String × Option FileRecord}
    (run : Act.Trace (unchanged? root given).run l (.ok found)) :
    Path.resolve root given = .ok found.1 := by
  cases trace_unchanged run with
  | absent resolved => exact resolved
  | found resolved => exact resolved

/-- How an edit of lines is planned. -/
inductive Planning (root : String) (arguments : Json) : List Heard → Outcome PlannedEdit → Prop where
  | incomplete (f : Fault)
      (missing : (∃ f, arguments.textArgument "path" = .error f) ∨
        (∃ f, arguments.countArgument "start" = .error f) ∨
        (∃ f, arguments.countArgument "end" = .error f) ∨
        ∃ f, arguments.textArgument "content" = .error f) :
      Planning root arguments [] (.error f)
  | refused {given : String} {l : List Heard} {f : Fault}
      (path : arguments.textArgument "path" = .ok given)
      (refused : Act.Trace (unchanged? root given).run l (.error f)) :
      Planning root arguments l (.error f)
  | unfit {given : String} {found : String × Option FileRecord} {l : List Heard} (f : Fault)
      (path : arguments.textArgument "path" = .ok given)
      (found : Act.Trace (unchanged? root given).run l (.ok found)) :
      Planning root arguments l (.error f)
  | planned {given absolute text : String} {current : FileRecord} {start last : Nat} {l : List Heard}
      (path : arguments.textArgument "path" = .ok given)
      (first : arguments.countArgument "start" = .ok start)
      (final : arguments.countArgument "end" = .ok last)
      (content : arguments.textArgument "content" = .ok text)
      (found : Act.Trace (unchanged? root given).run l (.ok (absolute, some current)))
      (fits : LineEdit.misfit? ⟨start, last, LineEdit.replacementOf text⟩ current.lines.length = none) :
      Planning root arguments l
        (.ok ⟨absolute, current, ⟨start, last, LineEdit.replacementOf text⟩⟩)

theorem trace_plan {r : Outcome PlannedEdit}
    (run : Act.Trace (PlannedEdit.of root arguments).run l r) : Planning root arguments l r := by
  rcases trace_ofOutcome_bind run with ⟨f, missing, rfl, rfl⟩ | ⟨given, path, run₁⟩
  · exact .incomplete f (Or.inl ⟨f, missing⟩)
  rcases trace_ofOutcome_bind run₁ with ⟨f, missing, rfl, rfl⟩ | ⟨start, first, run₂⟩
  · exact .incomplete f (Or.inr (Or.inl ⟨f, missing⟩))
  rcases trace_ofOutcome_bind run₂ with ⟨f, missing, rfl, rfl⟩ | ⟨last, final, run₃⟩
  · exact .incomplete f (Or.inr (Or.inr (Or.inl ⟨f, missing⟩)))
  rcases trace_ofOutcome_bind run₃ with ⟨f, missing, rfl, rfl⟩ | ⟨text, content, run₄⟩
  · exact .incomplete f (Or.inr (Or.inr (Or.inr ⟨f, missing⟩)))
  rcases trace_bind.mp run₄ with ⟨f, refused, rfl⟩ | ⟨⟨absolute, current⟩, l₁, l₂, rfl, found, rest⟩
  · exact .refused path refused
  cases current with
  | none =>
    obtain ⟨rfl, rfl⟩ := trace_throw.mp rest
    exact .unfit _ path (by simpa using found)
  | some current =>
    dsimp only at rest
    split at rest
    · obtain ⟨rfl, rfl⟩ := trace_throw.mp rest
      exact .unfit _ path (by simpa using found)
    · rename_i fits
      obtain ⟨rfl, rfl⟩ := trace_pure.mp rest
      exact .planned path first final content (by simpa using found) fits

end CodeAgent.Tool
