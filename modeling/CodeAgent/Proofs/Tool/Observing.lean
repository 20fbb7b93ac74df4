import CodeAgent.Proofs.Project.Recording

/-! What reads, edits and undos make the index hold.
Each reads a file before it hands over a record, so the record is of the file as it is then; and an edit
is refused when the file is not what its record says. -/
namespace CodeAgent

namespace FileTree

variable {t : FileTree}

theorem status_of_read {path : String} {b : ByteArray} (read : t.read path = .ok b) :
    ∃ modified, t.status path = .ok ⟨.file, b.size, modified⟩ := by
  unfold FileTree.read at read
  cases found : t.find path with
  | error e =>
    rw [found] at read
    cases read
  | ok there =>
    obtain ⟨p, e⟩ := there
    rw [found] at read
    cases e with
    | directory => cases read
    | file content modified =>
      obtain rfl := Except.ok.inj read
      exact ⟨modified, by rw [status, found]; rfl⟩

end FileTree

namespace Files

variable {s s' : Scene} {path : String} {l : List Heard}

theorem unasked_call {what : String} {c : FileCall} {r : Outcome c.Result}
    (run : Act.Trace (call what path c).run l r) : ∀ h ∈ l, ∀ i, h.question ≠ .index i := by
  rcases trace_call run with ⟨a, rfl, -⟩ | ⟨e, rfl, -⟩ <;> simp

theorem WriteRun.unasked {content : String} {r : Outcome Unit} (run : WriteRun path content l r) :
    ∀ h ∈ l, ∀ i, h.question ≠ .index i := by
  cases run <;> simp

theorem along_kind {kind : Option FileKind} (run : Act.Trace (kind? path) l kind)
    (along : Along s l s') : s' = s ∧ kind = (s.files.status path).toOption.map (·.kind) := by
  obtain rfl := along.same (run.within (within_kind Ask.peeks_of_looks path)).1
  obtain ⟨answer, l₁, l₂, rfl, asked, rest⟩ := Act.trace_bind.mp run
  obtain rfl := Act.trace_file.mp asked
  obtain ⟨now, answered, -⟩ := along_file.mp along
  have known : s'.files.status path = answer := answered.symm
  rw [known]
  cases answer <;> exact ⟨rfl, (Act.trace_pure.mp rest).2⟩

end Files

namespace Tool

open Attempt

variable {root given path : String} {s s' : Scene} {l : List Heard}

/-- The index holds a record of a file as it is, up to the digest. -/
def Known (root path : String) (s : Scene) : Prop :=
  ∃ text r, s.files.read path = .ok text.toUTF8 ∧ s.records (Path.relative root path) = some r ∧
    r.hash = contentHash text

/-- The name of a file within the project leads back to it. -/
theorem Home.leads_back {t : FileTree} {b : ByteArray} (home : Home t root)
    (below : ∃ names, (∀ n ∈ names, Path.Named n) ∧ path = Path.join root (Path.slashed names))
    (read : t.read path = .ok b) : Path.join root (Path.relative root path) = path := by
  obtain ⟨names, named, rfl⟩ := below
  obtain ⟨p, placed, holds⟩ := FileTree.content_of_read read
  obtain ⟨modified, entry⟩ := FileTree.entry_of_content holds
  obtain ⟨-, rfl, again⟩ := home.below named placed (by rw [FileTree.isDirectory, entry])
  exact again

/- Reading -/

/-- A file that is looked at beside its record is as it is, and so is its record. -/
theorem along_recalling {name : String} {current : FileRecord} {stored : Option FileRecord}
    (recalling : Recalling path name current stored l) (along : Along s l s') :
    s' = s ∧ stored = s.records name ∧
      ∃ text modified, s.files.read path = .ok text.toUTF8 ∧ current = .ofContent name text modified := by
  cases recalling with
  | intro asked loaded recalled =>
    obtain ⟨m, along₁, onward⟩ := along_append.mp along
    obtain ⟨rfl, -⟩ := Files.along_kind asked along₁
    obtain ⟨m₁, along₂, along₃⟩ := along_append.mp onward
    obtain rfl := along₂.same (loaded.within (Files.within_loadRecord Ask.peeks_of_looks ..)).1
    obtain ⟨rfl, known⟩ := along_recall recalled along₃
    obtain ⟨-, ⟨text, modified, read, same⟩ | ⟨_, wrong, -⟩⟩ :=
      Files.follows_loadRecord loaded along₂.follows
    · exact ⟨rfl, known stored rfl, text, modified, read, Except.ok.inj same⟩
    · cases wrong

/-- How a file is read: nothing comes of it, the index holds what was found, or it is handed that. -/
inductive ObserveRun (root given : String) : List Heard → Outcome FileRecord → Prop where
  | refused {l : List Heard} {f : Fault} (peeks : ∀ h ∈ l, h.question.peeks) :
      ObserveRun root given l (.error f)
  | known {path : String} {current : FileRecord} {stored : Option FileRecord} {l : List Heard}
      (resolved : Path.resolve root given = .ok path)
      (recalling : Recalling path (Path.relative root path) current stored l)
      (same : stored.map (·.hash) = some current.hash) : ObserveRun root given l (.ok current)
  | given {path : String} {current : FileRecord} {stored : Option FileRecord} {l : List Heard}
      (answer : Outcome Unit) (resolved : Path.resolve root given = .ok path)
      (recalling : Recalling path (Path.relative root path) current stored l) :
      ObserveRun root given (l ++ [⟨.index (.setFile current), answer⟩]) (answer.map fun _ => current)

theorem trace_observe {r : Outcome FileRecord} (run : Act.Trace (observe root given).run l r) :
    ObserveRun root given l r := by
  rcases trace_bind.mp run with ⟨f, resolved, rfl⟩ | ⟨path, l₁, k, rfl, resolved, run₁⟩
  · obtain ⟨rfl, -⟩ := trace_resolve_eq resolved
    exact .refused (by simp)
  obtain ⟨rfl, ⟨_, at_, same⟩ | ⟨-, _, wrong⟩⟩ := trace_resolve_eq resolved
  swap
  · cases wrong
  cases same
  rw [List.nil_append]
  obtain ⟨isFile, l₂, k₁, rfl, asked, run₂⟩ := trace_lift_bind.mp run₁
  have looked := (asked.within (Files.within_isFile Ask.peeks_of_looks path)).1
  obtain ⟨kind, l₂, _, rfl, found, ending⟩ := Act.trace_bind.mp asked
  obtain ⟨rfl, rfl⟩ := Act.trace_pure.mp ending
  rw [List.append_nil] at looked ⊢
  dsimp only at run₂
  split at run₂
  · obtain ⟨rfl, rfl⟩ := trace_throw.mp run₂
    rw [List.append_nil]
    exact .refused looked
  rename_i file
  obtain rfl : kind = some .file := by simpa using file
  rcases trace_bind.mp run₂ with ⟨f, loaded, rfl⟩ | ⟨current, l₃, k₂, rfl, loaded, run₃⟩
  · refine .refused fun h member => (List.mem_append.mp member).elim (looked h) fun later => ?_
    exact (loaded.within (Files.within_loadRecord Ask.peeks_of_looks ..)).1 h later
  rcases trace_bind.mp run₃ with ⟨f, recalled, rfl⟩ | ⟨stored, l₄, k₃, rfl, recalled, run₄⟩
  · refine .refused fun h member => (List.mem_append.mp member).elim (looked h) fun later => ?_
    have loads := (loaded.within (Files.within_loadRecord Ask.peeks_of_looks ..)).1
    rw [trace_index.mp recalled] at later
    exact (List.mem_append.mp later).elim (loads h) fun last => by simp_all [Ask.peeks]
  have recalling : Recalling path (Path.relative root path) current stored (l₂ ++ (l₃ ++ l₄)) :=
    .intro found loaded recalled
  split at run₄
  · rcases trace_bind.mp run₄ with ⟨f, handed, rfl⟩ | ⟨_, l₅, l₆, rfl, handed, ending⟩
    · rw [trace_index.mp handed]
      simpa [Except.map] using ObserveRun.given (.error f) at_ recalling
    · obtain ⟨rfl, rfl⟩ := trace_pure.mp ending
      rw [trace_index.mp handed]
      simpa [Except.map] using ObserveRun.given (.ok ()) at_ recalling
  · rename_i same
    obtain ⟨rfl, rfl⟩ := trace_pure.mp run₄
    simpa using ObserveRun.known at_ recalling (not_not.mp same)

/-- A read leaves a record of the file that was read. -/
theorem along_observe {r : Outcome FileRecord} (home : Home s.files root)
    (run : Act.Trace (observe root given).run l r) (along : Along s l s') :
    s'.files = s.files ∧ Renewed root s.files s.records s'.records ∧
      ∀ path record, Path.resolve root given = .ok path → r = .ok record → Known root path s' := by
  cases trace_observe run with
  | refused peeks =>
    obtain rfl := along.same peeks
    exact ⟨rfl, .refl root _ _, by simp⟩
  | known resolved recalling same =>
    obtain ⟨rfl, held, text, modified, read, rfl⟩ := along_recalling recalling along
    refine ⟨rfl, .refl root _ _, fun path' _ again _ => ?_⟩
    cases resolved.symm.trans again
    obtain ⟨r, known, digest⟩ := Option.map_eq_some_iff.mp same
    exact ⟨text, r, read, by rw [← held, known], digest⟩
  | given answer resolved recalling =>
    obtain ⟨m, along₁, along₂⟩ := along_append.mp along
    obtain ⟨rfl, -, text, modified, read, rfl⟩ := along_recalling recalling along₁
    have leads := home.leads_back (Path.resolve_eq resolved) read
    obtain ⟨still, renewed, stores⟩ := along_setFile (.ofContent leads read) (trace_index.mpr rfl) along₂
    refine ⟨still, renewed, fun path' record again done => ?_⟩
    cases resolved.symm.trans again
    cases answer with
    | error => cases done
    | ok => exact ⟨text, _, by rw [still, read], stores rfl, rfl⟩

/- Writing -/

/-- A file that is written is recorded as it is read back. -/
theorem along_recorded {absolute name content description : String} {previous : Option FileRecord}
    {r : Outcome (FileRecord × Change)}
    (leads : ∀ b, s.files.read absolute = .ok b → Path.join root name = absolute)
    (run : Act.Trace (recordChange absolute name previous content description).run l r)
    (along : Along s l s') :
    s'.files = s.files ∧ Renewed root s.files s.records s'.records ∧
      ∀ x, r = .ok x → ∃ text record, s.files.read absolute = .ok text.toUTF8 ∧
        s'.records name = some record ∧ record.hash = contentHash text := by
  cases trace_recordChange.mp run with
  | unread loaded =>
    obtain rfl := along.same (loaded.within (Files.within_loadRecord Ask.peeks_of_looks ..)).1
    exact ⟨rfl, .refl root _ _, by simp⟩
  | unrecorded f loaded =>
    obtain ⟨m, along₁, along₂⟩ := along_append.mp along
    obtain ⟨rfl, made, -⟩ := Files.along_loadRecord leads loaded along₁
    obtain ⟨still, renewed, -⟩ := along_setFile made (trace_index.mpr rfl) along₂
    exact ⟨still, renewed, by simp⟩
  | recorded id time loaded =>
    obtain ⟨m, along₁, along₂⟩ := along_append.mp along
    obtain ⟨rfl, made, text, modified, read, rfl⟩ := Files.along_loadRecord leads loaded along₁
    obtain ⟨m₁, along₃, along₄⟩ := (@along_append m s' [_] [_, _]).mp along₂
    obtain ⟨still, renewed, stores⟩ := along_setFile made (trace_index.mpr rfl) along₃
    obtain rfl := along₄.same (by simp [Ask.peeks])
    exact ⟨still, renewed, fun _ _ => ⟨text, _, read, stores rfl, rfl⟩⟩

theorem along_changed {content description : String} {existing : Option FileRecord}
    {r : Outcome (FileRecord × Change)} (home : Home s.files root)
    (resolved : Path.resolve root given = .ok path)
    (changed : ChangeRun path (Path.relative root path) existing content description l r)
    (along : Along s l s') :
    Renewed root s'.files s.records s'.records ∧ ∀ x, r = .ok x → Known root path s' := by
  cases changed with
  | cancelled f =>
    obtain rfl := along.same (by simp [Heard.polled, Ask.peeks])
    exact ⟨.refl root _ _, by simp⟩
  | unwritten tried =>
    have same := ((along_other (by trivial)).mp along).stores.unasked tried.unasked
    rw [same]
    exact ⟨.refl root _ _, by simp⟩
  | @written l r recorded =>
    obtain ⟨m, along₁, along₂⟩ := (@along_append s s' [_, _, _] l).mp along
    have home' := home.keeps along₁.follows.keeps
    have same := along₁.stores.unasked (by simp [Heard.polled])
    obtain ⟨still, renewed, stores⟩ := along_recorded
      (fun _ => home'.leads_back (Path.resolve_eq resolved)) recorded along₂
    rw [same, ← still] at renewed
    refine ⟨renewed, fun x done => ?_⟩
    obtain ⟨text, record, read, known, digest⟩ := stores x done
    exact ⟨text, record, by rw [still, read], known, digest⟩

/-- Planning an edit changes nothing. A file that has a record is planned for when its text has the
digest of the record, and the fault is that of a change since when it has not. -/
theorem along_unchanged {b : ByteArray} {stored : FileRecord}
    {r : Outcome (String × Option FileRecord)} (resolved : Path.resolve root given = .ok path)
    (held : s.files.read path = .ok b) (recorded : s.records (Path.relative root path) = some stored)
    (run : Act.Trace (unchanged? root given).run l r) (along : Along s l s') :
    s' = s ∧ (∀ found, r = .ok found → ∃ text : String, b = text.toUTF8 ∧ stored.hash = contentHash text) ∧
      ∀ f text, r = .error f → b = String.toUTF8 text → stored.hash ≠ contentHash text →
        f = changedSince (Path.relative root path) ∨
          (⟨.index (.file (Path.relative root path)), .error f⟩ : Heard) ∈ l := by
  obtain rfl := along.same
    (run.within (within_unchanged Ask.peeks_of_looks (fun _ => trivial) root given)).1
  refine ⟨rfl, ?_⟩
  obtain ⟨modified, status⟩ := FileTree.status_of_read held
  have file : ∀ {kind l}, Act.Trace (Files.kind? path) l kind → ∀ {m}, Along s' l m → kind = some .file := by
    intro kind l asked m along
    rw [(Files.along_kind asked along).2, status]
    rfl
  cases trace_unchanged run with
  | outside f unresolved =>
    rw [resolved] at unresolved
    cases unresolved
  | absent again asked =>
    cases again.symm.trans resolved
    cases file asked along
  | notFile f again asked other =>
    cases again.symm.trans resolved
    exact absurd (Option.some.inj (file asked along)) other
  | unread again asked loaded =>
    cases again.symm.trans resolved
    obtain ⟨m, along₁, along₂⟩ := along_append.mp along
    obtain ⟨rfl, -⟩ := Files.along_kind asked along₁
    refine ⟨by simp, fun f text _ same _ => ?_⟩
    obtain ⟨-, ⟨_, _, _, wrong⟩ | ⟨_, -, unread | ⟨e, unknown⟩⟩⟩ :=
      Files.follows_loadRecord loaded along₂.follows
    · cases wrong
    · exact absurd held (same ▸ unread text)
    · rw [status] at unknown
      cases unknown
  | unrecalled again asked loaded recalled =>
    cases again.symm.trans resolved
    refine ⟨by simp, fun f text failed _ _ => Or.inr ?_⟩
    cases failed
    rw [trace_index.mp recalled]
    simp
  | changed again recalling differs =>
    cases again.symm.trans resolved
    refine ⟨by simp, fun f text failed _ _ => Or.inl ?_⟩
    cases failed
    rfl
  | found again recalling same =>
    cases again.symm.trans resolved
    obtain ⟨-, rfl, text, modified, read, rfl⟩ := along_recalling recalling along
    exact ⟨fun _ _ => ⟨text, Except.ok.inj (held.symm.trans read), same stored recorded⟩, by simp⟩

end Tool

namespace Undo

variable {root : String} {s s' : Scene} {l : List Heard} {c : Change}

theorem renewed_revert {r : Outcome Unit}
    (run : Act.Trace (revert (Path.join root c.path) c).run l r) (along : Along s l s') :
    Renewed root s'.files s.records s'.records := by
  unfold revert at run
  split at run
  · rcases Attempt.trace_bind.mp run with ⟨f, removed, rfl⟩ | ⟨_, l₁, l₂, rfl, removed, forgot⟩
    · have same := along.stores.unasked (Files.unasked_call removed)
      rw [same]
      exact .refl root _ _
    · obtain ⟨m, along₁, along₂⟩ := along_append.mp along
      have same := along₁.stores.unasked (Files.unasked_call removed)
      obtain rfl := Attempt.trace_index.mp forgot
      obtain ⟨rs, kept, rest⟩ := along_index.mp along₂
      obtain rfl := along_nil.mp rest
      rw [← same]
      exact kept.renewed (by simp [IndexCall.offered])
  · rcases Attempt.trace_bind.mp run with ⟨f, wrote, rfl⟩ | ⟨_, l₁, k, rfl, wrote, run₁⟩
    · have same := along.stores.unasked (Files.trace_writeText wrote).unasked
      rw [same]
      exact .refl root _ _
    · obtain ⟨m, along₁, along₂⟩ := along_append.mp along
      have same := along₁.stores.unasked (Files.trace_writeText wrote).unasked
      rcases Attempt.trace_bind.mp run₁ with ⟨f, loaded, rfl⟩ | ⟨record, l₂, l₃, rfl, loaded, stored⟩
      · obtain rfl := along₂.same (loaded.within (Files.within_loadRecord Ask.peeks_of_looks ..)).1
        rw [same]
        exact .refl root _ _
      · obtain ⟨m₁, along₃, along₄⟩ := along_append.mp along₂
        obtain ⟨rfl, made, -⟩ := Files.along_loadRecord (fun _ _ => rfl) loaded along₃
        obtain ⟨still, renewed, -⟩ := Attempt.along_setFile made stored along₄
        rwa [same, ← still] at renewed

/-- An undo reverts one change or none, and peeks at the rest. -/
theorem trace_run {session : Session} {out : UndoReport × Session} (run : Act.Trace (run root session) l out) :
    (∀ h ∈ l, h.question.peeks) ∨ ∃ (c : Change) (l₁ l₂ l₃ : List Heard) (r : Outcome Unit), l = l₁ ++ l₂ ++ l₃ ∧
      (∀ h ∈ l₁, h.question.peeks) ∧ Act.Trace (revert (Path.join root c.path) c).run l₂ r ∧
      ∀ h ∈ l₃, h.question.peeks := by
  unfold Undo.run at run
  split at run
  · obtain ⟨rfl, -⟩ := Act.trace_pure.mp run
    exact Or.inl (by simp)
  rename_i c rest popped
  obtain ⟨r, l₁, l₂, rfl, attempted, ending⟩ := Act.trace_bind.mp run
  have idle : ∀ h ∈ l₂, h.question.peeks := by
    split at ending
    · obtain ⟨now, l₃, l₄, rfl, clock, done⟩ := Act.trace_bind.mp ending
      obtain rfl := Act.trace_now.mp clock
      obtain ⟨rfl, -⟩ := Act.trace_pure.mp done
      simp [Ask.peeks]
    · obtain ⟨rfl, -⟩ := Act.trace_pure.mp ending
      simp
    · obtain ⟨rfl, -⟩ := Act.trace_pure.mp ending
      simp
  have peeks := Files.within_readText Ask.peeks_of_looks (Path.join root c.path)
  rcases Attempt.trace_bind.mp attempted with ⟨f, read, rfl⟩ | ⟨current, l₃, k, rfl, read, run₁⟩
  · exact Or.inl fun h member => (List.mem_append.mp member).elim ((read.within peeks).1 h) (idle h)
  split at run₁
  · obtain ⟨rfl, -⟩ := Attempt.trace_pure.mp run₁
    rw [List.append_nil]
    exact Or.inl fun h member => (List.mem_append.mp member).elim ((read.within peeks).1 h) (idle h)
  · refine Or.inr ⟨c, l₃, k, l₂, ?_⟩
    rcases Attempt.trace_bind.mp run₁ with ⟨f, reverted, rfl⟩ | ⟨_, l₄, l₅, rfl, reverted, done⟩
    · exact ⟨_, rfl, (read.within peeks).1, reverted, idle⟩
    · obtain ⟨rfl, -⟩ := Attempt.trace_pure.mp done
      rw [List.append_nil]
      exact ⟨_, rfl, (read.within peeks).1, reverted, idle⟩

/-- An undo records what it restored. -/
theorem renewed_run {session : Session} {out : UndoReport × Session}
    (run : Act.Trace (run root session) l out) (along : Along s l s') :
    Renewed root s'.files s.records s'.records := by
  rcases trace_run run with idle | ⟨c, l₁, l₂, l₃, r, rfl, before, reverted, after⟩
  · obtain rfl := along.same idle
    exact .refl root _ _
  · obtain ⟨m, along₁, along₂⟩ := along_append.mp along
    obtain ⟨m₁, along₃, along₄⟩ := along_append.mp along₁
    obtain rfl := along₃.same before
    obtain rfl := along₂.same after
    exact renewed_revert reverted along₄

end Undo

end CodeAgent
