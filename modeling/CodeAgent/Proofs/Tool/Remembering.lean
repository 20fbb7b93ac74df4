import CodeAgent.Proofs.Project.Undo

/-! What an edit does to the files of a project, and that its change remembers it. -/
namespace CodeAgent

namespace FileTree

variable {t : FileTree}

theorem content_of_read {path : String} {b : ByteArray} (read : t.read path = .ok b) :
    ∃ p, t.place path = .ok p ∧ t.content? p = some b := by
  unfold FileTree.read at read
  cases found : t.find path with
  | error e =>
    rw [found] at read
    cases read
  | ok place =>
    obtain ⟨p, e⟩ := place
    obtain ⟨placed, entry⟩ := find_eq.mp found
    rw [found] at read
    cases e with
    | directory => cases read
    | file content modified =>
      obtain rfl := Except.ok.inj read
      exact ⟨p, placed, by rw [content?, entry]⟩

end FileTree

namespace Files

variable {t t' : FileTree} {path : String} {l : List Heard}

theorem follows_kind {kind : Option FileKind} (run : Act.Trace (kind? path) l kind)
    (follows : Follows t l t') :
    t' = t ∧ (kind = none → ∃ e, t.status path = .error e) := by
  obtain ⟨answer, l₁, l₂, rfl, asked, rest⟩ := Act.trace_bind.mp run
  obtain rfl := Act.trace_file.mp asked
  obtain ⟨now, answered, rest'⟩ := follows_file.mp follows
  cases answer with
  | ok s =>
    obtain ⟨rfl, rfl⟩ := Act.trace_pure.mp rest
    exact ⟨follows_nil.mp rest', by simp⟩
  | error e =>
    obtain ⟨rfl, rfl⟩ := Act.trace_pure.mp rest
    exact ⟨follows_nil.mp rest', fun _ => ⟨e, answered.symm⟩⟩

end Files

namespace Tool

open Attempt

variable {root : String} {t t' : FileTree} {l : List Heard}

/-- Nothing is known at a path, or its file holds the lines of a record. -/
def Found (t : FileTree) (path : String) : Option FileRecord → Prop
  | none => ∃ e, t.status path = .error e
  | some record => t.read path = .ok (Text.unlines record.lines).toUTF8

/-- A file that is about to be edited is below the root; it is not there, or it was read. -/
theorem follows_unchanged {given absolute : String} {existing : Option FileRecord}
    (run : Act.Trace (unchanged? root given).run l (.ok (absolute, existing)))
    (follows : Follows t l t') :
    ∃ names, (∀ n ∈ names, Path.Named n) ∧ absolute = Path.join root (Path.slashed names) ∧
      Found t absolute existing := by
  cases trace_unchanged run with
  | absent resolved asked =>
    obtain ⟨names, named, path⟩ := Path.resolve_eq resolved
    obtain ⟨rfl, missing⟩ := Files.follows_kind asked follows
    exact ⟨names, named, path, missing rfl⟩
  | found resolved recalling =>
    obtain ⟨names, named, path⟩ := Path.resolve_eq resolved
    cases recalling with
    | intro asked loaded recalled =>
      obtain ⟨m, follows₁, onward⟩ := follows_append.mp follows
      obtain ⟨rfl, -⟩ := Files.follows_kind asked follows₁
      obtain ⟨m', follows₂, -⟩ := follows_append.mp onward
      obtain ⟨-, ⟨text, modified, read, same⟩ | ⟨_, wrong, -⟩⟩ := Files.follows_loadRecord loaded follows₂
      · cases same
        refine ⟨names, named, path, ?_⟩
        rw [Found, FileRecord.ofContent, Text.unlines_lines]
        exact read
      · cases wrong

/-- The root is a directory under its one path. -/
structure Home (t : FileTree) (root : String) : Prop where
  placed : t.place root = .ok root
  directory : t.isDirectory root = true

theorem Home.keeps (home : Home t root) (keeps : t.Keeps t') : Home t' root where
  placed := FileTree.place_keeps (FileTree.canonical_of_place home.placed) keeps home.placed
  directory := keeps root home.directory

/-- Where a file can be written below the root, the path is the one path of that file, and its name
within the project leads back to it. -/
theorem Home.below (home : Home t root) {names : List String} {p : String}
    (named : ∀ n ∈ names, Path.Named n)
    (placed : t.place (Path.join root (Path.slashed names)) = .ok p)
    (file : t.isDirectory p = false) :
    Path.Canonical p ∧ p = Path.join root (Path.slashed names) ∧
      Path.join root (Path.relative root p) = p := by
  obtain ⟨rootPlaced, directory⟩ := home
  obtain ⟨dirs, above, rfl⟩ := FileTree.canonical_of_place rootPlaced
  cases names with
  | nil =>
    have followed := FileTree.follow_of_place placed
    rw [Path.parts_join_nil above, FileTree.follow_of_place rootPlaced] at followed
    obtain rfl := Except.ok.inj followed
    rw [directory] at file
    cases file
  | cons n names =>
    have whole : ∀ x ∈ dirs ++ n :: names, Path.Named x := by
      intro x member
      rcases List.mem_append.mp member with outer | inner
      · exact above x outer
      · exact named x inner
    have joined := Path.join_absolute above named (List.cons_ne_nil n names)
    rw [joined] at placed ⊢
    obtain ⟨-, -, rfl⟩ := (FileTree.place_absolute whole).mp placed
    refine ⟨⟨_, whole, rfl⟩, rfl, ?_⟩
    rw [Path.relative_absolute above named, joined]

/-- A file below the root was written, under its own path. -/
structure Puts (root path content : String) (t t' : FileTree) : Prop where
  contents : t'.content? = Function.update t.content? path (some content.toUTF8)
  keeps : t.Keeps t'
  canonical : Path.Canonical path
  placed : t'.place path = .ok path
  again : Path.join root (Path.relative root path) = path
  /-- Only directories on the way to the file are new. -/
  directories : ∀ dir, t'.isDirectory dir = true →
    t.isDirectory dir = true ∨ FileTree.OnTheWay (Path.parent path) dir

theorem Puts.holds {path content : String} (puts : Puts root path content t t') :
    t'.content? path = some content.toUTF8 := by
  rw [puts.contents, Function.update_self]

theorem Puts.rooted {path content : String} (puts : Puts root path content t t')
    (rooted : t.Rooted) : t'.Rooted := by
  refine rooted.of_keeps puts.keeps fun q b held => ?_
  by_cases here : q = path
  · exact Or.inr (here ▸ puts.placed)
  · rw [puts.contents, Function.update_of_ne here] at held
    exact Or.inl (by rw [held]; simp)

theorem follows_written {names : List String} {path content : String} (home : Home t root)
    (named : ∀ n ∈ names, Path.Named n) (below : path = Path.join root (Path.slashed names))
    (follows : Follows t [⟨.file (.makeDirs (Path.parent path)), .ok ()⟩,
      ⟨.file (.write path content), .ok ()⟩] t') : Puts root path content t t' := by
  obtain ⟨now, -, follows₁⟩ := follows_file.mp follows
  have made := t.content_answer_makeDirs now (Path.parent path)
  have new := @FileTree.isDirectory_tryDirs t (Path.parent path)
  change ∀ {q}, (t.answer now (.makeDirs (Path.parent path))).2.isDirectory q = true → _ at new
  generalize (t.answer now (.makeDirs (Path.parent path))).2 = m at *
  obtain ⟨now', answered, follows₂⟩ := follows_file.mp follows₁
  obtain rfl := follows_nil.mp follows₂
  rcases m.answer_write now' path content with ⟨e, same⟩ | ⟨p, placed, file, same⟩
  · rw [same] at answered
    cases answered
  rw [same]
  obtain ⟨canonical, itself, again⟩ := (home.keeps made.2).below named (below ▸ placed) file
  obtain rfl : p = path := itself.trans below.symm
  obtain ⟨contents, keeps⟩ := @FileTree.content_write m p content.toUTF8 now' file
  exact
    { contents := by rw [contents, made.1]
      keeps := made.2.trans keeps
      canonical := canonical
      placed := FileTree.place_keeps canonical keeps placed
      again := again
      directories := fun dir there => new (FileTree.isDirectory_put file there) }

theorem follows_recorded {absolute name content description : String} {previous : Option FileRecord}
    {r : Outcome (FileRecord × Change)} (rooted : t.Rooted)
    (holds : t.content? absolute = some content.toUTF8)
    (run : Act.Trace (recordChange absolute name previous content description).run l r)
    (follows : Follows t l t') (kept : ∀ h ∈ l, h.kept = true) :
    t' = t ∧ ∃ record c, r = .ok (record, c) ∧ c.path = name ∧ c.hashAfter = contentHash content ∧
      c.previousLines = (previous.map (·.lines)).getD [] ∧ c.created = previous.isNone := by
  cases trace_recordChange.mp run with
  | unread loaded =>
    obtain ⟨-, _, wrong⟩ := Files.loadRecord_of_content rooted holds loaded follows
    cases wrong
  | @unrecorded l record f loaded =>
    have wrong := kept ⟨.index (.setFile record), .error f⟩ (by simp)
    simp [Heard.kept, IndexCall.stores] at wrong
  | recorded id time loaded =>
    obtain ⟨m, follows₁, follows₂⟩ := follows_append.mp follows
    obtain ⟨rfl, -⟩ := Files.loadRecord_of_content rooted holds loaded follows₁
    exact ⟨follows₂.same (by simp), _, _, rfl, rfl, rfl, rfl, rfl⟩

theorem former_of_found {absolute : String} {existing : Option FileRecord} (rooted : t.Rooted)
    (found : Found t absolute existing) (itself : ∀ p, t.place absolute = .ok p → p = absolute) :
    t.content? absolute = if existing.isNone then none
      else some (Text.unlines ((existing.map (·.lines)).getD [])).toUTF8 := by
  cases existing with
  | none =>
    obtain ⟨e, unknown⟩ := found
    cases held : t.content? absolute with
    | none => rfl
    | some b =>
      obtain ⟨modified, known⟩ := FileTree.status_of_content rooted held
      rw [known] at unknown
      cases unknown
  | some record =>
    obtain ⟨p, placed, held⟩ := FileTree.content_of_read found
    obtain rfl := itself p placed
    exact held

/-- A change of a file below the root is remembered, or changes nothing. -/
theorem follows_changed {names : List String} {absolute name content description : String}
    {existing : Option FileRecord} {r : Outcome (FileRecord × Change)} (rooted : t.Rooted)
    (home : Home t root) (named : ∀ n ∈ names, Path.Named n)
    (path : absolute = Path.join root (Path.slashed names)) (known : name = Path.relative root absolute)
    (found : Found t absolute existing)
    (changed : ChangeRun absolute name existing content description l r)
    (follows : Follows t l t') (kept : ∀ h ∈ l, h.kept = true) :
    Journaled root t (r.toOption.map (·.2)).toList t' := by
  cases changed with
  | cancelled f =>
    obtain rfl := follows_nil.mp ((follows_other (by simp)).mp follows)
    exact .refl root rooted
  | unwritten tried =>
    have follows₁ := (follows_other (by simp)).mp follows
    cases tried with
    | noDirectory e =>
      obtain ⟨now, -, rest⟩ := follows_file.mp follows₁
      obtain rfl := follows_nil.mp rest
      have made := t.content_answer_makeDirs now (Path.parent absolute)
      exact .of_content rooted made.1 made.2
    | unwritten e =>
      obtain ⟨now, -, follows₂⟩ := follows_file.mp follows₁
      have made := t.content_answer_makeDirs now (Path.parent absolute)
      obtain ⟨now', answered, rest⟩ := follows_file.mp follows₂
      obtain rfl := follows_nil.mp rest
      rcases FileTree.answer_write (t.answer now (.makeDirs (Path.parent absolute))).2 now' absolute
        content with ⟨f, same⟩ | ⟨p, -, -, same⟩
      · rw [same]
        exact .of_content rooted made.1 made.2
      · rw [same] at answered
        cases answered
  | @written l r recorded =>
    obtain ⟨m, follows₁, follows₂⟩ :=
      (@follows_append t t' [_, _] l).mp ((follows_other (by simp)).mp follows)
    have puts := follows_written home named path follows₁
    have rooted' := puts.rooted rooted
    obtain ⟨rfl, record, c, rfl, named', digest, lines, created⟩ :=
      follows_recorded rooted' puts.holds recorded follows₂ fun h member => kept h (by simp [member])
    refine ⟨rooted', puts.keeps, .single ?_⟩
    have leads : Path.join root c.path = absolute := by rw [named', known, puts.again]
    constructor
    · rw [leads]
      exact puts.canonical
    · exact ⟨content, digest, by rw [leads, puts.contents]⟩
    · rw [leads, created, lines]
      exact former_of_found rooted found fun q found' => FileTree.eq_of_place puts.canonical found'

/-- An edit is remembered by its change, or it changes nothing. -/
theorem follows_edit {e : BodyEnd} (rooted : t.Rooted) (home : Home t root)
    (edited : EditRun root l e) (follows : Follows t l t') (kept : ∀ h ∈ l, h.kept = true) :
    Journaled root t e.change?.toList t' := by
  cases edited with
  | refused f looked =>
    obtain rfl := follows.same fun h member => Or.inl (looked h member)
    exact .refl root rooted
  | @changed l₁ l₂ given absolute content description existing r e found changed declared =>
    obtain ⟨m, follows₁, follows₂⟩ := follows_append.mp follows
    obtain rfl := follows₁.same fun h member => Or.inl (looked found (looks_unchanged ..) h member)
    obtain ⟨names, named, path, before⟩ := follows_unchanged found follows₁
    rw [declared]
    exact follows_changed rooted home named path rfl before changed follows₂ fun h member =>
      kept h (List.mem_append_right _ member)

end Tool

end CodeAgent
