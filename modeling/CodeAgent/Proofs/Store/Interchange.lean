import CodeAgent.Proofs.Json.Nesting
import CodeAgent.Proofs.Store.Aspect
import CodeAgent.Store.Memory

/-! An index in memory and an index in a database, after the same calls.
Both hold the same records, symbols, graph and notes. Of the outlines and the metadata of files the
one in memory holds more: a pass takes away what belongs to recorded files only, while the database
starts anew. And a note that nests too deep is kept as a text that cannot be read. All other answers
are equal. -/
namespace CodeAgent

/- What has been called, newest first -/

def MemoryIndex.after : List IndexCall → MemoryIndex
  | [] => .empty
  | c :: before => ((after before).answer c).2

def Database.after (project : String) : List IndexCall → Database
  | [] => .empty
  | c :: before => ((after project before).answer project c).2

namespace IndexCall

/-- The file has a record: it was recorded, and neither deleted nor missed by a pass since. -/
def recorded (path : String) : List IndexCall → Bool
  | [] => false
  | setFile r :: before => r.path = path || recorded path before
  | deleteFile gone :: before => gone ≠ path && recorded path before
  | commit s :: _ => path ∈ s.files.map (·.path)
  | _ :: before => recorded path before

/-- The file has the aspect: it was given or found, and neither has the file been deleted since, nor
has a pass missed it while it was recorded. -/
def held (a : Aspect) (path : String) : List IndexCall → Bool
  | [] => false
  | deleteFile gone :: before => gone ≠ path && held a path before
  | commit s :: before =>
    (a.found s).contains path
      || (held a path before && !(recorded path before && path ∉ s.files.map (·.path)))
  | c :: before => (a.given c).any (·.1 = path) || held a path before

/-- The file has the aspect since the last pass: it was found by it, or given since. -/
def known (a : Aspect) (path : String) : List IndexCall → Bool
  | [] => false
  | deleteFile gone :: before => gone ≠ path && known a path before
  | commit s :: _ => (a.found s).contains path
  | c :: before => (a.given c).any (·.1 = path) || known a path before

/-- A pass did not find the aspect of the file, and it was not taken away either. -/
def Lingers (a : Aspect) (path : String) (history : List IndexCall) : Prop :=
  held a path history ∧ known a path history = false

/-- The value last noted. -/
def noted (key : String) : List IndexCall → Option Json
  | [] => none
  | setNote key' value :: before => if key = key' then some value else noted key before
  | commit s :: before => if key = lastIndexedKey then some (.int s.indexedAt) else noted key before
  | _ :: before => noted key before

/-- The questions that the index in memory and the one in the database answer differently. -/
def Tells (history : List IndexCall) : IndexCall → Prop
  | outline path => Lingers .outline path history
  | fileMeta path => Lingers .fileMeta path history
  | note key => ∃ v, noted key history = some v ∧ ¬ v.Nests Json.maxDepth
  | _ => False

/-- The bits that numbers are read with hold them, notes have no fractions, and no two records of a
pass share a path. -/
def Storable : IndexCall → Prop
  | setFile r => r.Fits
  | setOutline _ o => o.Fits
  | setMeta _ m => m.complexity.Fits
  | setSymbols s => s.Fits
  | setNote _ value => value.Whole
  | commit s => s.Fits ∧ (s.files.map (·.path)).Nodup
  | _ => True

theorem Storable.given {a : Aspect} {c : IndexCall} {path : String} {v : a.Value} (storable : c.Storable)
    (given : a.given c = some (path, v)) : a.Fits v := by
  cases a <;> cases c <;> cases given <;> exact storable

section

variable {a : Aspect} {c : IndexCall} {path : String} {history : List IndexCall}

theorem held_cons (stays : c.sweeps = false) :
    held a path (c :: history) = ((a.given c).any (·.1 = path) || held a path history) := by
  cases c with
  | deleteFile => cases stays
  | commit => cases stays
  | _ => rfl

theorem known_cons (stays : c.sweeps = false) :
    known a path (c :: history) = ((a.given c).any (·.1 = path) || known a path history) := by
  cases c with
  | deleteFile => cases stays
  | commit => cases stays
  | _ => rfl

end

end IndexCall

open IndexCall

/- What is held and what is stored of it -/

section

variable {α : Type} {write : α → Json} {read : Json → Option α}

/-- A value is stored as a document that it is read back from; none is stored of none. -/
def Stored (write : α → Json) (read : Json → Option α) (value : Option α) (document : Option String) :
    Prop :=
  document = value.map (fun v => (write v).compact) ∧
    ∀ v, value = some v → Json.Restores Json.maxDepth write read v

theorem stored_none : Stored write read none none := ⟨rfl, nofun⟩

theorem stored_some {v : α} (restores : Json.Restores Json.maxDepth write read v) :
    Stored write read (some v) (some (write v).compact) :=
  ⟨rfl, fun _ same => Option.some.inj same ▸ restores⟩

theorem Stored.decode {value : Option α} {document : Option String}
    (stored : Stored write read value document) : Database.decodeIfAny read document = .ok value := by
  obtain ⟨rfl, restores⟩ := stored
  cases value with
  | none => rfl
  | some v =>
    rw [Option.map_some, Database.decodeIfAny, Database.decode_compact (restores v rfl)]
    rfl

end

/-- The aspect of a file, as it is held in memory and stored in the database after some calls. -/
structure Mirrors (a : Aspect) (path : String) (history : List IndexCall) (value : Option a.Value)
    (document : Option String) : Prop where
  held : value.isSome = held a path history
  known : document.isSome = known a path history
  stored : document.isSome → Stored a.write a.read value document

/-- An index in memory and a database, after the same calls. -/
structure Alike (project : String) (history : List IndexCall) (m : MemoryIndex) (d : Database) : Prop where
  file (path : String) :
    Stored FileRecord.toJson FileRecord.ofJson? (m.files.get? path) (d.files.get? project path)
  recorded (path : String) : (m.files.get? path).isSome = recorded path history
  aspect (a : Aspect) (path : String) :
    Mirrors a path history ((a.table m).get? path) ((a.shelf d).get? project path)
  symbols : Database.decodeOr .empty SymbolIndex.ofJson? (d.indexes.get? project Database.symbolsKey) =
    .ok m.symbols
  graph : Database.decodeOr .empty DependencyGraph.ofJson? (d.indexes.get? project Database.graphKey) =
    .ok m.graph
  noted (key : String) : m.notes.get? key = noted key history
  note (key : String) : d.notes.get? project key = (m.notes.get? key).map Json.compact
  whole (key : String) (v : Json) : m.notes.get? key = some v → v.Whole

namespace Alike

variable {project : String} {history : List IndexCall} {m : MemoryIndex} {d : Database} {c : IndexCall}

theorem empty : Alike project [] .empty .empty where
  file _ := stored_none
  recorded _ := rfl
  aspect a _ := by cases a <;> exact ⟨rfl, rfl, nofun⟩
  symbols := rfl
  graph := rfl
  noted _ := rfl
  note _ := rfl
  whole _ _ := nofun

/- One call -/

theorem answer_commit {s : Snapshot} (single : (s.files.map (·.path)).Nodup) :
    d.answer project (.commit s) = (.ok (), d.replaced project s) := by
  rw [Database.answer, Database.commit_eq, if_pos single]

/-- The records of a pass, in memory and as rows. -/
theorem file_commit {s : Snapshot} (single : (s.files.map (·.path)).Nodup) (fits : s.Fits)
    (path : String) :
    Stored FileRecord.toJson FileRecord.ofJson? ((m.commit s).files.get? path)
        ((d.replaced project s).files.get? project path) ∧
      ((m.commit s).files.get? path).isSome = decide (path ∈ s.files.map (·.path)) := by
  have rows : s.fileRows.map (·.1) = s.files.map (·.path) := List.map_map
  rw [Database.replaced, Shelf.get?_replace]
  by_cases found : path ∈ s.files.map (·.path)
  · obtain ⟨r, inside, rfl⟩ := List.mem_map.mp found
    have row : (r.path, r.toJson.compact) ∈ s.fileRows := List.mem_map.mpr ⟨r, inside, rfl⟩
    rw [m.get?_commit single inside, Table.ofList, Table.get?_inserts_of_mem (rows ▸ single) row]
    exact ⟨stored_some (FileRecord.restores (fits.files r inside)), by simpa using found⟩
  · have absent : (m.commit s).files.get? path = none :=
      Option.eq_none_iff_forall_ne_some.mpr fun r there => by
        obtain ⟨inside, rfl⟩ := MemoryIndex.get?_of_commit there
        exact found (List.mem_map.mpr ⟨r, inside, rfl⟩)
    rw [absent, Table.ofList, Table.get?_inserts_of_not_mem (rows ▸ found)]
    exact ⟨stored_none, by simpa using found⟩

theorem file_answer (alike : Alike project history m d) (storable : c.Storable) (path : String) :
    Stored FileRecord.toJson FileRecord.ofJson? ((m.answer c).2.files.get? path)
        ((d.answer project c).2.files.get? project path) ∧
      ((m.answer c).2.files.get? path).isSome = IndexCall.recorded path (c :: history) := by
  have before := And.intro (alike.file path) (alike.recorded path)
  cases c with
  | setFile r =>
    simp only [MemoryIndex.answer, MemoryIndex.setFile, Database.answer, Table.get?_insert, Shelf.get?_put,
      IndexCall.recorded]
    by_cases here : path = r.path
    · simpa [here] using stored_some (FileRecord.restores storable)
    · simpa [here, Ne.symm here] using before
  | deleteFile gone =>
    simp only [MemoryIndex.answer, MemoryIndex.deleteFile, Database.answer, Table.get?_erase,
      Shelf.get?_remove, IndexCall.recorded]
    by_cases here : path = gone
    · simpa [here] using stored_none
    · simpa [here, Ne.symm here] using before
  | commit s =>
    rw [answer_commit storable.2]
    exact file_commit storable.2 storable.1 path
  | _ => exact before

/-- A pass puts its own over what it found, and what it missed goes if it was recorded. -/
theorem aspect_commit (alike : Alike project history m d) {s : Snapshot} (fits : s.Fits) (a : Aspect)
    (path : String) :
    Mirrors a path (.commit s :: history) ((a.table (m.commit s)).get? path)
      ((a.shelf (d.replaced project s)).get? project path) := by
  have before := (alike.aspect a path).held
  have recorded := alike.recorded path
  rw [a.get?_commit, a.document_commit]
  cases found : (a.found s).get? path with
  | some v =>
    have restores := Aspect.restores (a.fits_found fits (path, v) (Table.get?_eq_some.mp found))
    refine ⟨?_, ?_, fun _ => stored_some restores⟩
    · simp [IndexCall.held, Table.contains, found]
    · simp [IndexCall.known, Table.contains, found]
  | none =>
    refine ⟨?_, ?_, nofun⟩
    · rw [IndexCall.held, Table.contains, found, ← before, ← recorded, Option.none_or]
      by_cases gone : (m.files.get? path).isSome ∧ path ∉ s.files.map (·.path)
      · rw [if_pos gone, gone.1, decide_eq_true gone.2]
        simp
      · have kept : ((m.files.get? path).isSome && decide (path ∉ s.files.map (·.path))) = false := by
          rwa [Bool.and_eq_false_iff, decide_eq_false_iff_not, ← Bool.not_eq_true, ← not_and_or]
        rw [if_neg gone, kept]
        simp
    · simp [IndexCall.known, Table.contains, found]

theorem aspect_deleteFile (alike : Alike project history m d) (gone : String) (a : Aspect)
    (path : String) :
    Mirrors a path (.deleteFile gone :: history) ((a.table (m.deleteFile gone)).get? path)
      ((a.shelf (d.answer project (.deleteFile gone)).2).get? project path) := by
  have before := alike.aspect a path
  rw [a.get?_deleteFile, a.document_deleteFile]
  by_cases here : path = gone
  · rw [if_pos here, if_pos here]
    exact ⟨by simp [IndexCall.held, here], by simp [IndexCall.known, here], nofun⟩
  · rw [if_neg here, if_neg here]
    refine ⟨?_, ?_, before.stored⟩
    · simp [IndexCall.held, Ne.symm here, before.held]
    · simp [IndexCall.known, Ne.symm here, before.known]

theorem aspect_answer (alike : Alike project history m d) (storable : c.Storable) (a : Aspect)
    (path : String) :
    Mirrors a path (c :: history) ((a.table (m.answer c).2).get? path)
      ((a.shelf (d.answer project c).2).get? project path) := by
  have before := alike.aspect a path
  cases stays : c.sweeps with
  | false =>
    cases given : a.given c with
    | none =>
      rw [a.table_answer m given stays, a.shelf_answer d project given stays]
      refine ⟨?_, ?_, before.stored⟩
      · rw [before.held, held_cons stays, given]
        rfl
      · rw [before.known, known_cons stays, given]
        rfl
    | some e =>
      rw [a.get?_given m path given, a.document_given path d project given]
      by_cases here : path = e.1
      · rw [if_pos here, if_pos here]
        refine ⟨?_, ?_, fun _ => stored_some (Aspect.restores (storable.given given))⟩
        · simp [held_cons stays, given, here]
        · simp [known_cons stays, given, here]
      · rw [if_neg here, if_neg here]
        refine ⟨?_, ?_, before.stored⟩
        · simp [held_cons stays, given, Ne.symm here, before.held]
        · simp [known_cons stays, given, Ne.symm here, before.known]
  | true =>
    cases c with
    | deleteFile gone => exact alike.aspect_deleteFile gone a path
    | commit s =>
      rw [answer_commit storable.2]
      exact alike.aspect_commit storable.1 a path
    | _ => cases stays

theorem symbols_answer (alike : Alike project history m d) (storable : c.Storable) :
    Database.decodeOr .empty SymbolIndex.ofJson?
      ((d.answer project c).2.indexes.get? project Database.symbolsKey) = .ok (m.answer c).2.symbols := by
  have before := alike.symbols
  have other : Database.symbolsKey ≠ Database.graphKey := by decide
  cases c with
  | setSymbols s =>
    rw [Database.answer, Shelf.get?_put, if_pos rfl]
    exact Database.decode_compact (SymbolIndex.restores storable)
  | setGraph g =>
    rw [Database.answer, Shelf.get?_put, if_neg other]
    exact before
  | commit s =>
    rw [answer_commit storable.2, Database.replaced, Shelf.get?_put, if_neg other, Shelf.get?_put,
      if_pos rfl, MemoryIndex.answer, (m.commit_parts s).1]
    exact Database.decode_compact (SymbolIndex.restores storable.1.symbols)
  | _ => exact before

theorem graph_answer (alike : Alike project history m d) (storable : c.Storable) :
    Database.decodeOr .empty DependencyGraph.ofJson?
      ((d.answer project c).2.indexes.get? project Database.graphKey) = .ok (m.answer c).2.graph := by
  have before := alike.graph
  have other : Database.graphKey ≠ Database.symbolsKey := by decide
  cases c with
  | setSymbols s =>
    rw [Database.answer, Shelf.get?_put, if_neg other]
    exact before
  | setGraph g =>
    rw [Database.answer, Shelf.get?_put, if_pos rfl]
    exact Database.decode_compact g.restores
  | commit s =>
    rw [answer_commit storable.2, Database.replaced, Shelf.get?_put, if_pos rfl, MemoryIndex.answer,
      (m.commit_parts s).2.1]
    exact Database.decode_compact s.graph.restores
  | _ => exact before

/-- A note, in memory and as a document. -/
theorem note_answer (alike : Alike project history m d) (storable : c.Storable) (key : String) :
    (m.answer c).2.notes.get? key = IndexCall.noted key (c :: history) ∧
      (d.answer project c).2.notes.get? project key =
        ((m.answer c).2.notes.get? key).map Json.compact ∧
      ∀ v, (m.answer c).2.notes.get? key = some v → v.Whole := by
  have before := And.intro (alike.noted key) (And.intro (alike.note key) (alike.whole key))
  have put {named : String} {value : Json} (whole : value.Whole) :
      (m.notes.insert named value).get? key =
          (if key = named then some value else IndexCall.noted key history) ∧
        (d.notes.put project named value.compact).get? project key =
          ((m.notes.insert named value).get? key).map Json.compact ∧
        ∀ v, (m.notes.insert named value).get? key = some v → v.Whole := by
    rw [Table.get?_insert, Shelf.get?_put]
    by_cases here : key = named
    · simpa [here] using whole
    · simpa [here] using before
  cases c with
  | setNote named value => exact put storable
  | commit s =>
    rw [answer_commit storable.2, MemoryIndex.answer, (m.commit_parts s).2.2]
    exact put (.int storable.1.notBefore (Int.le_trans storable.1.notAfter (by decide)))
  | _ => exact before

theorem answer (alike : Alike project history m d) (storable : c.Storable) :
    Alike project (c :: history) (m.answer c).2 (d.answer project c).2 where
  file path := (alike.file_answer storable path).1
  recorded path := (alike.file_answer storable path).2
  aspect := alike.aspect_answer storable
  symbols := alike.symbols_answer storable
  graph := alike.graph_answer storable
  noted key := (alike.note_answer storable key).1
  note key := (alike.note_answer storable key).2.1
  whole key := (alike.note_answer storable key).2.2

theorem after (project : String) (storable : ∀ c ∈ history, c.Storable) :
    Alike project history (.after history) (.after project history) := by
  induction history with
  | nil => exact empty
  | cons c before ih =>
    obtain ⟨newest, earlier⟩ := List.forall_mem_cons.mp storable
    exact (ih earlier).answer newest

/- What is answered -/

/-- All records, by path. -/
theorem files_agree (alike : Alike project history m d) :
    (d.files.documents project).mapM (Database.decode FileRecord.ofJson?) = .ok m.files.values := by
  have rows : (Table.get? d.files project).getD .empty =
      m.files.mapValues fun _ r => r.toJson.compact := Table.ext_get? fun path => by
    have document := (alike.file path).1
    rw [Table.get?_mapValues, ← document, Shelf.get?]
    cases Table.get? d.files project <;> rfl
  have documents : d.files.documents project = m.files.values.map fun r => r.toJson.compact := by
    rw [Shelf.documents, rows, Table.values, Table.values, Table.mapValues, List.map_map, List.map_map]
    rfl
  rw [documents]
  refine Json.mapM_map fun r inside => Database.decode_compact ?_
  obtain ⟨e, member, rfl⟩ := List.mem_map.mp inside
  exact (alike.file e.1).2 e.2 (Table.get?_eq_some.mpr member)

theorem aspect_agrees_iff (alike : Alike project history m d) (a : Aspect) (path : String) :
    Database.decodeIfAny a.read ((a.shelf d).get? project path) = .ok ((a.table m).get? path) ↔
      ¬ Lingers a path history := by
  obtain ⟨held, known, stored⟩ := alike.aspect a path
  rw [Lingers, ← held, ← known]
  cases document : (a.shelf d).get? project path with
  | some text =>
    rw [document] at stored
    exact iff_of_true (stored rfl).decode (by simp)
  | none => cases (a.table m).get? path <;> simp [Database.decodeIfAny]

/-- A note is read back unless it nests too deep. -/
theorem note_agrees_iff (alike : Alike project history m d) (key : String) :
    Database.decodeIfAny (fun j => some j.canonical) (d.notes.get? project key) =
        .ok (m.notes.get? key) ↔
      ¬ ∃ v, IndexCall.noted key history = some v ∧ ¬ v.Nests Json.maxDepth := by
  rw [alike.note, ← alike.noted]
  cases noted : m.notes.get? key with
  | none => simp [Database.decodeIfAny]
  | some v =>
    have whole := alike.whole key v noted
    rw [Option.map_some, Database.decodeIfAny, Database.decode]
    by_cases nests : v.Nests Json.maxDepth
    · rw [Json.parse?_compact (whole.readable nests), Option.bind_some, whole.canonical_eq]
      refine iff_of_true rfl ?_
      rintro ⟨v', same, deep⟩
      exact deep (Option.some.inj same ▸ nests)
    · refine iff_of_false (fun same => ?_) (not_not_intro ⟨v, rfl, nests⟩)
      -- whatever is read of the text nests less than the value
      cases read : Json.parse? v.compact with
      | none =>
        rw [read] at same
        cases same
      | some j =>
        rw [read] at same
        obtain rfl : j.canonical = v := by simpa [Except.map] using same
        exact nests (Json.nests_of_parse? read).canonical

end Alike

theorem Database.ok_eq_read {α : Type} {d : Database} {r : Except BackendError α} {a : α} :
    .ok a = (d.read r).1 ↔ r = .ok a := by
  cases r <;> simp [Database.read, Except.mapError, eq_comm]

/-- The index in memory and the one in the database answer alike, but for what lingers in memory and
for what cannot be read from the database. -/
theorem answers_agree_iff (project : String) {history : List IndexCall} {c : IndexCall}
    (storable : ∀ c' ∈ c :: history, c'.Storable) :
    ((MemoryIndex.after history).answer c).1 = ((Database.after project history).answer project c).1 ↔
      ¬ Tells history c := by
  obtain ⟨newest, earlier⟩ := List.forall_mem_cons.mp storable
  have alike := Alike.after project earlier
  cases c with
  | file path => exact iff_of_true (Database.ok_eq_read.mpr (alike.file path).decode) id
  | files => exact iff_of_true (Database.ok_eq_read.mpr alike.files_agree) id
  | outline path => exact Database.ok_eq_read.trans (alike.aspect_agrees_iff .outline path)
  | fileMeta path => exact Database.ok_eq_read.trans (alike.aspect_agrees_iff .fileMeta path)
  | symbols => exact iff_of_true (Database.ok_eq_read.mpr alike.symbols) id
  | graph => exact iff_of_true (Database.ok_eq_read.mpr alike.graph) id
  | note key => exact Database.ok_eq_read.trans (alike.note_agrees_iff key)
  | commit s =>
    rw [Alike.answer_commit newest.2]
    exact iff_of_true rfl id
  | _ => exact iff_of_true rfl id

/-- A file that was indexed with its outline, and then found by a pass that made no outline of it. -/
def unparsed : List IndexCall :=
  [.commit { files := [⟨"a.go", ["package"], "", 7, 1⟩], outlines := .empty, metas := .empty,
             symbols := .empty, graph := .empty, indexedAt := 1 },
    .setOutline "a.go" (Outline.empty "go"), .setFile ⟨"a.go", ["package a"], "", 9, 0⟩]

theorem answers_agree_iff_unparsed :
    (∀ c ∈ IndexCall.outline "a.go" :: unparsed, c.Storable) ∧
      ((MemoryIndex.after unparsed).answer (.outline "a.go")).1 ≠
        ((Database.after "p" unparsed).answer "p" (.outline "a.go")).1 := by
  have storable : ∀ c ∈ IndexCall.outline "a.go" :: unparsed, c.Storable := by
    intro c member
    simp only [unparsed, List.mem_cons, List.not_mem_nil, or_false] at member
    rcases member with rfl | rfl | rfl | rfl
    · trivial
    · refine ⟨⟨⟨fun r inside => ?_, nofun, nofun, nofun⟩, by decide, by decide⟩, by decide⟩
      obtain rfl := List.mem_singleton.mp inside
      exact ⟨by decide, by decide, by decide⟩
    · exact ⟨nofun, nofun, nofun, nofun, nofun, nofun⟩
    · exact ⟨by decide, by decide, by decide⟩
  have lingers : Tells unparsed (.outline "a.go") := ⟨by decide, by decide⟩
  exact ⟨storable, fun same => (answers_agree_iff "p" storable).mp same lingers⟩

/-- The index in memory answers with the outline from before the pass, the database with none. -/
theorem outline_lingers_unparsed :
    ((MemoryIndex.after unparsed).answer (.outline "a.go")).1 = .ok (some (Outline.empty "go")) ∧
      ((Database.after "p" unparsed).answer "p" (.outline "a.go")).1 = .ok none :=
  ⟨rfl, rfl⟩

end CodeAgent
