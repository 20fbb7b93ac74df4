import CodeAgent.Proofs.Store.Documents
import Mathlib.Data.List.Perm.Basic

/-! The commit of an indexing pass, row by row.
A transaction takes the rows of the project out of three tables, adds those of the pass one after the
other and puts its index and its time over the old ones. Whichever row is refused, all is as before;
else what is read of the project is what the pass found, and nothing else has changed. -/
namespace CodeAgent

namespace Database

/- Tables and rows -/

/-- A table of the index, with rows for each project. -/
inductive Drawer where
  | files | outlines | metas | indexes | notes
deriving DecidableEq

namespace Drawer

def table : Drawer → String
  | files => "files"
  | outlines => "asts"
  | metas => "file_meta"
  | indexes => "project_indexes"
  | notes => "project_config"

/-- The complaint about a row whose key is taken. -/
def taken (a : Drawer) : BackendError :=
  .query ("UNIQUE constraint failed: " ++ a.table ++ ".project, " ++ a.table ++ ".path")

end Drawer

variable (d : Database) (project : String)

def shelf : Drawer → Shelf
  | .files => d.files
  | .outlines => d.outlines
  | .metas => d.metas
  | .indexes => d.indexes
  | .notes => d.notes

def withShelf (a : Drawer) (s : Shelf) : Database :=
  match a with
  | .files => { d with files := s }
  | .outlines => { d with outlines := s }
  | .metas => { d with metas := s }
  | .indexes => { d with indexes := s }
  | .notes => { d with notes := s }

@[simp] theorem shelf_withShelf (a : Drawer) (s : Shelf) : (d.withShelf a s).shelf a = s := by
  cases a <;> rfl

theorem shelf_withShelf_of_ne {a b : Drawer} (other : a ≠ b) (s : Shelf) :
    (d.withShelf b s).shelf a = d.shelf a := by
  cases a <;> cases b <;> first | rfl | exact absurd rfl other

@[simp] theorem withShelf_withShelf (a : Drawer) (s s' : Shelf) :
    (d.withShelf a s).withShelf a s' = d.withShelf a s' := by
  cases a <;> rfl

/-- A statement about the rows of one project. -/
inductive Statement where
  | clear (a : Drawer)
  /-- Refused when the key is taken. -/
  | add (a : Drawer) (key document : String)
  /-- A row with the same key goes. -/
  | put (a : Drawer) (key document : String)

def Statement.run : Statement → Except BackendError Database
  | clear a => .ok (d.withShelf a ((d.shelf a).replace project .empty))
  | add a key document =>
    match (d.shelf a).get? project key with
    | some _ => .error a.taken
    | none => .ok (d.withShelf a ((d.shelf a).put project key document))
  | put a key document => .ok (d.withShelf a ((d.shelf a).put project key document))

/-- Runs statements one after the other. The backend may fail at each of them, known by their number,
and when the transaction ends. -/
def transact (faults : Nat → Option BackendError) (n : Nat) :
    List Statement → Database → Except BackendError Database
  | [], d =>
    match faults n with
    | some e => .error e
    | none => .ok d
  | s :: rest, d =>
    match faults n with
    | some e => .error e
    | none => do transact faults (n + 1) rest (← s.run d project)

end Database

namespace Snapshot

open Database

def fileRows (s : Snapshot) : List (String × String) := s.files.map fun r => (r.path, r.toJson.compact)

def outlineRows (s : Snapshot) : Table String := s.outlines.mapValues fun _ o => o.toJson.compact

def metaRows (s : Snapshot) : Table String := s.metas.mapValues fun _ m => m.toJson.compact

/-- The statements of the commit. -/
def statements (s : Snapshot) : List Statement :=
  [.clear .files, .clear .outlines, .clear .metas]
    ++ s.fileRows.map (fun e => .add .files e.1 e.2)
    ++ s.outlineRows.entries.map (fun e => .add .outlines e.1 e.2)
    ++ s.metaRows.entries.map (fun e => .add .metas e.1 e.2)
    ++ [.put .indexes symbolsKey s.symbols.toJson.compact, .put .indexes graphKey s.graph.toJson.compact,
      .put .notes lastIndexedKey (Json.int s.indexedAt).compact]

/-- The bits that the numbers of the rows are read with hold them. -/
structure RowsFit (s : Snapshot) : Prop where
  files : ∀ r ∈ s.files, r.Fits
  outlines : ∀ e ∈ s.outlines.entries, e.2.Fits
  metas : ∀ e ∈ s.metas.entries, e.2.complexity.Fits
  symbols : s.symbols.Fits

/-- So do those that the time is read with. -/
structure Fits (s : Snapshot) : Prop extends s.RowsFit where
  notBefore : -Nat.pow 2 63 ≤ s.indexedAt
  notAfter : s.indexedAt ≤ Nat.pow 2 63 - 1

end Snapshot

namespace Database

variable (d : Database) (project : String) (s : Snapshot)

/-- The commit as a transaction, which is taken back unless it ends. -/
def swap (faults : Nat → Option BackendError) : Outcome Unit × Database :=
  match d.transact project faults 0 s.statements with
  | .ok d' => (.ok (), d')
  | .error e => (.error e.toFault, d)

/- The transaction is the commit -/

/-- The rows of the project in one table become these. -/
def fill (a : Drawer) (rows : Table String) : Database :=
  d.withShelf a ((d.shelf a).replace project rows)

variable {d project s}

theorem run_add_fill (a : Drawer) (rows : Table String) (key document : String) :
    (Statement.add a key document).run (d.fill project a rows) project =
      match rows.get? key with
      | some _ => .error a.taken
      | none => .ok (d.fill project a (rows.insert key document)) := by
  rw [Statement.run, fill, shelf_withShelf, Shelf.get?_replace, withShelf_withShelf]
  cases rows.get? key with
  | some _ => rfl
  | none =>
    simp only [fill, Shelf.put, Shelf.replace, Table.update, Table.get?_insert_self, Option.getD_some,
      Table.insert_insert]

/-- A list of rows is added when each of them has a key of its own, and a new one. -/
theorem foldlM_add (d : Database) (project : String) (a : Drawer) (es : List (String × String)) (rows : Table String) :
    (es.map fun e => Statement.add a e.1 e.2).foldlM (fun d s => s.run d project)
        (d.fill project a rows) =
      if (es.map (·.1)).Nodup ∧ ∀ e ∈ es, rows.get? e.1 = none then
        .ok (d.fill project a (es.foldl (fun t e => t.insert e.1 e.2) rows))
      else .error a.taken := by
  induction es generalizing rows with
  | nil => simp [pure, Except.pure]
  | cons e es ih =>
    rw [List.map_cons, List.foldlM_cons, run_add_fill]
    cases held : rows.get? e.1 with
    | some document =>
      have refused : ¬ ∀ e' ∈ e :: es, rows.get? e'.1 = none := fun fresh => by
        rw [fresh e List.mem_cons_self] at held
        cases held
      rw [if_neg fun both => refused both.2]
      rfl
    | none =>
      have onward : ((es.map (·.1)).Nodup ∧ ∀ e' ∈ es, (rows.insert e.1 e.2).get? e'.1 = none) ↔
          (((e :: es).map (·.1)).Nodup ∧ ∀ e' ∈ e :: es, rows.get? e'.1 = none) := by
        simp only [Table.get?_insert, List.map_cons, List.nodup_cons, List.forall_mem_cons, held]
        grind
      exact (ih _).trans (if_congr onward rfl rfl)

/-- The rows of a table have a key each. -/
theorem foldlM_add_table (d : Database) (project : String) (a : Drawer) (t : Table String) :
    (t.entries.map fun e => Statement.add a e.1 e.2).foldlM (fun d s => s.run d project)
        (d.fill project a .empty) = .ok (d.fill project a t) := by
  rw [foldlM_add, if_pos ⟨t.nodup_keys, fun e _ => rfl⟩]
  exact congrArg (fun rows => Except.ok (d.fill project a rows)) t.ofList_entries

/-- The database amid the transaction, with these rows in the tables that it clears. -/
def staged (d : Database) (project : String) (files outlines metas : Table String) : Database :=
  { d with
    files := d.files.replace project files
    outlines := d.outlines.replace project outlines
    metas := d.metas.replace project metas }

section

variable {files outlines metas rows : Table String}

theorem fill_files :
    (d.staged project files outlines metas).fill project .files rows =
      d.staged project rows outlines metas := by
  simp only [fill, shelf, withShelf, staged, Shelf.replace, Table.insert_insert]

theorem fill_outlines :
    (d.staged project files outlines metas).fill project .outlines rows =
      d.staged project files rows metas := by
  simp only [fill, shelf, withShelf, staged, Shelf.replace, Table.insert_insert]

theorem fill_metas :
    (d.staged project files outlines metas).fill project .metas rows =
      d.staged project files outlines rows := by
  simp only [fill, shelf, withShelf, staged, Shelf.replace, Table.insert_insert]

end

/-- What the commit leaves, when no two records share a path. -/
def replaced (d : Database) (project : String) (s : Snapshot) : Database :=
  { d with
    files := d.files.replace project (.ofList s.fileRows)
    outlines := d.outlines.replace project s.outlineRows
    metas := d.metas.replace project s.metaRows
    indexes := (d.indexes.put project symbolsKey s.symbols.toJson.compact).put project graphKey
      s.graph.toJson.compact
    notes := d.notes.put project lastIndexedKey (Json.int s.indexedAt).compact }

theorem commit_eq :
    d.commit project s =
      if (s.files.map (·.path)).Nodup then .ok (d.replaced project s) else .error duplicatePath :=
  rfl

theorem transact_none (n : Nat) (statements : List Statement) :
    transact project (fun _ => none) n statements d =
      statements.foldlM (fun d s => s.run d project) d := by
  induction statements generalizing n d with
  | nil => rfl
  | cons s rest ih =>
    rw [transact, List.foldlM_cons]
    exact bind_congr fun d' => ih (n + 1)

/-- The rows of the commit, put in one by one, make the commit. -/
theorem transact_statements (n : Nat) :
    transact project (fun _ => none) n s.statements d = d.commit project s := by
  have cleared : [Statement.clear .files, .clear .outlines, .clear .metas].foldlM
      (fun d s => s.run d project) d = .ok (d.staged project .empty .empty .empty) := rfl
  have files := foldlM_add (d.staged project .empty .empty .empty) project .files s.fileRows .empty
  have outlines := foldlM_add_table (d.staged project (.ofList s.fileRows) .empty .empty) project
    .outlines s.outlineRows
  have metas := foldlM_add_table (d.staged project (.ofList s.fileRows) s.outlineRows .empty) project
    .metas s.metaRows
  have paths : s.fileRows.map (·.1) = s.files.map (·.path) := List.map_map
  rw [fill_files, fill_files] at files
  rw [fill_outlines, fill_outlines] at outlines
  rw [fill_metas, fill_metas] at metas
  rw [transact_none, commit_eq, ← paths]
  simp only [Snapshot.statements, List.foldlM_append, cleared, bind, Except.bind, files]
  by_cases single : (s.fileRows.map (·.1)).Nodup
  · rw [if_pos ⟨single, fun e _ => rfl⟩, if_pos single]
    rw [Table.ofList] at outlines metas
    simp only [outlines, metas]
    rfl
  · rw [if_neg fun both => single both.1, if_neg single]
    rfl

/-- A transaction that ends has seen no fault. -/
theorem transact_of_ok {faults : Nat → Option BackendError} {n : Nat} {statements : List Statement}
    {d' : Database} (ended : transact project faults n statements d = .ok d') :
    transact project (fun _ => none) n statements d = .ok d' := by
  induction statements generalizing n d with
  | nil =>
    rw [transact] at ended ⊢
    cases fault : faults n with
    | some e => simp [fault] at ended
    | none => simpa [fault] using ended
  | cons s rest ih =>
    rw [transact] at ended ⊢
    cases fault : faults n with
    | some e => simp [fault] at ended
    | none =>
      rw [fault] at ended
      cases ran : s.run d project with
      | error e =>
        rw [ran] at ended
        cases ended
      | ok next =>
        rw [ran] at ended
        exact ih ended

/- What is read after the commit -/

theorem decode_compact {α : Type} {write : α → Json} {read : Json → Option α} {a : α}
    (restores : Json.Restores Json.maxDepth write read a) : decode read (write a).compact = .ok a := by
  rw [decode, restores.read_compact]

/-- Every document of a table is read back. -/
theorem decodeIfAny_mapValues {α : Type} {write : α → Json} {read : Json → Option α} {t : Table α}
    (restores : ∀ e ∈ t.entries, Json.Restores Json.maxDepth write read e.2) (key : String) :
    decodeIfAny read ((t.mapValues fun _ a => (write a).compact).get? key) = .ok (t.get? key) := by
  rw [Table.get?_mapValues]
  cases held : t.get? key with
  | none => rfl
  | some a =>
    rw [Option.map_some, decodeIfAny, decode_compact (restores (key, a) (Table.get?_eq_some.mp held))]
    rfl

theorem file_replaced (single : (s.files.map (·.path)).Nodup) (fits : ∀ r ∈ s.files, r.Fits)
    (path : String) :
    ((d.replaced project s).answer project (.file path)).1 = .ok (s.files.find? (·.path = path)) := by
  have paths : s.fileRows.map (·.1) = s.files.map (·.path) := List.map_map
  have document : (d.replaced project s).files.get? project path =
      (s.files.find? (·.path = path)).map fun r => r.toJson.compact := by
    rw [replaced, Shelf.get?_replace]
    cases found : s.files.find? (·.path = path) with
    | some r =>
      have named : r.path = path := by simpa using List.find?_some found
      have row : (path, r.toJson.compact) ∈ s.fileRows :=
        List.mem_map.mpr ⟨r, List.mem_of_find?_eq_some found, by rw [named]⟩
      rw [Table.get?_eq_some.mpr ((Table.mem_entries_ofList (paths ▸ single) _).mpr row)]
      rfl
    | none =>
      rw [Option.map_none, Option.eq_none_iff_forall_ne_some]
      intro document held
      obtain ⟨r, inside, row⟩ := List.mem_map.mp (Table.mem_of_get?_ofList held)
      have other := List.find?_eq_none.mp found r inside
      simp_all
  rw [answer, Database.read, document]
  cases found : s.files.find? (·.path = path) with
  | none => rfl
  | some r =>
    have held := FileRecord.restores (fits r (List.mem_of_find?_eq_some found))
    rw [Option.map_some, decodeIfAny, decode_compact held]
    rfl

theorem files_replaced (single : (s.files.map (·.path)).Nodup) (fits : ∀ r ∈ s.files, r.Fits) :
    ∃ rs, ((d.replaced project s).answer project .files).1 = .ok rs ∧ rs.Perm s.files ∧
      rs.Pairwise fun r r' => r.path < r'.path := by
  have paths : s.fileRows.map (·.1) = s.files.map (·.path) := List.map_map
  obtain ⟨rs, rows, perm⟩ : ∃ rs, (Table.ofList s.fileRows).entries =
      List.map (fun r => (r.path, r.toJson.compact)) rs ∧ rs.Perm s.files := by
    have perm : (Table.ofList s.fileRows).entries.Perm s.fileRows := Table.perm_ofList (paths ▸ single)
    exact (iff_of_eq (congrFun (congrFun (List.eq_map_comp_perm _) _) s.files)).mpr perm
  refine ⟨rs, ?_, perm, ?_⟩
  · have documents : (d.replaced project s).files.documents project =
        rs.map fun r => r.toJson.compact := by
      rw [replaced, Shelf.documents, Shelf.replace, Table.get?_insert_self, Option.getD_some, Table.values,
        rows, List.map_map]
      rfl
    have read : (rs.map fun r => r.toJson.compact).mapM (decode FileRecord.ofJson?) = .ok rs :=
      Json.mapM_map fun r inside => decode_compact (FileRecord.restores (fits r (perm.subset inside)))
    rw [answer, Database.read, documents, read]
    rfl
  · have ascending := (Table.ofList s.fileRows).ascending
    rw [rows, Entries.Ascending, List.pairwise_map] at ascending
    exact ascending

theorem outline_replaced (fits : ∀ e ∈ s.outlines.entries, e.2.Fits) (path : String) :
    ((d.replaced project s).answer project (.outline path)).1 = .ok (s.outlines.get? path) := by
  have read := decodeIfAny_mapValues (fun e inside => Outline.restores (fits e inside)) path
  rw [answer, Database.read, replaced, Shelf.get?_replace, Snapshot.outlineRows, read]
  rfl

theorem fileMeta_replaced (fits : ∀ e ∈ s.metas.entries, e.2.complexity.Fits) (path : String) :
    ((d.replaced project s).answer project (.fileMeta path)).1 = .ok (s.metas.get? path) := by
  have read := decodeIfAny_mapValues (fun e inside => FileMeta.restores (fits e inside)) path
  rw [answer, Database.read, replaced, Shelf.get?_replace, Snapshot.metaRows, read]
  rfl

theorem symbols_replaced (fits : s.symbols.Fits) :
    ((d.replaced project s).answer project .symbols).1 = .ok s.symbols := by
  have read := decode_compact (SymbolIndex.restores fits)
  have other : symbolsKey ≠ graphKey := by decide
  rw [answer, Database.read, replaced, Shelf.get?_put, if_neg other, Shelf.get?_put, if_pos rfl,
    decodeOr, read]
  rfl

theorem graph_replaced : ((d.replaced project s).answer project .graph).1 = .ok s.graph := by
  have read := decode_compact s.graph.restores
  rw [answer, Database.read, replaced, Shelf.get?_put, if_pos rfl, decodeOr, read]
  rfl

theorem note_replaced (above : -Nat.pow 2 63 ≤ s.indexedAt) (below : s.indexedAt ≤ Nat.pow 2 63 - 1)
    (key : String) :
    ((d.replaced project s).answer project (.note key)).1 =
      if key = lastIndexedKey then .ok (some (.int s.indexedAt))
      else (d.answer project (.note key)).1 := by
  rw [answer, Database.read, replaced, Shelf.get?_put]
  split
  · have read : Json.parse? (Json.int s.indexedAt).compact = some (.int s.indexedAt) :=
      Json.parse?_compact (Json.Restores.int above below).readable
    rw [decodeIfAny, decode, read]
    rfl
  · rfl

/-- What is answered for a project depends on its own rows only. -/
theorem answer_congr {d' : Database} {other : String}
    (same : ∀ a, Table.get? (d'.shelf a) other = Table.get? (d.shelf a) other) (c : IndexCall) :
    (d'.answer other c).1 = (d.answer other c).1 := by
  have get? (a : Drawer) (key : String) :
      (d'.shelf a).get? other key = (d.shelf a).get? other key := by rw [Shelf.get?, same, Shelf.get?]
  have documents : d'.files.documents other = d.files.documents other := by
    have table : Table.get? d'.files other = Table.get? d.files other := same .files
    rw [Shelf.documents, table, Shelf.documents]
  cases c with
  | file path => exact congrArg (fun r => (d.read (decodeIfAny _ r)).1) (get? .files path)
  | files =>
    exact congrArg (fun docs => (d.read (docs.mapM (decode FileRecord.ofJson?))).1) documents
  | outline path => exact congrArg (fun r => (d.read (decodeIfAny _ r)).1) (get? .outlines path)
  | fileMeta path => exact congrArg (fun r => (d.read (decodeIfAny _ r)).1) (get? .metas path)
  | symbols => exact congrArg (fun r => (d.read (decodeOr _ _ r)).1) (get? .indexes symbolsKey)
  | graph => exact congrArg (fun r => (d.read (decodeOr _ _ r)).1) (get? .indexes graphKey)
  | note key => exact congrArg (fun r => (d.read (decodeIfAny _ r)).1) (get? .notes key)
  | commit s' =>
    rw [answer, answer, commit_eq, commit_eq]
    by_cases single : (s'.files.map (·.path)).Nodup
    · rw [if_pos single, if_pos single]
    · rw [if_neg single, if_neg single]
  | _ => rfl

theorem shelf_replaced {other : String} (different : other ≠ project) (a : Drawer) :
    Table.get? ((d.replaced project s).shelf a) other = Table.get? (d.shelf a) other := by
  cases a <;>
    simp [shelf, replaced, Shelf.replace, Shelf.put, Table.get?_update, Table.get?_insert, different]

theorem session_replaced (c : SessionCall) :
    ((d.replaced project s).answerSession c).1 = (d.answerSession c).1 := by
  cases c <;> rfl

/-- What is read of a project is what a pass found, and no more. -/
structure Holds (d : Database) (project : String) (s : Snapshot) : Prop where
  file (path : String) :
    (d.answer project (.file path)).1 = .ok (s.files.find? (·.path = path))
  files : ∃ rs, (d.answer project .files).1 = .ok rs ∧ rs.Perm s.files ∧
    rs.Pairwise fun r r' => r.path < r'.path
  outline (path : String) : (d.answer project (.outline path)).1 = .ok (s.outlines.get? path)
  fileMeta (path : String) : (d.answer project (.fileMeta path)).1 = .ok (s.metas.get? path)
  symbols : (d.answer project .symbols).1 = .ok s.symbols
  graph : (d.answer project .graph).1 = .ok s.graph

/-- What is read after a commit: of the project what the pass found, of all else what was there. -/
structure Replaced (d : Database) (project : String) (s : Snapshot) (d' : Database) : Prop
    extends d'.Holds project s where
  note (key : String) :
    (d'.answer project (.note key)).1 =
      if key = lastIndexedKey then .ok (some (.int s.indexedAt))
      else (d.answer project (.note key)).1
  others (other : String) (different : other ≠ project) (c : IndexCall) :
    (d'.answer other c).1 = (d.answer other c).1
  sessions (c : SessionCall) : (d'.answerSession c).1 = (d.answerSession c).1

theorem holds_replaced (single : (s.files.map (·.path)).Nodup) (fits : s.RowsFit) :
    (d.replaced project s).Holds project s where
  file := file_replaced single fits.files
  files := files_replaced single fits.files
  outline := outline_replaced fits.outlines
  fileMeta := fileMeta_replaced fits.metas
  symbols := symbols_replaced fits.symbols
  graph := graph_replaced

theorem replaced_spec (single : (s.files.map (·.path)).Nodup) (fits : s.Fits) :
    Replaced d project s (d.replaced project s) where
  toHolds := holds_replaced single fits.toRowsFit
  note := note_replaced fits.notBefore fits.notAfter
  others _ different := answer_congr (shelf_replaced different)
  sessions := session_replaced

/-- A commit is refused and leaves the database as it was, or it replaces what the project had. -/
inductive Committed (d : Database) (project : String) (s : Snapshot) : Outcome Unit × Database → Prop where
  | refused (f : Fault) : Committed d project s (.error f, d)
  | replaced (d' : Database) (single : (s.files.map (·.path)).Nodup) (replaced : Replaced d project s d') :
    Committed d project s (.ok (), d')

theorem swap_none : d.swap project s (fun _ => none) = d.answer project (.commit s) := by
  rw [swap, transact_statements]
  rfl

/-- Whatever the backend fails at, a commit is whole or nothing; and it fails by itself for two
records with one path only. -/
theorem commit_atomic (d : Database) (project : String) (s : Snapshot) (fits : s.Fits) :
    (∀ faults, Committed d project s (d.swap project s faults)) ∧
      Committed d project s (d.answer project (.commit s)) ∧
      ((d.answer project (.commit s)).1 = .ok () ↔ (s.files.map (·.path)).Nodup) := by
  have whole (faults : Nat → Option BackendError) : Committed d project s (d.swap project s faults) := by
    rw [swap]
    cases ended : d.transact project faults 0 s.statements with
    | error e => exact .refused _
    | ok d' =>
      have committed := transact_of_ok ended
      rw [transact_statements, commit_eq] at committed
      by_cases single : (s.files.map (·.path)).Nodup
      · rw [if_pos single] at committed
        obtain rfl := Except.ok.inj committed
        exact .replaced _ single (replaced_spec single fits)
      · rw [if_neg single] at committed
        cases committed
  refine ⟨whole, swap_none ▸ whole _, ?_⟩
  rw [answer, commit_eq]
  by_cases single : (s.files.map (·.path)).Nodup
  · simp [single]
  · simp [single]

/-- A project with one file, which was indexed before with another. -/
def onceIndexed : Database :=
  (Database.empty.answer "p" (.setFile ⟨"old.go", ["package old"], "", 11, 0⟩)).2

def oneFile : Snapshot where
  files := [⟨"a.go", ["package a"], "", 9, 0⟩]
  outlines := .ofList [("a.go", { Outline.empty "go" with functions := [⟨"f", 2, 4, [], false, true⟩] })]
  metas := .ofList [("a.go", ⟨⟨1, 0, 1, 1⟩, [], [], false, false, .source⟩)]
  symbols := SymbolIndex.empty.insert "f" ⟨"a.go", 2, .function⟩
  graph := .empty
  indexedAt := 7

theorem fits_oneFile : oneFile.Fits where
  files r inside := by
    obtain rfl := List.mem_singleton.mp inside
    exact ⟨by decide, by decide, by decide⟩
  outlines e inside := by
    obtain rfl := List.mem_singleton.mp inside
    refine ⟨nofun, nofun, fun f named => ?_, nofun, nofun, nofun⟩
    obtain rfl := List.mem_singleton.mp named
    exact ⟨by decide, by decide⟩
  metas e inside := by
    obtain rfl := List.mem_singleton.mp inside
    exact ⟨by decide, by decide, by decide, by decide⟩
  symbols e inside site named := by
    obtain rfl := List.mem_singleton.mp inside
    obtain rfl := List.mem_singleton.mp named
    decide
  notBefore := by decide
  notAfter := by decide

theorem commit_atomic_oneFile :
    oneFile.Fits ∧ Committed onceIndexed "p" oneFile (onceIndexed.answer "p" (.commit oneFile)) ∧
      (onceIndexed.answer "p" (.commit oneFile)).1 = .ok () :=
  have ⟨_, committed, ends⟩ := commit_atomic onceIndexed "p" oneFile fits_oneFile
  ⟨fits_oneFile, committed, ends.mpr (by decide)⟩

end Database

end CodeAgent
