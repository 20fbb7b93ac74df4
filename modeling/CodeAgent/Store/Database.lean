import CodeAgent.BackendError
import CodeAgent.Json.Reader
import CodeAgent.Json.Writer
import CodeAgent.Store.Call

/-! The database: the indexes of many projects, and the sessions.
Everything is stored as the text of a document. A text that cannot be read fails the call that reads
it and no other. -/
namespace CodeAgent

/-- Documents by project, then by path or name. -/
abbrev Shelf := Table (Table String)

namespace Shelf

def get? (s : Shelf) (project key : String) : Option String :=
  (Table.get? s project).bind (·.get? key)

def put (s : Shelf) (project key document : String) : Shelf :=
  Table.update s project fun old => (old.getD .empty).insert key document

def remove (s : Shelf) (project key : String) : Shelf :=
  match Table.get? s project with
  | some t => Table.insert s project (t.erase key)
  | none => s

/-- The documents of a project, by key. -/
def documents (s : Shelf) (project : String) : List String :=
  ((Table.get? s project).getD .empty).values

def size (s : Shelf) : Nat := (s.values.map Table.size).foldl (· + ·) 0

/-- Puts one text in the place of every document. -/
def overwrite (s : Shelf) (document : String) : Shelf :=
  s.mapValues fun _ t => t.mapValues fun _ _ => document

/-- Puts other documents in the place of a project's own. -/
def replace (s : Shelf) (project : String) (documents : Table String) : Shelf :=
  Table.insert s project documents

end Shelf

/-- A stored session. The columns beside the document serve to find and to order. -/
structure SessionRow where
  id : String
  project : String
  createdAt : Int
  lastActivityAt : Int
  document : String
deriving DecidableEq, Repr

/-- By last activity, then by creation, newest first. -/
def SessionRow.notOlder (a b : SessionRow) : Bool :=
  a.lastActivityAt > b.lastActivityAt
    || (a.lastActivityAt = b.lastActivityAt && a.createdAt ≥ b.createdAt)

structure Database where
  files : Shelf
  outlines : Shelf
  metas : Shelf
  /-- The symbols and the graph of each project. -/
  indexes : Shelf
  notes : Shelf
  /-- In the order of their last saving. -/
  sessions : List SessionRow

namespace Database

def empty : Database := ⟨.empty, .empty, .empty, .empty, .empty, []⟩

/-- Puts one text in the place of every document of a table, and counts them. -/
def overwrite (d : Database) (table document : String) : Nat × Database :=
  match table with
  | "files" => (d.files.size, { d with files := d.files.overwrite document })
  | "asts" => (d.outlines.size, { d with outlines := d.outlines.overwrite document })
  | "file_meta" => (d.metas.size, { d with metas := d.metas.overwrite document })
  | "project_indexes" => (d.indexes.size, { d with indexes := d.indexes.overwrite document })
  | "project_config" => (d.notes.size, { d with notes := d.notes.overwrite document })
  | "sessions" =>
    (d.sessions.length, { d with sessions := d.sessions.map fun r => { r with document := document } })
  | _ => (0, d)

def decode (read : Json → Option α) (document : String) : Except BackendError α :=
  match (Json.parse? document).bind read with
  | some a => .ok a
  | none => .error .malformed

def decodeIfAny (read : Json → Option α) : Option String → Except BackendError (Option α)
  | none => .ok none
  | some document => (decode read document).map some

def decodeOr (preset : α) (read : Json → Option α) : Option String → Except BackendError α
  | none => .ok preset
  | some document => decode read document

def symbolsKey : String := "symbols"
def graphKey : String := "dependencies"

/-- Two records with one path cannot be stored. -/
def duplicatePath : BackendError := .query "UNIQUE constraint failed: files.project, files.path"

/-- Changes all or nothing. -/
def commit (d : Database) (project : String) (s : Snapshot) : Except BackendError Database :=
  if (s.files.map (·.path)).Nodup then
    .ok { d with
      files := d.files.replace project (.ofList (s.files.map fun r => (r.path, r.toJson.compact)))
      outlines := d.outlines.replace project (s.outlines.mapValues fun _ o => o.toJson.compact)
      metas := d.metas.replace project (s.metas.mapValues fun _ m => m.toJson.compact)
      indexes := (d.indexes.put project symbolsKey s.symbols.toJson.compact).put project graphKey
        s.graph.toJson.compact
      notes := d.notes.put project lastIndexedKey (Json.int s.indexedAt).compact }
  else .error duplicatePath

/-- An answer that leaves the database as it is. -/
def read (d : Database) (r : Except BackendError α) : Outcome α × Database :=
  (r.mapError BackendError.toFault, d)

/-- Answers for the index of one project. -/
def answer (d : Database) (project : String) : (c : IndexCall) → Outcome c.Result × Database
  | .file path => d.read (decodeIfAny FileRecord.ofJson? (d.files.get? project path))
  | .setFile r => (.ok (), { d with files := d.files.put project r.path r.toJson.compact })
  | .deleteFile path =>
    (.ok (), { d with
      files := d.files.remove project path
      outlines := d.outlines.remove project path
      metas := d.metas.remove project path })
  | .files => d.read ((d.files.documents project).mapM (decode FileRecord.ofJson?))
  | .outline path => d.read (decodeIfAny Outline.ofJson? (d.outlines.get? project path))
  | .setOutline path o => (.ok (), { d with outlines := d.outlines.put project path o.toJson.compact })
  | .fileMeta path => d.read (decodeIfAny FileMeta.ofJson? (d.metas.get? project path))
  | .setMeta path m => (.ok (), { d with metas := d.metas.put project path m.toJson.compact })
  | .symbols => d.read (decodeOr .empty SymbolIndex.ofJson? (d.indexes.get? project symbolsKey))
  | .setSymbols s => (.ok (), { d with indexes := d.indexes.put project symbolsKey s.toJson.compact })
  | .graph => d.read (decodeOr .empty DependencyGraph.ofJson? (d.indexes.get? project graphKey))
  | .setGraph g => (.ok (), { d with indexes := d.indexes.put project graphKey g.toJson.compact })
  | .note key => d.read (decodeIfAny (fun j => some j.canonical) (d.notes.get? project key))
  | .setNote key value => (.ok (), { d with notes := d.notes.put project key value.compact })
  | .commit s =>
    match d.commit project s with
    | .ok d => (.ok (), d)
    | .error e => (.error e.toFault, d)

/-! Sessions -/

/-- The version that a document claims; one that it does not state as a number counts as zero. -/
def documentVersion (j : Json) : Nat :=
  match j.member? "schema_version" with
  | some (.num (.int i)) => i.toNat
  | _ => 0

/-- Refuses a document of a version that is not known yet. -/
def decodeSession (document : String) : Except BackendError Session :=
  match (Json.parse? document).map Json.canonical with
  | none => .error .malformed
  | some j =>
    let version := documentVersion j
    if version > Session.currentVersion then
      .error (.database ("Session document version " ++ toString version
        ++ " is newer than supported version " ++ toString Session.currentVersion))
    else
      match Session.ofJson? j with
      | some s => .ok s
      | none => .error .malformed

def rowOf (s : Session) : SessionRow :=
  ⟨s.id, s.projectName, s.createdAt, s.lastActivityAt, s.toJson.compact⟩

def removeRow (d : Database) (id : String) : Database :=
  { d with sessions := d.sessions.filter (·.id ≠ id) }

/-- A row with the same id goes. -/
def putRow (d : Database) (r : SessionRow) : Database :=
  { d with sessions := (d.removeRow r.id).sessions ++ [r] }

def newestFirst (rows : List SessionRow) : List SessionRow := rows.mergeSort SessionRow.notOlder

def ofProject (rows : List SessionRow) : Option String → List SessionRow
  | some project => rows.filter (·.project = project)
  | none => rows

def decodeRow : Option SessionRow → Except BackendError (Option Session)
  | none => .ok none
  | some r => (decodeSession r.document).map some

/-- Answers for the sessions. -/
def answerSession (d : Database) : (c : SessionCall) → Outcome c.Result × Database
  | .save s => (.ok (), d.putRow (rowOf s))
  | .load id => d.read (decodeRow (d.sessions.find? (·.id = id)))
  | .delete id => (.ok (), d.removeRow id)
  | .list project => d.read ((newestFirst (ofProject d.sessions project)).mapM fun r =>
      (decodeSession r.document).map Session.summary)
  | .latest project =>
    d.read (decodeRow (newestFirst (ofProject d.sessions (some project))).head?)
  | .clear => (.ok (), { d with sessions := [] })

end Database

end CodeAgent
