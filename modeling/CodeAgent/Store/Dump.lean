import CodeAgent.Store.Call
import CodeAgent.Store.Database

/-! The database as one document, so that a file can keep it. -/
namespace CodeAgent

namespace Shelf

def toJson (s : Shelf) : Json :=
  .obj (s.entries.map fun p => (p.1, .obj (p.2.entries.map fun d => (d.1, .str d.2))))

def ofJson? (j : Json) : Option Shelf :=
  (Json.toEntries? (fun p => (Json.toEntries? Json.toStr? p).map Table.ofList) j).map Table.ofList

end Shelf

namespace SessionRow

def toJson (r : SessionRow) : Json :=
  Json.object [("id", .str r.id), ("project", .str r.project), ("created_at", .int r.createdAt),
    ("last_activity_at", .int r.lastActivityAt), ("data", .str r.document)]

def ofJson? (j : Json) : Option SessionRow := do
  let fs ← j.fields? ["id", "project", "created_at", "last_activity_at", "data"]
  let id ← fs.req "id" Json.toStr?
  let project ← fs.req "project" Json.toStr?
  let createdAt ← fs.req "created_at" Json.toInt64?
  let lastActivityAt ← fs.req "last_activity_at" Json.toInt64?
  let document ← fs.req "data" Json.toStr?
  return { id, project, createdAt, lastActivityAt, document }

end SessionRow

namespace Database

def toJson (d : Database) : Json :=
  Json.object [("files", d.files.toJson), ("asts", d.outlines.toJson),
    ("file_meta", d.metas.toJson), ("project_indexes", d.indexes.toJson),
    ("project_config", d.notes.toJson), ("sessions", .arr (d.sessions.map SessionRow.toJson))]

def ofJson? (j : Json) : Option Database := do
  let fs ← j.fields?
    ["files", "asts", "file_meta", "project_indexes", "project_config", "sessions"]
  let files ← fs.req "files" Shelf.ofJson?
  let outlines ← fs.req "asts" Shelf.ofJson?
  let metas ← fs.req "file_meta" Shelf.ofJson?
  let indexes ← fs.req "project_indexes" Shelf.ofJson?
  let notes ← fs.req "project_config" Shelf.ofJson?
  let sessions ← fs.req "sessions" (Json.toList? SessionRow.ofJson?)
  return { files, outlines, metas, indexes, notes, sessions }

end Database

/-! The stored index of a project as one document. -/

/-- Parts of a stored index. -/
inductive IndexPart where
  | files | outlines | metas | symbols | graph
deriving DecidableEq, Repr, Inhabited

namespace IndexPart

def all : List IndexPart := [files, outlines, metas, symbols, graph]

def name : IndexPart → String
  | files => "files"
  | outlines => "asts"
  | metas => "metas"
  | symbols => "symbols"
  | graph => "graph"

end IndexPart

/-- A file by its digest and measures. -/
def FileRecord.summary (r : FileRecord) : Json :=
  Json.object [("path", .str r.path), ("lines", .nat r.lines.length), ("hash", .str r.hash),
    ("size", .nat r.size)]

namespace IndexDump

variable {m : Type → Type} [Monad m] (call : (c : IndexCall) → ExceptT Fault m c.Result)

/-- What is stored for each file, by path. -/
def each (files : List FileRecord) (f : String → ExceptT Fault m Json) : ExceptT Fault m Json := do
  return Json.object (← files.mapM fun r => return (r.path, ← f r.path))

def part (files : List FileRecord) : IndexPart → ExceptT Fault m Json
  | .files => return .arr (files.map FileRecord.summary)
  | .outlines => each files fun p => return Json.ofOption Outline.toJson (← call (.outline p))
  | .metas => each files fun p => return Json.ofOption FileMeta.toJson (← call (.fileMeta p))
  | .symbols => return (← call .symbols).toJson
  | .graph => return (← call .graph).toJson

/-- Without files there is nothing to say of each. -/
def shows (files : List FileRecord) : IndexPart → Bool
  | .outlines | .metas => !files.isEmpty
  | _ => true

def of (wanted : List IndexPart) : ExceptT Fault m Json := do
  let files ← call .files
  return Json.object (← (wanted.filter (shows files)).mapM fun p =>
    return (p.name, ← part call files p))

end IndexDump

end CodeAgent
