import CodeAgent.Fault
import CodeAgent.Index.Graph
import CodeAgent.Index.Outline
import CodeAgent.Index.Record
import CodeAgent.Index.Symbols
import CodeAgent.Session.Basic

/-! What the store of sessions can be asked. -/
namespace CodeAgent

inductive SessionCall where
  | save (session : Session)
  | load (id : String)
  | delete (id : String)
  /-- Newest first; of one project, or all. -/
  | list (project : Option String)
  | latest (project : String)
  | clear

namespace SessionCall

abbrev Result : SessionCall → Type
  | save _ | delete _ | clear => Unit
  | load _ | latest _ => Option Session
  | list _ => List SessionSummary

end SessionCall

/-! What the stored index of a project can be asked. -/

/-- All that one indexing pass found. -/
structure Snapshot where
  files : List FileRecord
  outlines : Table Outline
  metas : Table FileMeta
  symbols : SymbolIndex
  graph : DependencyGraph
  indexedAt : Int

/-- The key of the time of the last indexing pass. -/
def lastIndexedKey : String := "last_indexed"

inductive IndexCall where
  | file (path : String)
  | setFile (record : FileRecord)
  /-- Forgets the record, the outline and the metadata. -/
  | deleteFile (path : String)
  /-- All records, by path. -/
  | files
  | outline (path : String)
  | setOutline (path : String) (outline : Outline)
  | fileMeta (path : String)
  | setMeta (path : String) (fileMeta : FileMeta)
  | symbols
  | setSymbols (symbols : SymbolIndex)
  | graph
  | setGraph (graph : DependencyGraph)
  | note (key : String)
  | setNote (key : String) (value : Json)
  /-- Puts a whole pass in the place of what was stored. -/
  | commit (snapshot : Snapshot)

namespace IndexCall

abbrev Result : IndexCall → Type
  | file _ => Option FileRecord
  | files => List FileRecord
  | outline _ => Option Outline
  | fileMeta _ => Option FileMeta
  | symbols => SymbolIndex
  | graph => DependencyGraph
  | note _ => Option Json
  | setFile _ | deleteFile _ | setOutline .. | setMeta .. | setSymbols _ | setGraph _ | setNote ..
  | commit _ => Unit

end IndexCall

end CodeAgent
