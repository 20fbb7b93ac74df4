import CodeAgent.Store.Call

/-! An index that is kept in memory. -/
namespace CodeAgent

structure MemoryIndex where
  files : Table FileRecord
  outlines : Table Outline
  metas : Table FileMeta
  symbols : SymbolIndex
  graph : DependencyGraph
  notes : Table Json

namespace MemoryIndex

def empty : MemoryIndex := ⟨.empty, .empty, .empty, .empty, .empty, .empty⟩

def setFile (m : MemoryIndex) (r : FileRecord) : MemoryIndex :=
  { m with files := m.files.insert r.path r }

def deleteFile (m : MemoryIndex) (path : String) : MemoryIndex :=
  { m with
    files := m.files.erase path
    outlines := m.outlines.erase path
    metas := m.metas.erase path }

/-- Forgets the files that the pass did not find. -/
def deleteStale (m : MemoryIndex) (found : List FileRecord) : MemoryIndex :=
  (m.files.keys.filter fun p => found.all (·.path ≠ p)).foldl deleteFile m

/-- Part by part: the outline or metadata of a file that is not recorded stays. -/
def commit (m : MemoryIndex) (s : Snapshot) : MemoryIndex :=
  let m := { m with symbols := s.symbols, graph := s.graph }
  let m := s.files.foldl setFile (m.deleteStale s.files)
  { m with
    outlines := s.outlines.entries.foldl (fun t e => t.insert e.1 e.2) m.outlines
    metas := s.metas.entries.foldl (fun t e => t.insert e.1 e.2) m.metas
    notes := m.notes.insert lastIndexedKey (.int s.indexedAt) }

def answer (m : MemoryIndex) : (c : IndexCall) → Outcome c.Result × MemoryIndex
  | .file path => (.ok (m.files.get? path), m)
  | .setFile r => (.ok (), m.setFile r)
  | .deleteFile path => (.ok (), m.deleteFile path)
  | .files => (.ok m.files.values, m)
  | .outline path => (.ok (m.outlines.get? path), m)
  | .setOutline path o => (.ok (), { m with outlines := m.outlines.insert path o })
  | .fileMeta path => (.ok (m.metas.get? path), m)
  | .setMeta path f => (.ok (), { m with metas := m.metas.insert path f })
  | .symbols => (.ok m.symbols, m)
  | .setSymbols s => (.ok (), { m with symbols := s })
  | .graph => (.ok m.graph, m)
  | .setGraph g => (.ok (), { m with graph := g })
  | .note key => (.ok (m.notes.get? key), m)
  | .setNote key value => (.ok (), { m with notes := m.notes.insert key value })
  | .commit s => (.ok (), m.commit s)

end MemoryIndex

end CodeAgent
