import CodeAgent.Index.Graph
import CodeAgent.Index.Metrics
import CodeAgent.Index.Resolve
import CodeAgent.Index.Stats
import CodeAgent.Index.Symbols
import CodeAgent.Outline.OfFile
import CodeAgent.Store.Call

/-! The indexes over all files, from the outline of each. -/
namespace CodeAgent.Index

/-- An import that means a file of the project is internal. -/
def settleImport (p : Resolve.Project) (path language : String) (i : Import) :
    Import × Option String :=
  match p.target? path language i.source with
  | some target => ({ i with kind := .internal }, some target)
  | none => (i, none)

def settleOutline (p : Resolve.Project) (path : String) (o : Outline) : Outline :=
  { o with imports := o.imports.map fun i => (settleImport p path o.language i).1 }

/-- The files that a file imports, in ascending order and each once. -/
def targets (p : Resolve.Project) (path : String) (o : Outline) : List String :=
  (Table.ofList (o.imports.filterMap fun i =>
    (settleImport p path o.language i).2.map fun t => (t, ()))).keys

/-- The outlines with their imports settled, and the edges between files. -/
def settle (p : Resolve.Project) (outlines : Table Outline) : Table Outline × Table (List String) :=
  (outlines.mapValues fun path o => settleOutline p path o,
    outlines.mapValues fun path o => targets p path o)

/-- What an outline defines by itself. -/
def definitions (path : String) (o : Outline) : List (String × Site) :=
  (o.functions.map fun f => (f.name, ⟨path, f.lineStart, .function⟩))
  ++ (o.classes.map fun c => (c.name, ⟨path, c.lineStart, .classType⟩))
  ++ (o.interfaces.map fun i => (i.name, ⟨path, i.lineStart, .interface⟩))
  ++ (o.types.map fun t => (t.name, ⟨path, t.line, .type⟩))

/-- Exported names that the outline does not define otherwise; a default export has no name. -/
def exportedNames (path : String) (o : Outline) : List (String × Site) :=
  let defined := (definitions path o).map (·.1)
  (o.exports.filter fun e => !e.isDefault && e.name ∉ defined).map fun e =>
    (e.name, ⟨path, e.line, .value⟩)

def symbols (outlines : Table Outline) : SymbolIndex :=
  let sites := outlines.entries.flatMap fun e => definitions e.1 e.2 ++ exportedNames e.1 e.2
  (sites.foldl (fun i s => i.insert s.1 s.2) SymbolIndex.empty).sort

/-! All that is derived from the files of a project, as a function of their contents. -/

/-- The outlines of the files whose language is known. -/
def outlines (records : List FileRecord) : Table Outline :=
  .ofList (records.filterMap fun r =>
    (Language.ofPath? r.path).map fun l => (r.path, Outline.ofFile l r.content))

def metaOf (outlines : Table Outline) (edges : Table (List String)) (graph : DependencyGraph)
    (r : FileRecord) : FileMeta :=
  let language := (outlines.get? r.path).map (·.language)
  let dependents := graph.dependents r.path
  { complexity := Metrics.ofLines r.lines language
    dependencies := (edges.get? r.path).getD []
    dependents := dependents
    isHub := dependents.length > Metrics.hubThreshold
    isEntryPoint := CodeAgent.isEntryPoint r.path
    fileType := .ofPath r.path language.isSome }

/-- The index over the files, in ascending order of their paths, of one point in time. -/
def derive (records : List FileRecord) (goModule : Option String) (time : Int) : Snapshot :=
  let (outlines, edges) := settle ⟨records.map (·.path), goModule⟩ (outlines records)
  let graph := DependencyGraph.ofEdges edges
  { files := records
    outlines := outlines
    metas := .ofList (records.map fun r => (r.path, metaOf outlines edges graph r))
    symbols := symbols outlines
    graph := graph
    indexedAt := time }

end CodeAgent.Index

namespace CodeAgent.IndexStats

def ofSnapshot (s : Snapshot) (timeMs : Nat) : IndexStats :=
  let broken := s.outlines.values.countP (·.broken)
  { filesScanned := s.files.length
    filesParsed := s.outlines.size - broken
    parseErrors := broken
    symbolsIndexed := s.symbols.siteCount
    timeMs := timeMs }

end CodeAgent.IndexStats
