import CodeAgent.Proofs.Store.Database

/-! What the index stores of a file and of a project is read back from its document.
That goes for all whose numbers are held in the bits that they are read with. -/
namespace CodeAgent

open Json

variable {depth : Nat}

namespace Import

theorem restores {i : Import} (fits : i.line ≤ maxWord) : Restores (depth + 3) toJson ofJson? i := by
  have line : Restores (depth + 2) nat toNat64? i.line := .nat fits
  have kind : ImportKind.ofJson? (.str i.kind.name) = some i.kind := by cases i.kind <;> rfl
  refine ⟨readable_object ?_, ?_⟩
  · simp [line.readable]
  · simp [ofJson?, toJson, Table.ofList, Table.get?_insert, line.read, kind]

end Import

namespace Export

theorem restores {e : Export} (fits : e.line ≤ maxWord) : Restores (depth + 2) toJson ofJson? e := by
  have line : Restores (depth + 1) nat toNat64? e.line := .nat fits
  refine ⟨readable_object ?_, ?_⟩
  · simp [line.readable]
  · simp [ofJson?, toJson, Table.ofList, Table.get?_insert, line.read]

end Export

namespace Function

structure Fits (f : Function) : Prop where
  start : f.lineStart ≤ maxWord
  stop : f.lineEnd ≤ maxWord

theorem restores {f : Function} (fits : f.Fits) : Restores (depth + 3) toJson ofJson? f := by
  have start : Restores (depth + 2) nat toNat64? f.lineStart := .nat fits.start
  have stop : Restores (depth + 2) nat toNat64? f.lineEnd := .nat fits.stop
  refine ⟨readable_object ?_, ?_⟩
  · simp [start.readable, stop.readable]
  · simp [ofJson?, toJson, Table.ofList, Table.get?_insert, start.read, stop.read]

end Function

namespace Class

structure Fits (c : Class) : Prop where
  start : c.lineStart ≤ maxWord
  stop : c.lineEnd ≤ maxWord
  methods : ∀ f ∈ c.methods, f.Fits

theorem restores {c : Class} (fits : c.Fits) : Restores (depth + 5) toJson ofJson? c := by
  have start : Restores (depth + 4) nat toNat64? c.lineStart := .nat fits.start
  have stop : Restores (depth + 4) nat toNat64? c.lineEnd := .nat fits.stop
  have methods : Restores (depth + 4) (fun fs => .arr (fs.map Function.toJson))
      (toList? Function.ofJson?) c.methods :=
    .list fun f inside => Function.restores (fits.methods f inside)
  refine ⟨readable_object ?_, ?_⟩
  · simp [start.readable, stop.readable, methods.readable]
  · simp [ofJson?, toJson, Table.ofList, Table.get?_insert, start.read, stop.read, methods.read]

end Class

namespace Interface

structure Fits (i : Interface) : Prop where
  start : i.lineStart ≤ maxWord
  stop : i.lineEnd ≤ maxWord

theorem restores {i : Interface} (fits : i.Fits) : Restores (depth + 2) toJson ofJson? i := by
  have start : Restores (depth + 1) nat toNat64? i.lineStart := .nat fits.start
  have stop : Restores (depth + 1) nat toNat64? i.lineEnd := .nat fits.stop
  refine ⟨readable_object ?_, ?_⟩
  · simp [start.readable, stop.readable]
  · simp [ofJson?, toJson, Table.ofList, Table.get?_insert, start.read, stop.read]

end Interface

namespace TypeName

theorem restores {t : TypeName} (fits : t.line ≤ maxWord) : Restores (depth + 2) toJson ofJson? t := by
  have line : Restores (depth + 1) nat toNat64? t.line := .nat fits
  refine ⟨readable_object ?_, ?_⟩
  · simp [line.readable]
  · simp [ofJson?, toJson, Table.ofList, Table.get?_insert, line.read]

end TypeName

namespace Outline

/-- Sixty-four bits hold the lines of all that the outline names. -/
structure Fits (o : Outline) : Prop where
  imports : ∀ i ∈ o.imports, i.line ≤ maxWord
  exports : ∀ e ∈ o.exports, e.line ≤ maxWord
  functions : ∀ f ∈ o.functions, f.Fits
  classes : ∀ c ∈ o.classes, c.Fits
  interfaces : ∀ i ∈ o.interfaces, i.Fits
  types : ∀ t ∈ o.types, t.line ≤ maxWord

theorem restores {o : Outline} (fits : o.Fits) : Restores 128 toJson ofJson? o := by
  have imports : Restores 127 (fun is => .arr (is.map Import.toJson)) (toList? Import.ofJson?)
      o.imports := .list fun i inside => Import.restores (fits.imports i inside)
  have exports : Restores 127 (fun es => .arr (es.map Export.toJson)) (toList? Export.ofJson?)
      o.exports := .list fun e inside => Export.restores (fits.exports e inside)
  have functions : Restores 127 (fun fs => .arr (fs.map Function.toJson)) (toList? Function.ofJson?)
      o.functions := .list fun f inside => Function.restores (fits.functions f inside)
  have classes : Restores 127 (fun cs => .arr (cs.map Class.toJson)) (toList? Class.ofJson?)
      o.classes := .list fun c inside => Class.restores (fits.classes c inside)
  have interfaces : Restores 127 (fun is => .arr (is.map Interface.toJson))
      (toList? Interface.ofJson?) o.interfaces :=
    .list fun i inside => Interface.restores (fits.interfaces i inside)
  have types : Restores 127 (fun ts => .arr (ts.map TypeName.toJson)) (toList? TypeName.ofJson?)
      o.types := .list fun t inside => TypeName.restores (fits.types t inside)
  obtain ⟨language, _, _, _, _, _, _, broken, problem⟩ := o
  refine ⟨readable_object ?_, ?_⟩
  · cases problem <;>
      simp [imports.readable, exports.readable, functions.readable, classes.readable,
        interfaces.readable, types.readable]
  · cases problem <;>
      simp [ofJson?, toJson, Table.ofList, Table.get?_insert, imports.read, exports.read,
        functions.read, classes.read, interfaces.read, types.read]

end Outline

namespace Complexity

structure Fits (c : Complexity) : Prop where
  loc : c.loc ≤ maxWord
  nesting : c.nesting ≤ maxWord
  cyclomatic : c.cyclomatic ≤ maxWord
  score : c.score ≤ Nat.pow 2 32 - 1

theorem restores {c : Complexity} (fits : c.Fits) : Restores (depth + 2) toJson ofJson? c := by
  have loc : Restores (depth + 1) nat toNat64? c.loc := .nat fits.loc
  have nesting : Restores (depth + 1) nat toNat64? c.nesting := .nat fits.nesting
  have cyclomatic : Restores (depth + 1) nat toNat64? c.cyclomatic := .nat fits.cyclomatic
  have score : Restores (depth + 1) nat toNat32? c.score := .natBits (by decide) fits.score
  refine ⟨readable_object ?_, ?_⟩
  · simp [loc.readable, nesting.readable, cyclomatic.readable, score.readable]
  · simp [ofJson?, toJson, Table.ofList, Table.get?_insert, loc.read, nesting.read, cyclomatic.read,
      score.read]

end Complexity

theorem FileMeta.restores {m : FileMeta} (fits : m.complexity.Fits) :
    Restores 128 toJson ofJson? m := by
  have complexity : Restores 127 Complexity.toJson Complexity.ofJson? m.complexity :=
    Complexity.restores fits
  have fileType : FileType.ofJson? (.str m.fileType.name) = some m.fileType := by
    cases m.fileType <;> rfl
  refine ⟨readable_object ?_, ?_⟩
  · simp [complexity.readable]
  · simp [ofJson?, toJson, Table.ofList, Table.get?_insert, complexity.read, fileType]

theorem Site.restores {s : Site} (fits : s.line ≤ maxWord) :
    Restores (depth + 2) toJson ofJson? s := by
  have line : Restores (depth + 1) nat toNat64? s.line := .nat fits
  have kind : SymbolKind.ofJson? (.str s.kind.name) = some s.kind := by cases s.kind <;> rfl
  refine ⟨readable_object ?_, ?_⟩
  · simp [line.readable]
  · simp [ofJson?, toJson, Table.ofList, Table.get?_insert, line.read, kind]

namespace SymbolIndex

/-- Sixty-four bits hold the line of every site. -/
def Fits (i : SymbolIndex) : Prop := ∀ e ∈ i.sites.entries, ∀ s ∈ e.2, s.line ≤ maxWord

theorem restores {i : SymbolIndex} (fits : i.Fits) : Restores 128 toJson ofJson? i := by
  have table : Restores 128
      (fun t : Table (List Site) => .obj (t.entries.map fun e => (e.1, .arr (e.2.map Site.toJson))))
      (fun j => (toEntries? (toList? Site.ofJson?) j).map Table.ofList) i.sites :=
    .table fun e inside => .list fun s site => Site.restores (fits e inside s site)
  refine ⟨table.readable, ?_⟩
  have read := congrArg (Option.map SymbolIndex.mk) table.read
  rwa [Option.map_map] at read

end SymbolIndex

theorem GraphNode.restores (n : GraphNode) : Restores (depth + 3) toJson ofJson? n := by
  refine ⟨readable_object ?_, ?_⟩
  · simp
  · simp [ofJson?, toJson, Table.ofList, Table.get?_insert]

theorem DependencyGraph.restores (g : DependencyGraph) : Restores 128 toJson ofJson? g := by
  have table : Restores 128
      (fun t : Table GraphNode => .obj (t.entries.map fun e => (e.1, e.2.toJson)))
      (fun j => (toEntries? GraphNode.ofJson? j).map Table.ofList) g.nodes :=
    .table fun e _ => GraphNode.restores e.2
  refine ⟨table.readable, ?_⟩
  have read := congrArg (Option.map DependencyGraph.mk) table.read
  rwa [Option.map_map] at read

end CodeAgent
