import CodeAgent.Index.Build
import CodeAgent.Proofs.Index.Graph
import CodeAgent.Proofs.Index.Metrics
import CodeAgent.Proofs.Index.Sites
import CodeAgent.Proofs.Store.Commit

/-! What is derived from the files of a project agrees with them and with itself.
Outlines, measures, symbols, graph and statistics come by ways of their own from the same records; each
of them speaks of the same files. -/
namespace CodeAgent

namespace Index

/- Symbols -/

/-- The lines at which an outline defines or shows a name are lines of the outline. -/
theorem line_of_locates {outlines : Table Outline} {name : String} {site : Site}
    (fits : ∀ e ∈ outlines.entries, e.2.Fits) (located : Locates outlines name site) :
    site.line ≤ Json.maxWord := by
  obtain ⟨path, line, kind⟩ := site
  obtain ⟨o, held, either⟩ := located
  have fits : o.Fits := fits _ (Table.get?_eq_some.mp held)
  rcases either with item | ⟨-, ⟨e, inside, -, -, rfl⟩, -⟩
  · cases item with
    | function inside => exact (fits.functions _ inside).start
    | classType inside => exact (fits.classes _ inside).start
    | interface inside => exact (fits.interfaces _ inside).start
    | type inside => exact fits.types _ inside
  · exact fits.exports e inside

theorem fits_symbols {outlines : Table Outline} (fits : ∀ e ∈ outlines.entries, e.2.Fits) :
    (symbols outlines).Fits := by
  intro e entry site inside
  have found : site ∈ (symbols outlines).lookup e.1 := by
    rw [SymbolIndex.lookup, Table.get?_eq_some.mpr entry]
    exact inside
  exact line_of_locates fits (mem_lookup_symbols.mp found)

/- Outlines and measures -/

theorem fits_settleOutline {p : Resolve.Project} {path : String} {o : Outline} (fits : o.Fits) :
    (settleOutline p path o).Fits where
  imports i inside := by
    obtain ⟨i', inside', rfl⟩ := List.mem_map.mp inside
    have line := fits.imports i' inside'
    rw [settleImport]
    split <;> exact line
  exports := fits.exports
  functions := fits.functions
  classes := fits.classes
  interfaces := fits.interfaces
  types := fits.types

/-- A file has an outline when its language is known. -/
theorem isSome_outlines {records : List FileRecord} {path : String} :
    ((outlines records).get? path).isSome ↔
      ∃ r ∈ records, r.path = path ∧ (Language.ofPath? path).isSome := by
  rw [outlines, Table.isSome_ofList]
  simp only [List.mem_map, List.mem_filterMap, Option.map_eq_some_iff]
  constructor
  · rintro ⟨e, ⟨r, inside, l, known, rfl⟩, rfl⟩
    exact ⟨r, inside, rfl, by simp [known]⟩
  · rintro ⟨r, inside, rfl, known⟩
    obtain ⟨l, known⟩ := Option.isSome_iff_exists.mp known
    exact ⟨_, ⟨r, inside, l, known, rfl⟩, rfl⟩

theorem outline_of_outlines {records : List FileRecord} {path : String} {o : Outline}
    (held : (outlines records).get? path = some o) :
    ∃ r ∈ records, ∃ l, r.path = path ∧ Language.ofPath? path = some l ∧ o = .ofFile l r.content := by
  obtain ⟨r, inside, held⟩ := List.mem_filterMap.mp (Table.mem_of_get?_ofList held)
  obtain ⟨l, known, same⟩ := Option.map_eq_some_iff.mp held
  obtain ⟨rfl, rfl⟩ := Prod.mk.inj same
  exact ⟨r, inside, l, rfl, known, rfl⟩

theorem get?_outlines {records : List FileRecord} {r : FileRecord} {l : Language}
    (single : (records.map (·.path)).Nodup) (inside : r ∈ records) (known : Language.ofPath? r.path = some l) :
    (outlines records).get? r.path = some (.ofFile l r.content) := by
  have outlined := isSome_outlines.mpr ⟨r, inside, rfl, Option.isSome_of_eq_some known⟩
  obtain ⟨o, held⟩ := Option.isSome_iff_exists.mp outlined
  obtain ⟨r', inside', l', named, known', rfl⟩ := outline_of_outlines held
  obtain rfl := List.inj_on_of_nodup_map single inside' inside named
  rw [held, Option.some.inj (known.symm.trans known')]

end Index

namespace FileRecord

/-- All that the record says follows from what the file holds. -/
def Whole (r : FileRecord) : Prop := r = ofContent r.path r.content r.lastModified

theorem whole_ofContent (path content : String) (lastModified : Int) :
    (ofContent path content lastModified).Whole := by
  rw [Whole, content_ofContent]
  rfl

/-- Machine words hold the numbers of the file and of its outline. -/
structure Counted (r : FileRecord) : Prop where
  size : r.size < Json.maxWord
  notBefore : -Nat.pow 2 63 ≤ r.lastModified
  notAfter : r.lastModified ≤ Nat.pow 2 63 - 1
  outline (l : Language) : Language.ofPath? r.path = some l → (Outline.ofFile l r.content).Fits

theorem counted_ofContent {path text : String} {modified : Int} {l : Language}
    (size : text.utf8ByteSize < Json.maxWord) (notBefore : -Nat.pow 2 63 ≤ modified)
    (notAfter : modified ≤ Nat.pow 2 63 - 1) (known : Language.ofPath? path = some l)
    (fits : (Outline.ofFile l text).Fits) : (ofContent path text modified).Counted where
  size := size
  notBefore := notBefore
  notAfter := notAfter
  outline l' known' := by
    obtain rfl : l = l' := Option.some.inj (known.symm.trans known')
    rwa [content_ofContent]

theorem fits_measures {r : FileRecord} (whole : r.Whole) (counted : r.Counted)
    (language : Option String) : (Metrics.ofLines r.lines language).Fits := by
  have lines : r.lines = Text.lines r.content := congrArg FileRecord.lines whole
  have size : r.size = r.content.utf8ByteSize := congrArg FileRecord.size whole
  refine Metrics.fits_ofLines language (Nat.lt_of_le_of_lt ?_ counted.size)
  rw [lines, size]
  exact Text.letters_lines_le r.content

end FileRecord

/-- The parts of a pass agree: each speaks of the files of the others, and the statistics count them. -/
structure Snapshot.Consistent (s : Snapshot) (stats : IndexStats) : Prop where
  hashed : ∀ r ∈ s.files, r.hash = contentHash r.content ∧ r.size = r.content.utf8ByteSize
  outlined (path : String) :
    (s.outlines.get? path).isSome ↔ ∃ r ∈ s.files, r.path = path ∧ (Language.ofPath? path).isSome
  /-- The outline is that of what the file holds, but for which imports are internal. -/
  outlineOf (path : String) (o : Outline) : s.outlines.get? path = some o →
    ∃ r ∈ s.files, ∃ l, r.path = path ∧ Language.ofPath? path = some l ∧
      { o with imports := (Outline.ofFile l r.content).imports } = Outline.ofFile l r.content
  measured (path : String) : (s.metas.get? path).isSome ↔ ∃ r ∈ s.files, r.path = path
  sited (name : String) : ∀ site ∈ s.symbols.lookup name, (s.outlines.get? site.path).isSome
  nodes (path : String) : (s.graph.node? path).isSome → ∃ r ∈ s.files, r.path = path
  linked (path : String) (m : FileMeta) : s.metas.get? path = some m →
    m.dependencies = s.graph.dependencies path ∧ m.dependents = s.graph.dependents path ∧
      (m.isHub = true ↔ 5 < m.dependents.length)
  filesScanned : stats.filesScanned = s.files.length
  outlinesCounted : stats.filesParsed + stats.parseErrors = s.outlines.size
  parseErrors : stats.parseErrors = s.outlines.values.countP (·.broken)
  symbolsIndexed : stats.symbolsIndexed = s.symbols.siteCount

namespace Index

variable {records : List FileRecord} {goModule : Option String} {time : Int}

/-- The edges of the files of a pass. -/
def edges (records : List FileRecord) (goModule : Option String) : Table (List String) :=
  (settle ⟨records.map (·.path), goModule⟩ (outlines records)).2

theorem derive_graph : (derive records goModule time).graph = .ofEdges (edges records goModule) := rfl

theorem get?_derive_outlines (path : String) :
    (derive records goModule time).outlines.get? path =
      ((outlines records).get? path).map (settleOutline ⟨records.map (·.path), goModule⟩ path) :=
  Table.get?_mapValues _

/-- What the outline of a file defines is listed in the index. -/
theorem mem_lookup_derive {r : FileRecord} {l : Language} {name : String} {line : Nat} {kind : SymbolKind}
    (single : (records.map (·.path)).Nodup) (inside : r ∈ records) (known : Language.ofPath? r.path = some l)
    (item : Item (.ofFile l r.content) name line kind) :
    ⟨r.path, line, kind⟩ ∈ (derive records goModule time).symbols.lookup name := by
  have held : (derive records goModule time).outlines.get? r.path =
      some (settleOutline ⟨records.map (·.path), goModule⟩ r.path (.ofFile l r.content)) := by
    rw [get?_derive_outlines, get?_outlines single inside known]
    rfl
  refine mem_lookup_symbols.mpr ⟨_, held, Or.inl ?_⟩
  cases item with
  | function inside => exact .function inside
  | classType inside => exact .classType inside
  | interface inside => exact .interface inside
  | type inside => exact .type inside

theorem edges_spec {e : String × List String} (entry : e ∈ (edges records goModule).entries) :
    e.2.Pairwise (· < ·) ∧ (∃ r ∈ records, r.path = e.1) ∧ ∀ t ∈ e.2, ∃ r ∈ records, r.path = t := by
  obtain ⟨⟨path, o⟩, held, rfl⟩ := List.mem_map.mp entry
  have outlined := isSome_outlines.mp (Option.isSome_of_eq_some (Table.get?_eq_some.mpr held))
  obtain ⟨r, inside, named, -⟩ := outlined
  exact ⟨ascending_targets, ⟨r, inside, named⟩, fun t target => List.mem_map.mp (mem_targets target)⟩

theorem meta_of_derive {path : String} {m : FileMeta}
    (held : (derive records goModule time).metas.get? path = some m) :
    ∃ r ∈ records, r.path = path ∧
      m = metaOf (derive records goModule time).outlines (edges records goModule)
        (derive records goModule time).graph r := by
  obtain ⟨r, inside, same⟩ := List.mem_map.mp (Table.mem_of_get?_ofList held)
  obtain ⟨rfl, rfl⟩ := Prod.mk.inj same
  exact ⟨r, inside, rfl, rfl⟩

/-- What is derived from records is consistent with them. -/
theorem derive_consistent (timeMs : Nat) (whole : ∀ r ∈ records, r.Whole) :
    (derive records goModule time).Consistent (.ofSnapshot (derive records goModule time) timeMs) where
  hashed r inside :=
    ⟨congrArg FileRecord.hash (whole r inside), congrArg FileRecord.size (whole r inside)⟩
  outlined path := by
    rw [get?_derive_outlines, Option.isSome_map]
    exact isSome_outlines
  outlineOf path o held := by
    rw [get?_derive_outlines] at held
    obtain ⟨o', parsed, rfl⟩ := Option.map_eq_some_iff.mp held
    obtain ⟨r, inside, l, named, known, rfl⟩ := outline_of_outlines parsed
    exact ⟨r, inside, l, named, known, rfl⟩
  measured path := by
    rw [derive, Table.isSome_ofList]
    simp
  sited name site inside := by
    obtain ⟨o, held, -⟩ := mem_lookup_symbols.mp inside
    exact Option.isSome_of_eq_some held
  nodes path node := by
    rw [derive_graph] at node
    obtain ⟨e, entry, ends⟩ := DependencyGraph.node_ofEdges node
    obtain ⟨-, source, targets⟩ := edges_spec entry
    rcases ends with rfl | target
    · exact source
    · exact targets path target
  linked path m held := by
    obtain ⟨r, -, rfl, rfl⟩ := meta_of_derive held
    have ascending e (entry : e ∈ (edges records goModule).entries) := (edges_spec entry).1
    refine ⟨(DependencyGraph.dependencies_ofEdges ascending r.path).symm, rfl, ?_⟩
    simp [metaOf, Metrics.hubThreshold]
  filesScanned := rfl
  outlinesCounted := by
    have broken : (derive records goModule time).outlines.values.countP (·.broken) ≤
        (derive records goModule time).outlines.size :=
      Nat.le_trans List.countP_le_length (Nat.le_of_eq (List.length_map _))
    exact Nat.sub_add_cancel broken
  parseErrors := rfl
  symbolsIndexed := rfl

/-- The numbers that are derived from counted files are held as well. -/
theorem derive_fits (whole : ∀ r ∈ records, r.Whole) (counted : ∀ r ∈ records, r.Counted) :
    (derive records goModule time).RowsFit := by
  have outlined e (entry : e ∈ (derive records goModule time).outlines.entries) : e.2.Fits := by
    have held := Table.get?_eq_some.mpr entry
    rw [get?_derive_outlines] at held
    obtain ⟨o, parsed, settled⟩ := Option.map_eq_some_iff.mp held
    obtain ⟨r, inside, l, named, known, rfl⟩ := outline_of_outlines parsed
    rw [← settled]
    exact fits_settleOutline ((counted r inside).outline l (named ▸ known))
  refine ⟨fun r inside => ?_, outlined, fun e entry => ?_, fits_symbols outlined⟩
  · have fits := counted r inside
    exact ⟨Nat.le_of_lt fits.size, fits.notBefore, fits.notAfter⟩
  · obtain ⟨r, inside, -, same⟩ := meta_of_derive (Table.get?_eq_some.mpr entry)
    rw [same]
    exact FileRecord.fits_measures (whole r inside) (counted r inside) _

end Index

end CodeAgent
