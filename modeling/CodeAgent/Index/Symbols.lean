import CodeAgent.Json.Decode
import CodeAgent.Table

/-! Where names are defined. -/
namespace CodeAgent

inductive SymbolKind where
  | function | classType | interface | type | value
deriving DecidableEq, Repr, Inhabited

namespace SymbolKind

def name : SymbolKind → String
  | function => "function"
  | classType => "class"
  | interface => "interface"
  | type => "type"
  | value => "variable"

def ofJson? : Json → Option SymbolKind :=
  Json.toNamed? [function, classType, interface, type, value] name

end SymbolKind

/-- A place of definition. -/
structure Site where
  path : String
  line : Nat
  kind : SymbolKind
deriving DecidableEq, Repr, Inhabited

namespace Site

/-- By path, then by line. -/
def before (a b : Site) : Bool := a.path < b.path || (a.path = b.path && a.line ≤ b.line)

def toJson (s : Site) : Json :=
  Json.object [("path", .str s.path), ("line", .nat s.line), ("kind", .str s.kind.name)]

def ofJson? (j : Json) : Option Site := do
  let fs ← j.fields? ["path", "line", "kind"]
  let path ← fs.req "path" Json.toStr?
  let line ← fs.req "line" Json.toNat64?
  let kind ← fs.req "kind" SymbolKind.ofJson?
  return { path, line, kind }

end Site

/-- The sites of each name. -/
structure SymbolIndex where
  sites : Table (List Site)
deriving DecidableEq

namespace SymbolIndex

def empty : SymbolIndex := ⟨.empty⟩

instance : Inhabited SymbolIndex := ⟨empty⟩

/-- A site is kept once for a name. -/
def insert (i : SymbolIndex) (name : String) (s : Site) : SymbolIndex :=
  ⟨i.sites.update name fun old =>
    let old := old.getD []
    if s ∈ old then old else old ++ [s]⟩

def lookup (i : SymbolIndex) (name : String) : List Site := (i.sites.get? name).getD []

/-- Orders the sites of every name; sites alike in path and line keep their order. -/
def sort (i : SymbolIndex) : SymbolIndex :=
  ⟨i.sites.mapValues fun _ sites => sites.mergeSort Site.before⟩

/-- The names with sites, in ascending order. -/
def names (i : SymbolIndex) : List String := i.sites.keys

def size (i : SymbolIndex) : Nat := i.sites.size

def siteCount (i : SymbolIndex) : Nat := (i.sites.values.map List.length).foldl (· + ·) 0

def toJson (i : SymbolIndex) : Json :=
  .obj (i.sites.entries.map fun e => (e.1, .arr (e.2.map Site.toJson)))

def ofJson? (j : Json) : Option SymbolIndex :=
  (Json.toEntries? (Json.toList? Site.ofJson?) j).map fun es => ⟨Table.ofList es⟩

end SymbolIndex

end CodeAgent
