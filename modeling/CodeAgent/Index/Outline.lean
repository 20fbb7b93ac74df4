import CodeAgent.Json.Decode

/-! The outline of a source file: imports, exports, functions, classes, interfaces and type names.
After a syntax error an outline holds what could still be read. -/
namespace CodeAgent

inductive ImportKind where
  | internal | external | builtin
deriving DecidableEq, Repr, Inhabited

namespace ImportKind

def name : ImportKind → String
  | internal => "internal"
  | external => "external"
  | builtin => "builtin"

def ofJson? : Json → Option ImportKind := Json.toNamed? [internal, external, builtin] name

end ImportKind

structure Import where
  /-- The names bound, none for an import that only runs. -/
  names : List String
  /-- The module as it is written. -/
  source : String
  line : Nat
  kind : ImportKind
deriving DecidableEq, Repr, Inhabited

structure Export where
  name : String
  line : Nat
  isDefault : Bool
deriving DecidableEq, Repr, Inhabited

structure Function where
  name : String
  lineStart : Nat
  lineEnd : Nat
  params : List String
  isAsync : Bool
  isExported : Bool
deriving DecidableEq, Repr, Inhabited

structure Class where
  name : String
  lineStart : Nat
  lineEnd : Nat
  methods : List Function
  base : Option String
  isExported : Bool
deriving DecidableEq, Repr, Inhabited

structure Interface where
  name : String
  lineStart : Nat
  lineEnd : Nat
  isExported : Bool
deriving DecidableEq, Repr, Inhabited

structure TypeName where
  name : String
  line : Nat
  isExported : Bool
deriving DecidableEq, Repr, Inhabited

structure Outline where
  language : String
  imports : List Import
  exports : List Export
  functions : List Function
  classes : List Class
  interfaces : List Interface
  types : List TypeName
  broken : Bool
  problem : Option String
deriving DecidableEq, Repr, Inhabited

namespace Import

def toJson (i : Import) : Json :=
  Json.object [("names", Json.ofStrings i.names), ("source", .str i.source), ("line", .nat i.line),
    ("kind", .str i.kind.name)]

def ofJson? (j : Json) : Option Import := do
  let fs ← j.fields? ["names", "source", "line", "kind"]
  let names ← fs.req "names" Json.toStrings?
  let source ← fs.req "source" Json.toStr?
  let line ← fs.req "line" Json.toNat64?
  let kind ← fs.req "kind" ImportKind.ofJson?
  return { names, source, line, kind }

end Import

namespace Export

def toJson (e : Export) : Json :=
  Json.object [("name", .str e.name), ("line", .nat e.line), ("is_default", .bool e.isDefault)]

def ofJson? (j : Json) : Option Export := do
  let fs ← j.fields? ["name", "line", "is_default"]
  let name ← fs.req "name" Json.toStr?
  let line ← fs.req "line" Json.toNat64?
  let isDefault ← fs.req "is_default" Json.toBool?
  return { name, line, isDefault }

end Export

namespace Function

def toJson (f : Function) : Json :=
  Json.object [("name", .str f.name), ("line_start", .nat f.lineStart), ("line_end", .nat f.lineEnd),
    ("params", Json.ofStrings f.params), ("is_async", .bool f.isAsync),
    ("is_exported", .bool f.isExported)]

def ofJson? (j : Json) : Option Function := do
  let fs ← j.fields? ["name", "line_start", "line_end", "params", "is_async", "is_exported"]
  let name ← fs.req "name" Json.toStr?
  let lineStart ← fs.req "line_start" Json.toNat64?
  let lineEnd ← fs.req "line_end" Json.toNat64?
  let params ← fs.req "params" Json.toStrings?
  let isAsync ← fs.req "is_async" Json.toBool?
  let isExported ← fs.req "is_exported" Json.toBool?
  return { name, lineStart, lineEnd, params, isAsync, isExported }

end Function

namespace Class

def toJson (c : Class) : Json :=
  Json.object [("name", .str c.name), ("line_start", .nat c.lineStart), ("line_end", .nat c.lineEnd),
    ("methods", .arr (c.methods.map Function.toJson)), ("extends", Json.ofOption .str c.base),
    ("is_exported", .bool c.isExported)]

def ofJson? (j : Json) : Option Class := do
  let fs ← j.fields? ["name", "line_start", "line_end", "methods", "extends", "is_exported"]
  let name ← fs.req "name" Json.toStr?
  let lineStart ← fs.req "line_start" Json.toNat64?
  let lineEnd ← fs.req "line_end" Json.toNat64?
  let methods ← fs.req "methods" (Json.toList? Function.ofJson?)
  let base ← fs.opt "extends" Json.toStr?
  let isExported ← fs.req "is_exported" Json.toBool?
  return { name, lineStart, lineEnd, methods, base, isExported }

end Class

namespace Interface

def toJson (i : Interface) : Json :=
  Json.object [("name", .str i.name), ("line_start", .nat i.lineStart), ("line_end", .nat i.lineEnd),
    ("is_exported", .bool i.isExported)]

def ofJson? (j : Json) : Option Interface := do
  let fs ← j.fields? ["name", "line_start", "line_end", "is_exported"]
  let name ← fs.req "name" Json.toStr?
  let lineStart ← fs.req "line_start" Json.toNat64?
  let lineEnd ← fs.req "line_end" Json.toNat64?
  let isExported ← fs.req "is_exported" Json.toBool?
  return { name, lineStart, lineEnd, isExported }

end Interface

namespace TypeName

def toJson (t : TypeName) : Json :=
  Json.object [("name", .str t.name), ("line", .nat t.line), ("is_exported", .bool t.isExported)]

def ofJson? (j : Json) : Option TypeName := do
  let fs ← j.fields? ["name", "line", "is_exported"]
  let name ← fs.req "name" Json.toStr?
  let line ← fs.req "line" Json.toNat64?
  let isExported ← fs.req "is_exported" Json.toBool?
  return { name, line, isExported }

end TypeName

namespace Outline

def empty (language : String) : Outline := ⟨language, [], [], [], [], [], [], false, none⟩

/-- A function of the file, else a method of one of its classes. -/
def findFunction? (o : Outline) (name : String) : Option Function :=
  match o.functions.find? (·.name = name) with
  | some f => some f
  | none => (o.classes.flatMap (·.methods)).find? (·.name = name)

def toJson (o : Outline) : Json :=
  Json.object ([("language", .str o.language), ("imports", .arr (o.imports.map Import.toJson)),
    ("exports", .arr (o.exports.map Export.toJson)),
    ("functions", .arr (o.functions.map Function.toJson)),
    ("classes", .arr (o.classes.map Class.toJson)),
    ("interfaces", .arr (o.interfaces.map Interface.toJson)),
    ("type_aliases", .arr (o.types.map TypeName.toJson)), ("parse_error", .bool o.broken)]
    ++ match o.problem with
      | some m => [("parse_error_message", .str m)]
      | none => [])

def ofJson? (j : Json) : Option Outline := do
  let fs ← j.fields? ["language", "imports", "exports", "functions", "classes", "interfaces",
    "type_aliases", "parse_error", "parse_error_message"]
  let language ← fs.req "language" Json.toStr?
  let imports ← fs.req "imports" (Json.toList? Import.ofJson?)
  let exports ← fs.req "exports" (Json.toList? Export.ofJson?)
  let functions ← fs.req "functions" (Json.toList? Function.ofJson?)
  let classes ← fs.req "classes" (Json.toList? Class.ofJson?)
  let interfaces ← fs.req "interfaces" (Json.toList? Interface.ofJson?)
  let types ← fs.req "type_aliases" (Json.toList? TypeName.ofJson?)
  let broken ← fs.req "parse_error" Json.toBool?
  let problem ← fs.optOrNone "parse_error_message" Json.toStr?
  return { language, imports, exports, functions, classes, interfaces, types, broken, problem }

end Outline

end CodeAgent
