import CodeAgent.Index.Symbols
import CodeAgent.Text.Casing
import CodeAgent.Text.Word
import CodeAgent.Tool.Project

/-! Tools that search the index for a symbol. -/
namespace CodeAgent.Tool

def maxReferences : Nat := 200

/-- Lines shown before and after a definition. -/
def definitionContext : Nat := 2

def maxSuggestions : Nat := 5

def symbolArgument (arguments : Json) : Outcome String :=
  match arguments.textArgument "symbol" with
  | .error f => .error f
  | .ok s =>
    let s := Text.trim s
    if s.isEmpty then .error (.validation "symbol must not be empty") else .ok s

structure Reference where
  path : String
  line : Nat
  /-- Counted in bytes. -/
  column : Nat
  context : String
  isDefinition : Bool
deriving DecidableEq, Repr

namespace Reference

def toJson (r : Reference) : Json :=
  Json.object [("path", .str r.path), ("line", .nat r.line), ("column", .nat r.column),
    ("context", .str r.context), ("is_definition", .bool r.isDefinition)]

end Reference

/-- The lines of a file in which a symbol is a whole word, each with its first occurrence. -/
def referencesIn (symbol : String) (sites : List Site) (r : FileRecord) : List Reference :=
  (r.lines.mapIdx fun i line =>
    (Text.wordOffset? symbol.toList none line.toList).map fun offset =>
      { path := r.path
        line := i + 1
        column := offset + 1
        context := Text.trim line
        isDefinition := sites.any fun s => s.path = r.path && s.line = i + 1 }).filterMap id

/-- Names that contain the symbol or are contained in it, in either case. -/
def suggestions (names : List String) (symbol : String) : List String :=
  let wanted := Text.lower symbol
  (names.filter fun n =>
    let n := Text.lower n
    Text.contains n wanted || Text.contains wanted n).take maxSuggestions

/-- The occurrences of a symbol in the files, with its definition sites marked. -/
def references (symbol : String) (files : List FileRecord) : Attempt ToolOutput := do
  let sites := (← Attempt.index .symbols).lookup symbol
  let found := files.map (referencesIn symbol sites)
  let all := found.flatten
  return .of (Json.object [("symbol", .str symbol), ("total", .nat all.length),
    ("files", .nat (found.filter (!·.isEmpty)).length),
    ("references", .arr ((all.take maxReferences).map Reference.toJson)),
    ("truncated", .bool (all.length > maxReferences))])

section

variable (root : String)

def findReferences : Tool Act :=
  ofProgram "find_references"
    "Find whole-word occurrences of a symbol across indexed files, marking definition sites."
    (parameters "find_references parameters"
      [("symbol", .string "Symbol name to search for"),
        ("path", .string "Only search files under this path")]
      ["symbol"])
    .search fun arguments => do
      let symbol ← ofOutcome (symbolArgument arguments)
      let scope ← scope? root arguments
      let files ← filesInScope scope
      references symbol files

/-- The lines around a site, empty when the file is too short by now. -/
def siteContext (r : FileRecord) (line : Nat) : String :=
  let first := max (line - definitionContext) 1
  let last := min (line + definitionContext) r.lines.length
  if first > last then "" else numbered first (linesFromTo r first last)

def describeSite (s : Site) : Attempt Json := do
  let record ← Attempt.index (.file s.path)
  return Json.object [("path", .str s.path), ("line", .nat s.line), ("kind", .str s.kind.name),
    ("context", Json.ofOption (fun r => .str (siteContext r s.line)) record)]

def findDefinition : Tool Act :=
  ofProgram "find_definition"
    "Locate where a function, class, interface, type or exported name is defined."
    (parameters "find_definition parameters" [("symbol", .string "Symbol name to look up")] ["symbol"])
    .search fun arguments => do
      let symbol ← ofOutcome (symbolArgument arguments)
      let _ ← indexedFiles
      let index ← Attempt.index .symbols
      match index.lookup symbol with
      | [] =>
        return .of (Json.object [("symbol", .str symbol), ("found", .bool false),
          ("definitions", .arr []), ("suggestions", Json.ofStrings (suggestions index.names symbol))])
      | sites =>
        return .of (Json.object [("symbol", .str symbol), ("found", .bool true),
          ("definitions", .arr (← sites.mapM describeSite))])

end

end CodeAgent.Tool
