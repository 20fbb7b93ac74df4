import CodeAgent.Outline.Findings
import CodeAgent.Text.Find

/-! Outlines of TypeScript and JavaScript files. -/
namespace CodeAgent.Outline.TypeScript

open Syntax

def builtins : List String :=
  ["assert", "buffer", "child_process", "crypto", "events", "fs", "fs/promises", "http", "https",
    "net", "os", "path", "process", "readline", "stream", "url", "util", "zlib"]

def importKind (module : String) : ImportKind :=
  if Text.startsWith module "." then .internal
  else if Text.startsWith module "node:" || module ∈ builtins then .builtin
  else .external

section

variable (source : Source)

/-- The module that a statement names. -/
def module? (n : Node) : Option String :=
  (n.child? .source).map fun s => unquoted (source.text s)

def importOf (n : Node) (names : List String) (module : String) : Import :=
  ⟨names, module, n.line, importKind module⟩

/-- The name under which a specifier binds. -/
def binding? (specifier : Node) : Option String :=
  match specifier.child? .otherName with
  | some a => some (source.text a)
  | none => (specifier.child? .name).map source.text

def clauseNames (part : Node) : List String :=
  match part.kind with
  | .identifier => [source.text part]
  | .namespaceImport => (part.parts.head?.map source.text).toList
  | .namedImports => part.parts.filterMap (binding? source)
  | _ => []

def imported (n : Node) : Findings :=
  match module? source n with
  | none => .empty
  | some module =>
    let names := (n.partsOf .importClause).flatMap fun c => c.parts.flatMap (clauseNames source)
    .ofImports [importOf n names module]

/-- The text of a parameter is that of its pattern, without its type and its preset. -/
def params (function : Node) : List String :=
  match function.child? .parameter with
  | some single => [source.text single]
  | none =>
    match function.child? .parameters with
    | none => []
    | some list =>
      (list.parts.filter (·.kind ≠ .comment)).map fun p => source.text ((p.child? .pattern).getD p)

def functionOf (span n : Node) (name : String) (exported : Bool) : Function :=
  { name := name
    lineStart := span.line
    lineEnd := span.lastLine
    params := params source n
    isAsync := n.hasKeyword "async"
    isExported := exported }

def isMethod (n : Node) : Bool := n.kind = .method || n.kind = .abstractMethod

/-- The base is the first one named anywhere in the class, else there is none. -/
def base? (n : Node) : Option String :=
  ((n.find? .extendsClause).bind (·.parts.head?)).map source.text

def methods (n : Node) (exported : Bool) : List Function :=
  match n.child? .body with
  | none => []
  | some body =>
    (body.parts.filter isMethod).filterMap fun m =>
      (source.textAs? m .name).map fun name => functionOf source m m name exported

def isFunctionValue (n : Node) : Bool := n.kind = .arrowFunction || n.kind = .functionExpression

/-- A variable whose value is a function counts as that function, over the whole declaration. -/
def variableFunction? (declaration : Node) (exported : Bool) (d : Node) : Option Function := do
  let value ← d.child? .value
  if isFunctionValue value then
    let name ← source.textAs? d .name
    some (functionOf source declaration value name exported)
  else none

/-- A construct with a name, as it counts under that name. -/
def named (n : Node) (f : String → Findings) : Findings :=
  match source.textAs? n .name with
  | some name => f name
  | none => .empty

/-- What a declaration defines. -/
def declared (n : Node) (exported : Bool) : Findings :=
  match n.kind with
  | .functionDeclaration =>
    named source n fun name => .ofFunction (functionOf source n n name exported)
  | .classDeclaration =>
    named source n fun name =>
      .ofClass ⟨name, n.line, n.lastLine, methods source n exported, base? source n, exported⟩
  | .interfaceDeclaration =>
    named source n fun name => .ofInterface ⟨name, n.line, n.lastLine, exported⟩
  | .typeDeclaration => named source n fun name => .ofType ⟨name, n.line, exported⟩
  | .variableDeclaration =>
    { Findings.empty with
      functions := (n.partsOf .declarator).filterMap (variableFunction? source n exported) }
  | _ => .empty

/-- The names that an exported declaration exports: all it declares, functions or not. -/
def exportedNames (d : Node) : List String :=
  if d.kind = .variableDeclaration then (d.partsOf .declarator).filterMap (source.textAs? · .name)
  else (declared source d true).names

def exportOf (n : Node) (isDefault : Bool) (name : String) : Export := ⟨name, n.line, isDefault⟩

/-- A default export of a value has the value's name when it is one. -/
def defaultName (value : Node) : String :=
  if value.kind = .identifier then source.text value else "default"

def exported (n : Node) : Findings :=
  let isDefault := n.hasKeyword "default"
  let again := Findings.ofImports ((module? source n).map (importOf n [])).toList
  match n.child? .declaration with
  | some d =>
    again
      ++ (if d.kind = .importStatement then imported source d else declared source d true)
      ++ .ofExports ((exportedNames source d).map (exportOf n isDefault))
  | none =>
    let listed := ((n.partsOf .exportClause).flatMap (·.parts)).filterMap (binding? source)
    let value := if isDefault then (n.child? .value).toList else []
    again ++ .ofExports (listed.map (exportOf n false)
      ++ value.map fun v => exportOf n true (defaultName source v))

def statement (n : Node) : Findings :=
  match n.kind with
  | .importStatement => imported source n
  | .exportStatement => exported source n
  | _ => declared source n false

def file (root : Node) : Findings := .concat (root.parts.map (statement source))

end

end CodeAgent.Outline.TypeScript
