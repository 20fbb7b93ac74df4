import CodeAgent.Outline.Findings
import CodeAgent.Text.Word
import CodeAgent.Text.Find

/-! Outlines of Python files. A name is exported unless it starts with a low line. -/
namespace CodeAgent.Outline.Python

open Syntax

def builtins : List String :=
  ["abc", "argparse", "asyncio", "collections", "contextlib", "copy", "dataclasses", "datetime",
    "enum", "functools", "hashlib", "io", "itertools", "json", "logging", "math", "os", "pathlib",
    "random", "re", "shutil", "string", "subprocess", "sys", "tempfile", "threading", "time", "typing",
    "unittest", "uuid"]

def importKind (module : String) : ImportKind :=
  if Text.startsWith module "." then .internal
  else if (Text.splitOn '.' module).headD "" ∈ builtins then .builtin
  else .external

def isExported (name : String) : Bool := !Text.startsWith name "_"

section

variable (source : Source)

/-- The module that a name stands for, and the name that it gets. -/
def binding (n : Node) : String × String :=
  if n.kind = .aliasedImport then
    let module := (source.textAs? n .name).getD ""
    (module, (source.textAs? n .otherName).getD module)
  else
    let module := source.text n
    (module, (Text.splitOn '.' module).getLastD module)

def importOf (n : Node) (names : List String) (module : String) : Import :=
  ⟨names, module, n.line, importKind module⟩

def imported (n : Node) : Findings :=
  .ofImports ((n.childrenAs .name).map fun c =>
    let (module, bound) := binding source c
    importOf n [bound] module)

def importedFrom (n : Node) : Findings :=
  match source.textAs? n .module with
  | none => .empty
  | some module =>
    let names := (n.childrenAs .name).map fun c => (binding source c).2
    let all := if (n.partsOf .wildcardImport).isEmpty then [] else ["*"]
    .ofImports [importOf n (names ++ all) module]

/-- A parameter without its preset and its type; marks and remarks among the parameters count. -/
def param (p : Node) : String :=
  match p.kind with
  | .identifier => source.text p
  | .defaultParameter => (source.textAs? p .name).getD (source.text p)
  | _ => Text.trim ((Text.splitOn ':' (source.text p)).headD "")

/-- The parameters of a method, without what stands for the object or the class. -/
def ownParams (params : List String) : List String :=
  params.dropWhile fun p => p = "self" || p = "cls"

/-- A function counts from its decorators on. -/
def functionOf? (n span : Node) (isMethod : Bool) : Option Function := do
  let name ← source.textAs? n .name
  let params := ((n.child? .parameters).map fun l => l.parts.map (param source)).getD []
  return { name := name
           lineStart := span.line
           lineEnd := span.lastLine
           params := if isMethod then ownParams params else params
           isAsync := n.hasKeyword "async"
           isExported := isExported name }

/-- A member of a class that is a method, and the construct that it counts as. -/
def method? (member : Node) : Option Function :=
  match member.kind with
  | .functionDeclaration => functionOf? source member member true
  | .decorated => do
    let d ← member.child? .definition
    if d.kind = .functionDeclaration then functionOf? source d member true else none
  | _ => none

def classOf? (n span : Node) : Option Class := do
  let name ← source.textAs? n .name
  let base := ((n.child? .bases).bind (·.parts.head?)).map source.text
  let methods := ((n.child? .body).map fun b => b.parts.filterMap (method? source)).getD []
  return ⟨name, span.line, span.lastLine, methods, base, isExported name⟩

/-- What a definition adds, counted from `span` on. -/
def defined (n span : Node) : Findings :=
  match n.kind with
  | .functionDeclaration =>
    match functionOf? source n span false with
    | some f => Findings.exportIf f.isExported f.name span.line ++ .ofFunction f
    | none => .empty
  | .classDeclaration =>
    match classOf? source n span with
    | some c => Findings.exportIf c.isExported c.name span.line ++ .ofClass c
    | none => .empty
  | _ => .empty

def statement (n : Node) : Findings :=
  match n.kind with
  | .importStatement => imported source n
  | .importFrom => importedFrom source n
  | .decorated => ((n.child? .definition).map fun d => defined source d n).getD .empty
  | .typeAlias =>
    match n.parts.head? with
    | some t => let name := source.text t; .ofType ⟨name, n.line, isExported name⟩
    | none => .empty
  | _ => defined source n n

def file (root : Node) : Findings := .concat (root.parts.map (statement source))

end

end CodeAgent.Outline.Python
