import CodeAgent.Outline.Findings
import CodeAgent.Text.Casing
import CodeAgent.Text.Find

/-! Outlines of Go files. Structures count as classes; a name is exported when it starts with an
upper-case letter. -/
namespace CodeAgent.Outline.Go

open Syntax

def isExported (name : String) : Bool := (name.toList.head?.map Text.isUpper).getD false

/-- A module whose first part has a dot comes from elsewhere. -/
def importKind (module : String) : ImportKind :=
  if Text.contains ((Text.splitOn '/' module).headD "") "." then .external else .builtin

section

variable (source : Source)

def exportOf (name : String) (n : Node) : Findings := Findings.exportIf (isExported name) name n.line

def importOf? (spec : Node) : Option Import := do
  let path ← spec.child? .path
  let module := unquoted (source.text path)
  let bound := (source.textAs? spec .name).getD ((Text.splitOn '/' module).getLastD module)
  return ⟨[bound], module, spec.line, importKind module⟩

def functionOf? (n : Node) : Option Function := do
  let name ← source.textAs? n .name
  let params := ((n.child? .parameters).map fun l =>
    (l.parts.flatMap (·.childrenAs .name)).map source.text).getD []
  return ⟨name, n.line, n.lastLine, params, false, isExported name⟩

def typeFindings (spec : Node) : Findings :=
  match source.textAs? spec .name with
  | none => .empty
  | some name =>
    let kind := if spec.kind = .typeSpec then (spec.child? .type).map (·.kind) else none
    exportOf name spec ++ match kind with
      | some .structType => .ofClass ⟨name, spec.line, spec.lastLine, [], none, isExported name⟩
      | some .interfaceType => .ofInterface ⟨name, spec.line, spec.lastLine, isExported name⟩
      | _ => .ofType ⟨name, spec.line, isExported name⟩

def item (n : Node) : Findings :=
  match n.kind with
  | .importStatement => .ofImports ((n.outermost .importSpec).filterMap (importOf? source))
  | .functionDeclaration =>
    match functionOf? source n with
    | some f => exportOf f.name n ++ .ofFunction f
    | none => .empty
  | .typeDeclaration => .concat (n.parts.map (typeFindings source))
  | _ => .empty

/-- A method, and the name of the type it belongs to. -/
def method? (n : Node) : Option (String × Function) := do
  let receiver ← n.child? .receiver
  let type ← receiver.find? .typeIdentifier
  return (source.text type, ← functionOf? source n)

def file (root : Node) : Findings :=
  let found := Findings.concat (root.parts.map (item source))
  let methods := (root.partsOf .methodDeclaration).filterMap (method? source)
  { found with
    classes := methods.foldl (fun cs m => Findings.attach m.1 [m.2] cs) found.classes }

end

end CodeAgent.Outline.Go
