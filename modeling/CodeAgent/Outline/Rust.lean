import CodeAgent.Outline.Findings
import CodeAgent.Text.Word
import CodeAgent.Text.Find

/-! Outlines of Rust files. Structures and unions count as classes, traits as interfaces, enumerations
and aliases as names of types; an item is exported when it has a visibility. -/
namespace CodeAgent.Outline.Rust

open Syntax

def importKind (path : String) : ImportKind :=
  match ((Text.splitOnce? path "::").map (·.1)).getD path with
  | "crate" | "self" | "super" => .internal
  | "std" | "core" | "alloc" => .builtin
  | _ => .external

/-- One path behind another; an empty one adds nothing. -/
def joined (front path : String) : String :=
  if front.isEmpty then path else if path.isEmpty then front else front ++ "::" ++ path

def isExported (n : Node) : Bool := !(n.partsOf .visibility).isEmpty

section

variable (source : Source)

def importOf (line : Nat) (names : List String) (path : String) : Import :=
  ⟨names, path, line, importKind path⟩

/-- Items of a list that are a single name. -/
def isPlain (n : Node) : Bool :=
  n.kind = .identifier || (n.kind = .pathRoot && source.text n = "self")

/-- What stands in front of the last double colon. -/
def withoutLast (path : String) : String := ((Text.splitLast? path "::").map (·.1)).getD path

def partText (n : Node) (r : Syntax.Role) : String := (source.textAs? n r).getD ""

mutual

/-- The imports of a use behind a path. In a list, single names are one import, which comes last. -/
def used (line : Nat) (front : String) : Node → List Import
  | .mk kind role span children =>
    let n := Node.mk kind role span children
    match kind with
    | .scopedUseList => usedLists line (joined front (partText source n .path)) children
    | .useList =>
      let names := (children.filter (isPlain source)).map source.text
      usedItems line front children
        ++ if names.isEmpty then [] else [importOf line names front]
    | .scopedIdentifier =>
      [importOf line [partText source n .name] (joined front (partText source n .path))]
    | .useAs =>
      ((n.child? .path).map fun path =>
        importOf line [partText source n .otherName]
          (withoutLast (joined front (source.text path)))).toList
    | .useWildcard =>
      let path := Text.trimTails (Text.trimTails (source.text n) "*") "::"
      [importOf line ["*"] (joined front path)]
    | .identifier | .pathRoot =>
      let name := source.text n
      [importOf line [name] (joined front name)]
    | _ => []

/-- The imports of the first list among these. -/
def usedLists (line : Nat) (front : String) : List Node → List Import
  | [] => []
  | n :: rest => if n.role = some .list then used line front n else usedLists line front rest

def usedItems (line : Nat) (front : String) : List Node → List Import
  | [] => []
  | n :: rest =>
    (if isPlain source n then [] else used line front n) ++ usedItems line front rest

end

/-- The text of a parameter is that of its pattern, without its type. -/
def param (p : Node) : String := source.text ((p.child? .pattern).getD p)

def functionOf? (n : Node) : Option Function := do
  let name ← source.textAs? n .name
  let params := ((n.child? .parameters).map fun l =>
    (l.parts.filter (·.kind ≠ .attribute)).map (param source)).getD []
  return { name := name
           lineStart := n.line
           lineEnd := n.lastLine
           params := params
           isAsync := (n.partsOf .modifiers).any (·.hasKeyword "async")
           isExported := isExported n }

/-- An item with a name, exported under it, as it counts. -/
def named (n : Node) (f : String → Bool → Findings) : Findings :=
  match source.textAs? n .name with
  | some name => Findings.exportIf (isExported n) name n.line ++ f name (isExported n)
  | none => .empty

def item (n : Node) : Findings :=
  match n.kind with
  | .useDeclaration =>
    .ofImports (((n.child? .argument).map (used source n.line "")).getD [])
  | .moduleItem =>
    match n.child? .body, source.textAs? n .name with
    | none, some name => .ofImports [⟨[name], "self::" ++ name, n.line, .internal⟩]
    | _, _ => .empty
  | .functionDeclaration =>
    match functionOf? source n with
    | some f => Findings.exportIf f.isExported f.name n.line ++ .ofFunction f
    | none => .empty
  | .structItem =>
    named source n fun name exported => .ofClass ⟨name, n.line, n.lastLine, [], none, exported⟩
  | .traitItem =>
    named source n fun name exported => .ofInterface ⟨name, n.line, n.lastLine, exported⟩
  | .aliasItem => named source n fun name exported => .ofType ⟨name, n.line, exported⟩
  | _ => .empty

/-- The type that an implementation is for, without its arguments, and its functions. -/
def implemented? (n : Node) : Option (String × List Function) := do
  let type ← n.child? .type
  let body ← n.child? .body
  return (Text.trim ((Text.splitOn '<' (source.text type)).headD ""),
    (body.partsOf .functionDeclaration).filterMap (functionOf? source))

def file (root : Node) : Findings :=
  let found := Findings.concat (root.parts.map (item source))
  let implementations := (root.partsOf .implItem).filterMap (implemented? source)
  { found with
    classes := implementations.foldl (fun cs i => Findings.attach i.1 i.2 cs) found.classes }

end

end CodeAgent.Outline.Rust
