import CodeAgent.Ignore.Glob
import CodeAgent.Path.Lexical
import CodeAgent.Project.Files
import CodeAgent.Text.Digits
import CodeAgent.Text.Find
import CodeAgent.Tool.Registry

/-! What the tools of a project share: reading their arguments, finding files and printing lines. -/
namespace CodeAgent

/-! Arguments that passed their schema -/

namespace Json

def textArgument (arguments : Json) (name : String) : Outcome String :=
  match (arguments.member? name).bind Json.str? with
  | some s => .ok s
  | none => .error (.validation (ArgumentError.missing name).message)

/-- An empty text counts as none. -/
def textArgument? (arguments : Json) (name : String) : Option String :=
  ((arguments.member? name).bind Json.str?).filter (!·.isEmpty)

def countArgument? (arguments : Json) (name : String) : Option Nat :=
  (arguments.member? name).bind Json.nat?

def countArgument (arguments : Json) (name : String) : Outcome Nat :=
  match arguments.countArgument? name with
  | some n => .ok n
  | none => .error (.validation (ArgumentError.missing name).message)

def flagArgument? (arguments : Json) (name : String) : Option Bool :=
  (arguments.member? name).bind Json.bool?

end Json

namespace Tool

/-- A tool that runs without approval. -/
def ungated (name description : String) (parameters : Schema) (category : ToolCategory)
    (body : Json → Act BodyEnd) : Tool Act :=
  { definition := ⟨name, description, parameters⟩
    category := category
    gated := false
    summary := fun arguments => pure (plainSummary name arguments)
    body := body }

/-- A tool whose body ends in an output or a fault. -/
def ofProgram (name description : String) (parameters : Schema) (category : ToolCategory)
    (body : Json → Attempt ToolOutput) : Tool Act :=
  ungated name description parameters category fun arguments =>
    BodyEnd.ofOutcome <$> (body arguments).run

/-- Parameters of an object, described. -/
def parameters (description : String) (properties : List (String × Schema))
    (required : List String) : Schema :=
  { Schema.object properties required with description := some description }

def ofOutcome (o : Outcome α) : Attempt α := ExceptT.mk (pure o)

/-- A given path below the root. -/
def resolve (root given : String) : Attempt String :=
  match Path.resolve root given with
  | .ok path => return path
  | .error r => throw r.toFault

/-- The path that an argument restricts a search to, as it is named within the project. -/
def scope? (root : String) (arguments : Json) : Attempt (Option String) :=
  match arguments.textArgument? "path" with
  | none => return none
  | some given => return some (Path.relative root (← resolve root given))

/-- Whether a path is in a scope or is the scope itself. -/
def inScope (scope : Option String) (path : String) : Bool :=
  match scope with
  | none => true
  | some s => path = s || Text.startsWith path (s ++ "/")

/-- Lines with their numbers, from `first` on, in a column as wide as the last number. -/
def numbered (first : Nat) (lines : List String) : String :=
  let width := (Nat.toDigits 10 (max (first + lines.length - 1) 1)).length
  Text.unlines (lines.mapIdx fun i line => Text.column width (first + i) ++ "| " ++ line)

/-- Lines of a record from one number to another, both included. -/
def linesFromTo (r : FileRecord) (first last : Nat) : List String :=
  (r.lines.take last).drop (first - 1)

/-- Reads a file, and keeps what was read as the state that later edits compare with. -/
def observe (root given : String) : Attempt FileRecord := do
  let absolute ← resolve root given
  let name := Path.relative root absolute
  if !(← Files.isFile absolute) then
    throw ((Fault.file ("File not found: " ++ name)).withHint
      "Use get_structure to list project files")
  let record ← Files.loadRecord absolute name
  let stored ← Attempt.index (.file name)
  if stored.map (·.hash) ≠ some record.hash then Attempt.index (.setFile record)
  return record

/-- The files of the index, of which there have to be some. -/
def indexedFiles : Attempt (List FileRecord) := do
  let files ← Attempt.index .files
  if files.isEmpty then
    throw ((Fault.validation "Project is not indexed").withHint "Run `ipuaro index` first")
  return files

/-- The files of the index in a scope, in ascending order. -/
def filesInScope (scope : Option String) : Attempt (List FileRecord) := do
  return ((← indexedFiles).mergeSort fun a b => a.path ≤ b.path).filter fun r => inScope scope r.path

end Tool

end CodeAgent
