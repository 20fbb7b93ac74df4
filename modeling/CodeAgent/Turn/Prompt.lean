import CodeAgent.Act.Basic
import CodeAgent.Text.Find
import CodeAgent.Tool.Arguments

/-! What a model is told at the start of a turn: its task, its tools and an outline of the project. -/
namespace CodeAgent.Prompt

def task : String :=
  "You are ipuaro, a coding agent working inside a local project. "
    ++ "Use the tools to read, search and change code; never guess file contents.\n"
    ++ "Paths are relative to the project root. Edits need fresh reads: "
    ++ "re-read a file if an edit reports a conflict.\n\n## Tools\n"

def toolLine (d : ToolDefinition) : String := "- " ++ d.name ++ ": " ++ d.description ++ "\n"

/-- The first names of paths that lead into directories, in ascending order and each once. -/
def topDirectories (paths : List String) : List String :=
  (Table.ofList (paths.filterMap fun p => (Text.splitOnce? p "/").map fun r => (r.1, ()))).keys

def projectSection (files : List FileRecord) : String :=
  if files.isEmpty then "\n## Project\nNot indexed yet.\n"
  else
    let dirs := topDirectories (files.map (·.path))
    "\n## Project\n" ++ toString files.length ++ " indexed files. Top-level directories: "
      ++ (if dirs.isEmpty then "(none)" else ArgumentError.joinComma dirs) ++ "\n"

/-- An index that cannot be read goes unmentioned. -/
def system (tools : List ToolDefinition) : Act String := do
  let front := task ++ String.join (tools.map toolLine)
  match ← Act.index .files with
  | .ok files => return front ++ projectSection files
  | .error _ => return front

end CodeAgent.Prompt
