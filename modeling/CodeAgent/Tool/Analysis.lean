import CodeAgent.Index.Graph
import CodeAgent.Text.Word
import CodeAgent.Tool.Project

/-! Tools that answer from what the index derived of files: edges, measures and reminders. -/
namespace CodeAgent.Tool

def defaultRanking : Nat := 20

/-- The score from which on a file counts as complex. -/
def highScore : Nat := 60

def maxReminders : Nat := 500

section

variable (root : String)

/-- A given path as it is named in the index, and what the index derived of that file. -/
def indexedMeta (arguments : Json) : Attempt (String × FileMeta) := do
  let given ← ofOutcome (arguments.textArgument "path")
  let name := Path.relative root (← resolve root given)
  match ← Attempt.index (.fileMeta name) with
  | some m => return (name, m)
  | none =>
    throw ((Fault.file ("File not indexed: " ++ name)).withHint
      "Re-index the project if the file is new")

/-- A file at the end of an edge. -/
def describeNeighbour (path : String) : Attempt Json := do
  let (hub, type) := match ← Attempt.index (.fileMeta path) with
    | some m => (m.isHub, m.fileType)
    | none => (false, FileType.unknown)
  return Json.object [("path", .str path), ("is_hub", .bool hub), ("file_type", .str type.name)]

def pathOnly (name : String) : Schema :=
  parameters (name ++ " parameters")
    [("path", .string "File path relative to the project root")] ["path"]

def getDependencies : Tool Act :=
  ofProgram "get_dependencies" "List the project files a file imports."
    (pathOnly "get_dependencies") .analysis fun arguments => do
      let (name, _) ← indexedMeta root arguments
      let graph ← Attempt.index .graph
      let found ← (graph.dependencies name).mapM describeNeighbour
      return .of (Json.object [("path", .str name), ("count", .nat found.length),
        ("dependencies", .arr found)])

def getDependents : Tool Act :=
  ofProgram "get_dependents" "List the project files that import a file, and whether it is a hub."
    (pathOnly "get_dependents") .analysis fun arguments => do
      let (name, derived) ← indexedMeta root arguments
      let graph ← Attempt.index .graph
      let found ← (graph.dependents name).mapM describeNeighbour
      return .of (Json.object [("path", .str name), ("is_hub", .bool derived.isHub),
        ("count", .nat found.length), ("dependents", .arr found)])

/-- A file with its measures. -/
structure Ranked where
  path : String
  complexity : Complexity
deriving DecidableEq, Repr

namespace Ranked

/-- The more complex first; alike ones by their paths. -/
def before (a b : Ranked) : Bool :=
  a.complexity.score > b.complexity.score
    || (a.complexity.score = b.complexity.score && a.path ≤ b.path)

def toJson (r : Ranked) : Json :=
  Json.object [("path", .str r.path), ("score", .nat r.complexity.score),
    ("loc", .nat r.complexity.loc), ("nesting", .nat r.complexity.nesting),
    ("cyclomatic", .nat r.complexity.cyclomatic)]

end Ranked

def rank? (r : FileRecord) : Attempt (Option Ranked) := do
  return (← Attempt.index (.fileMeta r.path)).map fun m => ⟨r.path, m.complexity⟩

/-- The most complex of the files, and how complex all of them are. -/
def ranking (limit : Nat) (files : List FileRecord) : Attempt ToolOutput := do
  let found ← files.mapM rank?
  let ranked := (found.filterMap id).mergeSort Ranked.before
  let scores := ranked.map (·.complexity.score)
  return .of (Json.object [
    ("files", .arr ((ranked.take limit).map Ranked.toJson)),
    ("summary", Json.object [("total_files", .nat ranked.length),
      ("average_score", .float (.meanToTenth (scores.foldl (· + ·) 0) ranked.length)),
      ("high_complexity", .nat (scores.countP (· ≥ highScore)))])])

def getComplexity : Tool Act :=
  ofProgram "get_complexity" "Rank files by complexity score (0-100), most complex first."
    (parameters "get_complexity parameters"
      [("path", .string "File or directory to restrict the ranking to"),
        ("limit", .integer "Maximum files to return (default 20)")]
      [])
    .analysis fun arguments => do
      let scope ← scope? root arguments
      let limit := max ((arguments.countArgument? "limit").getD defaultRanking) 1
      ranking limit ((← indexedFiles).filter fun r => inScope scope r.path)

/-- The reminders of a file, each with its line. -/
def remindersIn (r : FileRecord) : List (String × Nat × Text.Reminder) :=
  (r.lines.mapIdx fun i line =>
    (Text.reminder? line.toList).map fun found => (r.path, i + 1, found)).filterMap id

def reminderJson (t : String × Nat × Text.Reminder) : Json :=
  Json.object [("path", .str t.1), ("line", .nat t.2.1), ("type", .str t.2.2.kind),
    ("text", .str t.2.2.text)]

/-- The reminders in the files, of one kind if one is wanted. -/
def reminders (wanted : Option String) (files : List FileRecord) : ToolOutput :=
  let found := (files.flatMap remindersIn).filter fun t => wanted.all (· = t.2.2.kind)
  let kinds := Text.reminderKinds.filterMap fun k =>
    match found.countP fun t => t.2.2.kind = k with
    | 0 => none
    | n => some (k, Json.nat n)
  .of (Json.object [("total", .nat found.length), ("by_type", Json.object kinds),
    ("todos", .arr ((found.take maxReminders).map reminderJson)),
    ("truncated", .bool (found.length > maxReminders))])

def getTodos : Tool Act :=
  ofProgram "get_todos" "Find TODO, FIXME, HACK, XXX, BUG and NOTE comments in indexed files."
    (parameters "get_todos parameters"
      [("path", .string "File or directory to search"),
        ("type", .choice "Only this marker type" Text.reminderKinds)]
      [])
    .analysis fun arguments => do
      let scope ← scope? root arguments
      let wanted := (arguments.textArgument? "type").map String.toUpper
      return reminders wanted (← filesInScope scope)

end

end CodeAgent.Tool
