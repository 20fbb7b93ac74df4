import CodeAgent.Diff.Unified
import CodeAgent.Tool.Project

/-! Tools that change files.
An edit is planned from the file as it is on disk, which has to be what the index knows of it, and
shown as a diff before it is applied. What was written is kept in the index, and the change that
reverses it is handed back. -/
namespace CodeAgent

/-- Lines in place of the lines `start` to `last` of a file. -/
structure LineEdit where
  start : Nat
  last : Nat
  replacement : List String
deriving DecidableEq, Repr

namespace LineEdit

/-- An empty text stands for no lines. -/
def replacementOf (content : String) : List String :=
  if content.isEmpty then [] else Text.lines content

/-- Why an edit does not fit a file of `total` lines. -/
def misfit? (e : LineEdit) (total : Nat) : Option String :=
  if e.start = 0 || e.start > total + 1 then
    some ("start must be between 1 and " ++ toString (total + 1) ++ ", got " ++ toString e.start)
  else if e.last + 1 < e.start || e.last > total then
    some ("end must be between " ++ toString (e.start - 1) ++ " and " ++ toString total ++ ", got "
      ++ toString e.last)
  else none

def apply (e : LineEdit) (lines : List String) : List String :=
  lines.take (e.start - 1) ++ e.replacement ++ lines.drop e.last

def removed (e : LineEdit) : Nat := e.last + 1 - e.start

end LineEdit

namespace Tool

/-- The file as it is on disk, `none` if nothing is there. It is refused when it is not what was read
or written last. -/
def unchanged? (root given : String) : Attempt (String × Option FileRecord) := do
  let absolute ← resolve root given
  let name := Path.relative root absolute
  match ← Files.kind? absolute with
  | none => return (absolute, none)
  | some kind =>
    if kind ≠ .file then throw (.file ("Not a file: " ++ name))
    let current ← Files.loadRecord absolute name
    match ← Attempt.index (.file name) with
    | none => return (absolute, some current)
    | some stored =>
      if stored.hash ≠ current.hash then
        throw ((Fault.conflict ("File has been modified since it was last read: " ++ name)).withHint
          "Read the file again before editing it")
      return (absolute, some current)

/-- Keeps a file that was written, and hands back the change that reverses it. -/
def recordChange (absolute name : String) (previous : Option FileRecord)
    (content description : String) : Attempt (FileRecord × Change) := do
  let record ← Files.loadRecord absolute name
  Attempt.index (.setFile record)
  let id ← Act.newId
  let time ← Act.now
  return (record,
    { id := id
      path := name
      previousLines := (previous.map (·.lines)).getD []
      hashAfter := contentHash content
      timestamp := time
      description := description
      created := previous.isNone })

/-- Writes a file and keeps what was written. -/
def writeChange (root absolute : String) (previous : Option FileRecord)
    (content description : String) : Attempt (FileRecord × Change) := do
  let name := Path.relative root absolute
  if ← Act.cancelled then throw (.command ("Cancelled before writing " ++ name))
  Files.writeText absolute content
  recordChange absolute name previous content description

structure PlannedEdit where
  absolute : String
  current : FileRecord
  edit : LineEdit

namespace PlannedEdit

def lines (p : PlannedEdit) : List String := p.edit.apply p.current.lines

def content (p : PlannedEdit) : String := Text.unlines p.lines

def of (root : String) (arguments : Json) : Attempt PlannedEdit := do
  let path ← ofOutcome (arguments.textArgument "path")
  let start ← ofOutcome (arguments.countArgument "start")
  let last ← ofOutcome (arguments.countArgument "end")
  let content ← ofOutcome (arguments.textArgument "content")
  match ← unchanged? root path with
  | (_, none) =>
    throw ((Fault.file ("File not found: " ++ path)).withHint "Use create_file for new files")
  | (absolute, some current) =>
    let edit : LineEdit := ⟨start, last, LineEdit.replacementOf content⟩
    match edit.misfit? current.lines.length with
    | some why => throw (.validation why)
    | none => return ⟨absolute, current, edit⟩

/-- The path and the lines that are replaced. -/
def summary (p : PlannedEdit) : String :=
  "Edit " ++ p.current.path ++ " lines " ++ toString p.edit.start ++ "-" ++ toString p.edit.last
    ++ ":\n" ++ Diff.unified p.current.path p.current.content p.content

end PlannedEdit

section

variable (root : String) (autoApply : Bool)

/-- Editing tools are gated unless edits apply by themselves. -/
def editing (t : Tool Act) (summary : Json → Act String) : Tool Act :=
  { t with gated := !autoApply, summary := summary }

def editLines : Tool Act :=
  editing autoApply
    (ofProgram "edit_lines"
      ("Replace lines start..=end of a file with new content. Use end = start - 1 to insert "
        ++ "before start without replacing; empty content deletes the range.")
      (parameters "edit_lines parameters"
        [("path", .string "File path relative to the project root"),
          ("start", .integer "First line to replace (1-based)"),
          ("end", .integer "Last line to replace (1-based, inclusive)"),
          ("content", .string "Replacement text")]
        ["path", "start", "end", "content"])
      .edit fun arguments => do
        let p ← PlannedEdit.of root arguments
        let description := "edit_lines " ++ p.current.path ++ ":" ++ toString p.edit.start ++ "-"
          ++ toString p.edit.last
        let (record, change) ← writeChange root p.absolute (some p.current) p.content description
        return ⟨Json.object [("path", .str record.path), ("start", .nat p.edit.start),
            ("end", .nat p.edit.last), ("lines_removed", .nat p.edit.removed),
            ("lines_added", .nat (p.lines.length + p.edit.removed - p.current.lines.length)),
            ("total_lines", .nat record.lines.length)],
          some change⟩)
    fun arguments => do
      match ← (PlannedEdit.of root arguments).run with
      | .ok p => return p.summary
      | .error f => return "edit_lines (will fail: " ++ f.message ++ ")"

/-- What a whole file would become. -/
def createSummary (path content : String) : Attempt String := do
  let (absolute, existing) ← unchanged? root path
  let name := Path.relative root absolute
  let verb := if existing.isSome then "Overwrite" else "Create"
  let old := (existing.map (·.content)).getD ""
  return verb ++ " " ++ name ++ ":\n" ++ Diff.unified name old content

def createFile : Tool Act :=
  editing autoApply
    (ofProgram "create_file"
      ("Create a file (and missing parent directories) with the given content, or overwrite an "
        ++ "existing one.")
      (parameters "create_file parameters"
        [("path", .string "File path relative to the project root"),
          ("content", .string "Full file content")]
        ["path", "content"])
      .edit fun arguments => do
        let path ← ofOutcome (arguments.textArgument "path")
        let content ← ofOutcome (arguments.textArgument "content")
        let (absolute, existing) ← unchanged? root path
        let description := "create_file " ++ Path.relative root absolute
        let (record, change) ← writeChange root absolute existing content description
        return ⟨Json.object [("path", .str record.path), ("created", .bool existing.isNone),
            ("lines", .nat record.lines.length), ("size", .nat record.size)],
          some change⟩)
    fun arguments => do
      match arguments.textArgument "path", arguments.textArgument "content" with
      | .ok path, .ok content =>
        match ← (createSummary root path content).run with
        | .ok s => return s
        | .error f => return "create_file (will fail: " ++ f.message ++ ")"
      | _, _ => return "create_file (missing parameters)"

end

end Tool

end CodeAgent
