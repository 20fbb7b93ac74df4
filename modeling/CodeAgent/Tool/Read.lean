import CodeAgent.Outline.OfFile
import CodeAgent.Project.Listing
import CodeAgent.Project.Scan
import CodeAgent.Tool.Project

/-! Tools that read files. What they show comes from disk and not from the index. -/
namespace CodeAgent.Tool

section

variable (root : String)

def pathProperty : String × Schema := ("path", .string "File path relative to the project root")

/-- A range of lines within a file; missing ends are those of the file. -/
def getLines : Tool Act :=
  ofProgram "get_lines"
    "Read lines of a file with line numbers. Without start/end returns the whole file."
    (parameters "get_lines parameters"
      [pathProperty, ("start", .integer "First line (1-based, inclusive)"),
        ("end", .integer "Last line (1-based, inclusive)")]
      ["path"])
    .read fun arguments => do
      let record ← observe root (← ofOutcome (arguments.textArgument "path"))
      let total := record.lines.length
      let start := max ((arguments.countArgument? "start").getD 1) 1
      let last := min ((arguments.countArgument? "end").getD total) total
      if start > total then
        throw (.validation ("start (" ++ toString start ++ ") is beyond the end of " ++ record.path
          ++ " (" ++ toString total ++ " lines)"))
      if last < start then
        throw (.validation ("end (" ++ toString last ++ ") must not be before start ("
          ++ toString start ++ ")"))
      return .of (Json.object [("path", .str record.path), ("start", .nat start), ("end", .nat last),
        ("total_lines", .nat total),
        ("content", .str (numbered start (linesFromTo record start last)))])

/-- The names of functions and methods, in ascending order. -/
def functionNames (o : Outline) : List String :=
  ((o.functions ++ o.classes.flatMap (·.methods)).map (·.name)).mergeSort fun a b => a ≤ b

/-- A function of the file as it is on disk now. -/
def getFunction : Tool Act :=
  ofProgram "get_function" "Get the source of a function or method by name, with line numbers."
    (parameters "get_function parameters"
      [pathProperty, ("name", .string "Function or method name")] ["path", "name"])
    .read fun arguments => do
      let name ← ofOutcome (arguments.textArgument "name")
      let record ← observe root (← ofOutcome (arguments.textArgument "path"))
      match Language.ofPath? record.path with
      | none => throw (.validation ("Unsupported file type: " ++ record.path))
      | some language =>
        let outline := Outline.ofFile language record.content
        match outline.findFunction? name with
        | none =>
          throw ((Fault.validation ("Function '" ++ name ++ "' not found in " ++ record.path)).withHint
            ("Available: " ++ ArgumentError.joinComma (functionNames outline)))
        | some f =>
          let last := min f.lineEnd record.lines.length
          let start := max (min f.lineStart last) 1
          return .of (Json.object [("path", .str record.path), ("name", .str f.name),
            ("line_start", .nat start), ("line_end", .nat last), ("params", Json.ofStrings f.params),
            ("is_async", .bool f.isAsync), ("is_exported", .bool f.isExported),
            ("content", .str (numbered start (linesFromTo record start last)))])

def defaultDepth : Nat := 3

def getStructure : Tool Act :=
  ofProgram "get_structure"
    "Show the project directory tree, optionally below a subdirectory and to a given depth."
    (parameters "get_structure parameters"
      [("path", .string "Subdirectory relative to the project root"),
        ("depth", .integer "Directory levels to expand (default 3)")]
      [])
    .read fun arguments => do
      let base ← match arguments.textArgument? "path" with
        | some given => resolve root given
        | none => pure root
      let name := Path.relative root base
      if (← Files.kind? base) ≠ some .directory then
        throw (.file ("Not a directory: " ++ name))
      let depth := max ((arguments.countArgument? "depth").getD defaultDepth) 1
      let files ← Scan.project base [] Json.maxWord
      let lines := (Listing.ofPaths (files.map (·.path))).lines depth
      return .of (Json.object [("path", .str (if name.isEmpty then "." else name)),
        ("total_files", .nat files.length), ("tree", .str (Text.trimEnd (Text.unlines lines)))])

end

end CodeAgent.Tool
