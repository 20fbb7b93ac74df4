import CodeAgent.Text.Find
import CodeAgent.Text.Casing
import CodeAgent.Path.Lexical
import CodeAgent.Index.Record

/-! What a file's path says: its language, its type, and whether a program starts there. -/
namespace CodeAgent

inductive Language where
  | typeScript | tsx | javaScript | python | rust | go
deriving DecidableEq, Repr, Inhabited

namespace Language

/-- By what follows the last dot of the path. -/
def ofPath? (path : String) : Option Language :=
  match Text.splitLast? path "." with
  | none => none
  | some (_, ext) =>
    match ext with
    | "ts" | "mts" | "cts" => some typeScript
    | "tsx" => some tsx
    | "js" | "jsx" | "mjs" | "cjs" => some javaScript
    | "py" => some python
    | "rs" => some rust
    | "go" => some go
    | _ => none

def name : Language → String
  | typeScript | tsx => "typescript"
  | javaScript => "javascript"
  | python => "python"
  | rust => "rust"
  | go => "go"

/-- The name of the very dialect. -/
def dialect : Language → String
  | typeScript => "TypeScript"
  | tsx => "Tsx"
  | javaScript => "JavaScript"
  | python => "Python"
  | rust => "Rust"
  | go => "Go"

end Language

namespace FileType

/-- Tests first, then type declarations, configuration, and sources of a known language. -/
def ofPath (path : String) (hasLanguage : Bool) : FileType :=
  let lower := Text.lowerAscii (Path.baseName path)
  let has := Text.contains lower
  if has ".test." || has ".spec." || Text.endsWith lower "_test.go" || Text.endsWith lower "_test.py"
      || Text.startsWith lower "test_" || Text.startsWith path "tests/"
      || Text.contains path "/tests/" || Text.contains path "__tests__/" then .test
  else if Text.endsWith lower ".d.ts" || lower = "types.ts" || Text.contains path "/types/" then
    .types
  else if has "config" || Text.startsWith lower "."
      || [".json", ".yaml", ".yml", ".toml"].any (Text.endsWith lower) then .config
  else if hasLanguage then .source
  else .unknown

end FileType

/-- Names of files where programs start. -/
def entryPointNames : List String :=
  ["main.rs", "lib.rs", "main.go", "main.py", "__main__.py", "index.ts", "index.tsx", "index.js",
    "main.ts", "main.tsx", "main.js", "app.ts", "app.js", "server.ts", "server.js", "cli.ts",
    "cli.js"]

def isEntryPoint (path : String) : Bool := Path.baseName path ∈ entryPointNames

end CodeAgent
