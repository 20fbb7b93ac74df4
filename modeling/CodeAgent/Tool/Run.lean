import CodeAgent.CommandPolicy
import CodeAgent.Json.Reader
import CodeAgent.Tool.Process
import CodeAgent.Tool.Project

/-! Tools that run programs: a shell command, or the tests of a project. -/
namespace CodeAgent

/-- A program that runs the tests of a project. -/
structure TestRunner where
  name : String
  program : String
  arguments : List String
deriving DecidableEq, Repr

namespace TestRunner

/-- The program and its arguments; a blank stays behind a program without any. -/
def commandLine (r : TestRunner) : String := r.program ++ " " ++ Text.joinWith ' ' r.arguments

def cargo (filter : Option String) : TestRunner :=
  ⟨"cargo", "cargo", "test" :: filter.toList⟩

/-- Whether a manifest names a package among those it depends on. -/
def dependsOn (manifest : Json) (package : String) : Bool :=
  ["dependencies", "devDependencies"].any fun list =>
    ((manifest.member? list).bind (Json.member? package)).isSome

/-- A manifest that cannot be read counts as one without packages. -/
def ofPackage (manifest : String) (path filter : Option String) : TestRunner :=
  let manifest := (Json.parse? manifest).getD .null
  let (name, program, front) :=
    if dependsOn manifest "vitest" then ("vitest", "npx", ["vitest", "run"])
    else if dependsOn manifest "jest" then ("jest", "npx", ["jest"])
    else ("npm", "npm", ["test", "--"])
  ⟨name, program, front ++ path.toList ++ (filter.map (["-t", ·])).getD []⟩

def pytest (path filter : Option String) : TestRunner :=
  ⟨"pytest", "pytest", path.toList ++ (filter.map (["-k", ·])).getD []⟩

def go (path filter : Option String) : TestRunner :=
  let place := match path with
    | some p => "./" ++ Text.trimTails (Text.trimHeads p "./") "/" ++ "/..."
    | none => "./..."
  ⟨"go", "go", ["test", place] ++ (filter.map (["-run", ·])).getD []⟩

/-- Files that mark a project whose tests run under `pytest`. -/
def pytestMarkers : List String :=
  ["pyproject.toml", "pytest.ini", "setup.py", "setup.cfg", "requirements.txt"]

/-- Whether one of some files is in a directory. -/
def hasFile (root : String) : List String → Act Bool
  | [] => return false
  | name :: rest => do
    if ← Files.isFile (Path.join root name) then return true else hasFile root rest

def detect? (root : String) (path filter : Option String) : Act (Option TestRunner) := do
  if ← Files.isFile (Path.join root "Cargo.toml") then return some (cargo filter)
  match ← (Files.readText (Path.join root "package.json")).run with
  | .ok manifest => return some (ofPackage manifest path filter)
  | .error _ =>
    if ← hasFile root pytestMarkers then return some (pytest path filter)
    if ← Files.isFile (Path.join root "go.mod") then return some (go path filter)
    return none

end TestRunner

namespace Tool

def commandTimeoutMs : Nat := 120000
def maxCommandTimeoutMs : Nat := 600000
def testTimeoutMs : Nat := 300000

section

variable (root : String)

/-- Refuses a blocked command and asks about one that is not trusted. -/
def admitCommand (policy : CommandPolicy) (command : String) : Attempt Unit := do
  let reason := policy.judge command
  match reason.verdict with
  | .allowed => return ()
  | .blocked =>
    throw ((Fault.command ("Command blocked: " ++ reason.message)).withHint
      "Use a safer alternative or ask the user to run it")
  | .requiresConfirmation =>
    if !(← Act.confirm ("Run command: " ++ command ++ "\n(" ++ reason.message ++ ")")) then
      throw (.command "Command rejected by user")

def runCommand (policy : CommandPolicy) : Tool Act :=
  ofProgram "run_command"
    ("Run a shell command in the project root. Dangerous commands are blocked; "
      ++ "unknown programs need user approval.")
    (parameters "run_command parameters"
      [("command", .string "Shell command to run"),
        ("timeout", .integer "Timeout in milliseconds (default 120000, max 600000)")]
      ["command"])
    .run fun arguments => do
      let command ← ofOutcome (arguments.textArgument "command")
      let timeoutMs := min ((arguments.countArgument? "timeout").getD commandTimeoutMs)
        maxCommandTimeoutMs
      admitCommand policy command
      let report ← runProgram root "sh" ["-c", command] timeoutMs
      return .of (Json.object (report.members ++ [("command", .str command)]))

def runTests : Tool Act :=
  ofProgram "run_tests"
    "Run the project's tests with the detected runner (cargo, vitest, jest, npm, pytest or go)."
    (parameters "run_tests parameters"
      [("path", .string "Test file or directory to restrict the run to"),
        ("filter", .string "Test name filter")]
      [])
    .run fun arguments => do
      let path := arguments.textArgument? "path"
      if let some given := path then discard (resolve root given)
      match ← TestRunner.detect? root path (arguments.textArgument? "filter") with
      | none =>
        throw ((Fault.validation "No test runner detected").withHint
          "Use run_command with the project's test command")
      | some runner =>
        let report ← runProgram root runner.program runner.arguments testTimeoutMs
        return .of (Json.object (report.members
          ++ [("runner", .str runner.name), ("command", .str runner.commandLine)]))

end

end Tool

end CodeAgent
