import CodeAgent.Act.Basic
import CodeAgent.Ignore.Glob
import CodeAgent.Ignore.Rule
import CodeAgent.Index.Build
import CodeAgent.Project.Files
import CodeAgent.Settings
import CodeAgent.Text.Utf8

/-! The files of a project that take part in its index.
Directories that hold what others made are left out, as is what ignore files and the settings say, and
files that are too large. -/
namespace CodeAgent

structure ScannedFile where
  /-- Below the directory that was scanned. -/
  path : String
  absolute : String
  size : Nat
deriving DecidableEq, Repr

namespace Scan

/-- Directories that are never entered. -/
def idleDirectories : List String :=
  [".git", "node_modules", "target", "dist", "build", "coverage", ".next", "__pycache__", "vendor"]

def maxDepth : Nat := 4096

def rulesIn (path : String) : Act (List Ignore.Rule) := do
  match ← Act.file (.read path) with
  | .ok content => return Ignore.Rule.ofFile content
  | .error _ => return []

def rulesOf (directory : String) : Act Ignore.DirectoryRules := do
  return {
    directory := directory
    search := ← rulesIn (Path.join directory ".ignore")
    shared := ← rulesIn (Path.join directory ".gitignore")
    excluded := ← rulesIn (Path.join directory ".git/info/exclude") }

/-- The directories above a path, the nearest first. -/
def above : Nat → String → List String
  | 0, _ => []
  | n + 1, path =>
    let parent := Path.parent path
    if parent.isEmpty || parent = path then [] else parent :: above n parent

/-- The files below a directory; `inside` is its path from where the scan started. -/
def walk (chain : List Ignore.DirectoryRules) (directory inside : String) :
    Nat → Act (List ScannedFile)
  | 0 => return []
  | depth + 1 => do
    let chain := (← rulesOf directory) :: chain
    match ← Act.file (.list directory) with
    | .error _ => return []
    | .ok entries =>
      let found ← entries.mapM fun (name, kind) => do
        let absolute := Path.join directory name
        let path := Path.join inside name
        let isDirectory := kind = .directory
        if Ignore.DirectoryRules.ignores chain absolute isDirectory
            || (isDirectory && idleDirectories.contains name) then return []
        else if isDirectory then walk chain absolute path depth
        else if kind = .file then
          match ← Act.file (.status absolute) with
          | .ok status => return [⟨path, absolute, status.size⟩]
          | .error _ => return []
        else return []
      return found.flatten

/-- How a found file is named: a backslash counts as a slash. -/
def slashed (path : String) : String := path.map fun c => if c = '\\' then '/' else c

/-- The files below a root, in ascending order of their paths; a root that is a file is its own and
only one. -/
def project (root : String) (ignored : List String) (maxSize : Nat) : Attempt (List ScannedFile) := do
  let filter ← ExceptT.mk (pure (Ignore.PathFilter.ofPatterns ignored))
  let found : List ScannedFile ← (do
    match ← Act.file (.status root) with
    | .error _ => return []
    | .ok status =>
      if status.kind = .directory then
        let chain ← (above maxDepth root).mapM rulesOf
        walk chain root "" maxDepth
      else return [⟨"", root, status.size⟩] : Act (List ScannedFile))
  let named := found.map fun f => { f with path := slashed f.path }
  return (named.filter fun f => !filter.ignores f.path && f.size ≤ maxSize).mergeSort
    fun a b => a.path ≤ b.path

end Scan

end CodeAgent

/-! One pass over a project that replaces its index.
The files are found and read, then parsed, then all else is derived from them at once and stored
together, so a reader of the index never sees two passes mixed. -/

namespace CodeAgent.Indexing

/-- A step for each item, told before it is taken. -/
def overEach (phase : IndexPhase) (path : α → String) (step : α → Act β) (items : List α) :
    Act (List β) :=
  items.zipIdx.mapM fun (a, i) => do
    Act.progress ⟨phase, i + 1, items.length, some (path a)⟩
    step a

/-- A file that cannot be read or is no text has no record. -/
def read? (f : ScannedFile) : Act (Option FileRecord) := do
  match ← Act.file (.read f.absolute) with
  | .error _ => return none
  | .ok bytes =>
    match Text.ofFileBytes? bytes with
    | none => return none
    | some content =>
      let modified := match ← Act.file (.status f.absolute) with
        | .ok status => status.modified
        | .error _ => 0
      return some (.ofContent f.path content modified)

/-- The module that the project's `go.mod` names. -/
def goModule? (root : String) : Act (Option String) := do
  match ← (Files.readText (Path.join root "go.mod")).run with
  | .ok text => return Resolve.goModule? text
  | .error _ => return none

/-- Tells of the files that are parsed and measured. -/
def tellFiles (phase : IndexPhase) (records : List FileRecord) : Act Unit :=
  discard (overEach phase (·.path) (fun _ => pure ()) records)

def tellPart (phase : IndexPhase) (current total : Nat) : Act Unit :=
  Act.progress ⟨phase, current, total, none⟩

def run (root : String) (settings : ProjectSettings) (extraIgnored : List String) :
    Attempt IndexStats := do
  let started ← Act.now
  let scanned ← Scan.project root (settings.ignorePatterns ++ extraIgnored) settings.maxFileSize
  tellPart .scan scanned.length scanned.length
  let records := (← overEach .scan (·.path) read? scanned).filterMap id
  tellFiles .parse (records.filter fun r => (Language.ofPath? r.path).isSome)
  let goModule ← goModule? root
  tellFiles .analyze records
  tellPart .buildIndexes 0 2
  tellPart .buildIndexes 2 2
  tellPart .persist 0 1
  let snapshot := Index.derive records goModule (← Act.now)
  Attempt.index (.commit snapshot)
  tellPart .persist 1 1
  return .ofSnapshot snapshot ((← Act.now) - started).toNat

end CodeAgent.Indexing
