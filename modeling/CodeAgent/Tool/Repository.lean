import CodeAgent.Text.Word
import CodeAgent.Tool.Process
import CodeAgent.Tool.Project

/-! Tools that look at the version control of a project and leave it as it is. -/
namespace CodeAgent

/-- What differs from the last commit. -/
structure RepositoryStatus where
  branch : Option String
  upstream : Option String
  staged : List String
  modified : List String
  untracked : List String
  conflicted : List String
deriving DecidableEq, Repr, Inhabited

namespace RepositoryStatus

def empty : RepositoryStatus := ⟨none, none, [], [], [], []⟩

def clean (s : RepositoryStatus) : Bool :=
  s.staged.isEmpty && s.modified.isEmpty && s.untracked.isEmpty && s.conflicted.isEmpty

/-- The line on the branch, behind its mark: a name, and perhaps what it follows. -/
def readHead (s : RepositoryStatus) (head : String) : RepositoryStatus :=
  let head := match Text.splitOnce? head " [" with
    | some (front, _) => front
    | none => head
  let (branch, upstream) := match Text.splitOnce? head "..." with
    | some (b, u) => (b, some u)
    | none => (head, none)
  { s with
    branch := some ((Text.dropHead? branch "No commits yet on ").getD branch)
    upstream := upstream }

/-- A path under its two marks, one for the index and one for the files. -/
def addPath (s : RepositoryStatus) (staged unstaged : Char) (path : String) : RepositoryStatus :=
  match staged, unstaged with
  | '?', '?' => { s with untracked := s.untracked ++ [path] }
  | 'U', _ | _, 'U' | 'A', 'A' | 'D', 'D' => { s with conflicted := s.conflicted ++ [path] }
  | _, _ =>
    { s with
      staged := if staged = ' ' then s.staged else s.staged ++ [path]
      modified := if unstaged = ' ' then s.modified else s.modified ++ [path] }

/-- The text of the crash when the second byte of a line ends within a character. -/
def withinCharacter (line : String) (c : Char) (start : Nat) : String :=
  let front := String.ofList (Text.frontWithin [] 256 line.toList).reverse
  "byte index 2 is not a char boundary; it is inside '" ++ c.toString ++ "' (bytes " ++ toString start
    ++ ".." ++ toString (start + c.utf8Size) ++ ") of " ++ "\x60" ++ front ++ "\x60"
    ++ if front = line then "" else "[...]"

/-- The marks take the first two bytes of a line. -/
def readLine (s : RepositoryStatus) (line : String) : Except String RepositoryStatus :=
  match Text.dropHead? line "## " with
  | some head => .ok (s.readHead head)
  | none =>
    if line.utf8ByteSize < 4 then .ok s
    else
      let add (staged unstaged : Char) (path : List Char) :=
        s.addPath staged unstaged (String.ofList (Text.trimStartChars path))
      match line.toList with
      | [] => .ok s
      | a :: rest =>
        if a.utf8Size = 2 then .ok (add a ' ' rest)
        else if a.utf8Size > 2 then .error (withinCharacter line a 0)
        else
          match rest with
          | [] => .ok s
          | b :: path =>
            if b.utf8Size > 1 then .error (withinCharacter line b 1) else .ok (add a b path)

/-- Reads the short form that `git status` prints with the branch. -/
def ofText (output : String) : Except String RepositoryStatus :=
  (Text.reportLines output).foldlM readLine empty

def toJson (s : RepositoryStatus) : Json :=
  Json.object [("branch", Json.ofOption .str s.branch), ("upstream", Json.ofOption .str s.upstream),
    ("staged", Json.ofStrings s.staged), ("modified", Json.ofStrings s.modified),
    ("untracked", Json.ofStrings s.untracked), ("conflicted", Json.ofStrings s.conflicted),
    ("clean", .bool s.clean)]

end RepositoryStatus

namespace Tool

def gitTimeoutMs : Nat := 30000

section

variable (root : String)

/-- Runs `git`; a failure is told in its own words. -/
def git (command : String) (arguments : List String) : Attempt ProcessReport := do
  let report ← runProgram root "git" (command :: arguments) gitTimeoutMs
  if report.success then return report
  let why := Text.trim report.errors
  let fault := Fault.command ("git " ++ command ++ " failed: " ++ why)
  throw (if Text.contains why "not a git repository" then
    fault.withHint "Initialize a repository with `git init`" else fault)

def gitStatus : Tool Act :=
  ungated "git_status"
    "Show the current branch and staged, modified, untracked and conflicted files."
    (parameters "git_status takes no parameters" [] [])
    .git fun _ => do
      match ← (git root "status" ["--porcelain=v1", "-b"]).run with
      | .error f => return .failed f
      | .ok report =>
        match RepositoryStatus.ofText report.output with
        | .ok s => return .done (.of s.toJson)
        | .error crash => return .crashed (some crash)

/-- The files that a diff gives new content. -/
def changedFiles (diff : String) : List String :=
  (Text.reportLines diff).filterMap fun line => Text.dropHead? line "+++ b/"

def gitDiff : Tool Act :=
  ofProgram "git_diff"
    "Show uncommitted changes as a unified diff, optionally for one path or only staged changes."
    (parameters "git_diff parameters"
      [("path", .string "Restrict the diff to this path"),
        ("staged", .boolean "Show staged changes instead of unstaged ones")]
      [])
    .git fun arguments => do
      let staged := (arguments.flagArgument? "staged").getD false
      let path ← scope? root arguments
      let report ← git root "diff" (["--no-color", "--no-ext-diff"]
        ++ (if staged then ["--cached"] else [])
        ++ match path with
          | some p => ["--", p]
          | none => [])
      return .of (Json.object [("staged", .bool staged), ("path", Json.ofOption .str path),
        ("files", Json.ofStrings (changedFiles report.output)), ("diff", .str report.output),
        ("truncated", .bool report.truncated),
        ("has_changes", .bool !(Text.trim report.output).isEmpty)])

end

end Tool

end CodeAgent
