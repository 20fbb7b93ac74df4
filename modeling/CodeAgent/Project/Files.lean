import CodeAgent.Act.Basic
import CodeAgent.Path.Lexical
import CodeAgent.Session.Basic

/-! Text files of a project, as programs that ask the file system. -/
namespace CodeAgent.Files

def refused (what path why : String) : Fault :=
  .file ("Failed to " ++ what ++ " " ++ path ++ ": " ++ why)

def notText : String := "stream did not contain valid UTF-8"

/-- The answer of the file system, or a fault that says what was tried. -/
def call (what path : String) (c : FileCall) : Attempt c.Result := do
  match ← Act.file c with
  | .ok a => return a
  | .error e => throw (refused what path e.message)

def readText (path : String) : Attempt String := do
  match String.fromUTF8? (← call "read" path (.read path)) with
  | some text => return text
  | none => throw (refused "read" path notText)

/-- Makes the directories above the file that are missing. -/
def writeText (path content : String) : Attempt Unit := do
  let dir := Path.parent path
  call "create" dir (.makeDirs dir)
  call "write" path (.write path content)

/-- What is on disk now, under its name in the project. -/
def loadRecord (path name : String) : Attempt FileRecord := do
  let content ← readText path
  let status ← call "stat" path (.status path)
  return .ofContent name content status.modified

def kind? (path : String) : Act (Option FileKind) := do
  match ← Act.file (.status path) with
  | .ok s => return some s.kind
  | .error _ => return none

def isFile (path : String) : Act Bool := return (← kind? path) = some .file

end CodeAgent.Files

/-! Reversing the newest change of a session.
A change is reversed only while its file has the content that the change left; whatever fails, the
entry stays. -/

namespace CodeAgent.Undo

def nothing : String := "No changes to undo"
def modifiedSince : String := "File has been modified since the change was made"

def failed (entry : Option Change) (why : String) : UndoReport := ⟨false, entry, some why⟩

/-- Puts the content from before the change back, or takes a file away that the change made. -/
def revert (path : String) (c : Change) : Attempt Unit := do
  if c.created then
    Files.call "remove" path (.remove path)
    Attempt.index (.deleteFile c.path)
  else
    Files.writeText path (Text.unlines c.previousLines)
    Attempt.index (.setFile (← Files.loadRecord path c.path))

/-- Whether the change could be reversed; a fault says why it was not. -/
def attempt (root : String) (c : Change) : Attempt Bool := do
  let path := Path.join root c.path
  let current ← Files.readText path
  if contentHash current ≠ c.hashAfter then return false
  revert path c
  return true

def countDown (s : Session) : Session :=
  { s with stats := { s.stats with editsApplied := s.stats.editsApplied - 1 } }

/-- Reverses the newest change. The caller saves the session. -/
def run (root : String) (s : Session) : Act (UndoReport × Session) := do
  match s.popUndo with
  | (none, s) => return (failed none nothing, s)
  | (some c, rest) =>
    match ← (attempt root c).run with
    | .ok true => return (⟨true, some c, none⟩, (countDown rest).touch (← Act.now))
    | .ok false => return (failed (some c) modifiedSince, rest.pushUndo c)
    | .error f => return (failed (some c) ("Failed to undo change: " ++ f.message), rest.pushUndo c)

end CodeAgent.Undo
