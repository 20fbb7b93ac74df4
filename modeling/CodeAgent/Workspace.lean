import CodeAgent.Project.Scan
import CodeAgent.Project.Files
import CodeAgent.Session.Lifecycle
import CodeAgent.Settings.Files
import CodeAgent.Tool.Standard
import CodeAgent.Turn.Run

/-! A project that is open: where it is, its name, and the settings that hold for it. -/
namespace CodeAgent

structure Workspace where
  root : String
  name : String
  settings : Settings
deriving DecidableEq

namespace Workspace

def ofRoot (root : String) (settings : Settings) : Workspace :=
  ⟨root, Path.projectName root, settings⟩

def inaccessible (path why : String) : Fault :=
  (BackendError.validation ("Project path '" ++ path ++ "' is not accessible: " ++ why)).toFault

def noDirectory (path : String) : Fault :=
  (BackendError.validation ("Project path '" ++ path ++ "' is not a directory")).toFault

/-- The one path of a project's directory. -/
def locate (path : String) : Attempt String := do
  match ← Act.file (.canonical path) with
  | .error e => throw (inaccessible path e.message)
  | .ok root =>
    if (← Files.kind? root) ≠ some .directory then throw (noDirectory root)
    return root

/-- Opens the project in a directory, with the user's settings from a file. -/
def load (path userSettings : String) : Attempt Workspace := do
  let root ← locate path
  let user ← SettingsFile.loadUser userSettings
  return ofRoot root (← SettingsFile.forProject user root)

/-- Writes the settings file of a project that is not open. -/
def init (path : String) (force : Bool) : Attempt String := do
  SettingsFile.initProject (← locate path) force

def registry (w : Workspace) : Registry Act := .standard w.root w.settings

def agent (w : Workspace) : Agent :=
  { registry := w.registry
    maxRounds := w.settings.session.maxToolRounds
    contextWindow := w.settings.model.contextWindow
    maxRetries := w.settings.recovery.maxRetries }

/-- When the project was indexed last. -/
def lastIndexed (_ : Workspace) : Attempt (Option Int) := do
  return (← Attempt.index (.note lastIndexedKey)).bind Json.toInt64?

def index (w : Workspace) (extraIgnored : List String) : Attempt IndexStats :=
  Indexing.run w.root w.settings.project extraIgnored

def start (w : Workspace) : Attempt Session := Session.start w.settings.session w.name

def resume (w : Workspace) : Attempt Session := Session.resume w.settings.session w.name

/-- Reverses the newest change of a session and saves it, also when there was nothing to reverse. -/
def undo (w : Workspace) (s : Session) : Act (Outcome UndoReport × Session) := do
  let (report, s) ← Undo.run w.root s
  let (saved, s) ← s.persist
  return (saved.map fun () => report, s)

def turn (w : Workspace) (s : Session) (input : String) : Act (Outcome TurnReport × Session) :=
  Turn.run w.agent s input

end Workspace

end CodeAgent
