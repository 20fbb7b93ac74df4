import CodeAgent.Act.Basic
import CodeAgent.Settings

/-! Sessions in their store: how they start, are resumed and saved.
The bounds of the settings hold for new and for resumed sessions. -/
namespace CodeAgent.Session

def limited (settings : SessionSettings) (s : Session) : Session :=
  s.withLimits settings.maxUndoEntries settings.maxInputHistory

def save (s : Session) : Attempt Unit := Attempt.sessions (.save s)

/-- A new session, saved. -/
def start (settings : SessionSettings) (project : String) : Attempt Session := do
  let id ← Act.newId
  let now ← Act.now
  let s := (Session.new project id now).limited settings
  s.save
  return s

/-- The latest session of a project goes on; without one a new session starts. -/
def resume (settings : SessionSettings) (project : String) : Attempt Session := do
  match ← Attempt.sessions (.latest project) with
  | some s =>
    let now ← Act.now
    let s := (s.limited settings).touch now
    s.save
    return s
  | none => start settings project

def load (settings : SessionSettings) (id : String) : Attempt (Option Session) := do
  return (← Attempt.sessions (.load id)).map (limited settings)

def list (project : Option String) : Attempt (List SessionSummary) :=
  Attempt.sessions (.list project)

def delete (id : String) : Attempt Unit := Attempt.sessions (.delete id)

/-- Notes the time and saves; the session keeps the time also when it cannot be saved. -/
def persist (s : Session) : Act (Outcome Unit × Session) := do
  let s := s.touch (← Act.now)
  return (← (save s).run, s)

/-! On the stored session -/

def notFound (id : String) : Fault := .validation ("Session not found: " ++ id)

def require (id : String) : Attempt Session := do
  match ← Attempt.sessions (.load id) with
  | some s => return s
  | none => throw (notFound id)

def touchStored (id : String) : Attempt Unit := do
  let s ← require id
  (s.touch (← Act.now)).save

def pushUndoStored (id : String) (c : Change) : Attempt Unit := do
  let s ← require id
  (s.pushUndo c).save

/-- Of a session that is not stored there is nothing to take. -/
def popUndoStored (id : String) : Attempt (Option Change) := do
  match ← Attempt.sessions (.load id) with
  | none => return none
  | some s =>
    match s.popUndo with
    | (none, _) => return none
    | (some c, s) =>
      s.save
      return some c

/-- Newest first. -/
def undoStored (id : String) : Attempt (List Change) := do
  return ((← Attempt.sessions (.load id)).map (·.undoStack)).getD []

end CodeAgent.Session
