import CodeAgent.BackendError
import CodeAgent.Json.Overlay
import CodeAgent.Json.Writer
import CodeAgent.Project.Files
import CodeAgent.Settings

/-! Where settings come from: a file of the user's, and below it one of the project's. -/
namespace CodeAgent.SettingsFile

/-- The project's own file, in its root directory. -/
def projectFile : String := ".ipuaro.json"

def invalid (e : SettingsError) : Fault := (BackendError.validation e.message).toFault

/-- An answer of the file system, or its refusal as it stands. -/
def disk (c : FileCall) : Attempt c.Result := do
  match ← Act.file c with
  | .ok a => return a
  | .error e => throw (BackendError.file e.message).toFault

def readText (path : String) : Attempt String := do
  match String.fromUTF8? (← disk (.read path)) with
  | some text => return text
  | none => throw (BackendError.file Files.notText).toFault

def malformed : Fault := BackendError.malformed.toFault

/-- Settings that keep their limits. -/
def checked (s : Settings) : Outcome Settings :=
  match s.error? with
  | none => .ok s
  | some e => .error (invalid e)

def parse (text : String) : Outcome Settings :=
  match (Json.parse? text).bind Settings.ofJson? with
  | none => .error malformed
  | some s => checked s

/-- As they are written to a file. -/
def document (s : Settings) : Json :=
  let model := match s.toJson.member? "llm" with
    | some (.obj members) => Json.obj (Json.put "temperature" (.float s.model.temperature.asWritten)
        members)
    | _ => .null
  match s.toJson with
  | .obj members => .obj (Json.put "llm" model members)
  | j => j

def save (path : String) (s : Settings) : Attempt Unit := do
  let s ← (checked s : Outcome Settings)
  disk (.write path ((document s).pretty 0))

/-- The user's settings; a missing file is written with the presets. -/
def loadUser (path : String) : Attempt Settings := do
  let dir := Path.parent path
  if (← Files.kind? dir).isNone then disk (.makeDirs dir)
  if (← Files.kind? path).isSome then
    (parse (← readText path) : Outcome Settings)
  else
    save path {}
    return {}

/-- The user's settings with a project's document laid over them. -/
def overlaid (user : Settings) (path : String) (document : Json) : Outcome Settings :=
  match Settings.ofJson? (user.toJson.overlay document.canonical) with
  | none => .error malformed
  | some s =>
    match s.error? with
    | none => .ok s
    | some e => .error (BackendError.validation (path ++ ": " ++ e.message)).toFault

/-- The settings for one project. -/
def forProject (user : Settings) (root : String) : Attempt Settings := do
  let path := Path.join root projectFile
  if (← Files.kind? path).isNone then return user
  match Json.parse? (← readText path) with
  | none => throw malformed
  | some j => (overlaid user path j : Outcome Settings)

/-- What a new project file holds. -/
def template : Json :=
  Json.object [("project", Json.object [("ignore_patterns", .arr [])]),
    ("edit", Json.object [("auto_apply", .bool false)])]

/-- Writes a project file, over an old one only when forced. -/
def initProject (root : String) (force : Bool) : Attempt String := do
  let path := Path.join root projectFile
  if (← Files.kind? path).isSome && !force then
    throw (BackendError.validation (path ++ " already exists (use --force to overwrite)")).toFault
  disk (.write path (template.pretty 0))
  return path

end CodeAgent.SettingsFile
