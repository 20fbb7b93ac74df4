import CodeAgent.Ignore.Glob
import CodeAgent.Text.Word
import CodeAgent.Json.Reader

/-! Settings of the application, and the limits they must keep. -/
namespace CodeAgent

structure ModelSettings where
  model : String := "qwen2.5-coder:7b-instruct"
  /-- Tokens that the model can take in. -/
  contextWindow : Nat := 128000
  /-- A tenth, unless set. -/
  temperature : Single := ⟨0x3dcccccd⟩
  timeoutMs : Nat := 120000
deriving DecidableEq, Repr, Inhabited

structure ProjectSettings where
  /-- Patterns of paths that are not indexed. -/
  ignorePatterns : List String := []
  /-- Larger files are not indexed. -/
  maxFileSize : Nat := 1048576
deriving DecidableEq, Repr, Inhabited

structure SessionSettings where
  maxUndoEntries : Nat := 10
  maxInputHistory : Nat := 100
  /-- The most requests to the model within one turn. -/
  maxToolRounds : Nat := 20
deriving DecidableEq, Repr, Inhabited

structure SecuritySettings where
  blacklist : List String := []
  whitelist : List String := []
deriving DecidableEq, Repr, Inhabited

structure RecoverySettings where
  maxRetries : Nat := 3
  autoSkipParseErrors : Bool := true
  autoRetryModelErrors : Bool := true
deriving DecidableEq, Repr, Inhabited

structure EditSettings where
  /-- Apply edits without asking. -/
  autoApply : Bool := false
deriving DecidableEq, Repr, Inhabited

structure Settings where
  model : ModelSettings := {}
  project : ProjectSettings := {}
  session : SessionSettings := {}
  security : SecuritySettings := {}
  recovery : RecoverySettings := {}
  edit : EditSettings := {}
deriving DecidableEq, Repr, Inhabited

namespace ModelSettings

def ofJson? (j : Json) : Option ModelSettings := do
  let preset : ModelSettings := {}
  let fs ← j.fields? ["model", "context_window", "temperature", "timeout_ms"]
  let model ← fs.orElse "model" Json.toStr? preset.model
  let contextWindow ← fs.orElse "context_window" Json.toNat32? preset.contextWindow
  let temperature ← fs.orElse "temperature" Json.toSingle? preset.temperature
  let timeoutMs ← fs.orElse "timeout_ms" Json.toNat64? preset.timeoutMs
  return { model, contextWindow, temperature, timeoutMs }

def toJson (s : ModelSettings) : Json :=
  Json.object [("model", .str s.model), ("context_window", .nat s.contextWindow),
    ("temperature", .float s.temperature.toDouble), ("timeout_ms", .nat s.timeoutMs)]

end ModelSettings

namespace ProjectSettings

def ofJson? (j : Json) : Option ProjectSettings := do
  let preset : ProjectSettings := {}
  let fs ← j.fields? ["ignore_patterns", "max_file_size"]
  let ignorePatterns ← fs.orElse "ignore_patterns" Json.toStrings? preset.ignorePatterns
  let maxFileSize ← fs.orElse "max_file_size" Json.toNat64? preset.maxFileSize
  return { ignorePatterns, maxFileSize }

def toJson (s : ProjectSettings) : Json :=
  Json.object [("ignore_patterns", Json.ofStrings s.ignorePatterns),
    ("max_file_size", .nat s.maxFileSize)]

end ProjectSettings

namespace SessionSettings

def ofJson? (j : Json) : Option SessionSettings := do
  let preset : SessionSettings := {}
  let fs ← j.fields? ["max_undo_entries", "max_input_history", "max_tool_rounds"]
  let maxUndoEntries ← fs.orElse "max_undo_entries" Json.toNat64? preset.maxUndoEntries
  let maxInputHistory ← fs.orElse "max_input_history" Json.toNat64? preset.maxInputHistory
  let maxToolRounds ← fs.orElse "max_tool_rounds" Json.toNat64? preset.maxToolRounds
  return { maxUndoEntries, maxInputHistory, maxToolRounds }

def toJson (s : SessionSettings) : Json :=
  Json.object [("max_undo_entries", .nat s.maxUndoEntries),
    ("max_input_history", .nat s.maxInputHistory), ("max_tool_rounds", .nat s.maxToolRounds)]

end SessionSettings

namespace SecuritySettings

def ofJson? (j : Json) : Option SecuritySettings := do
  let fs ← j.fields? ["blacklist", "whitelist"]
  let blacklist ← fs.orElse "blacklist" Json.toStrings? []
  let whitelist ← fs.orElse "whitelist" Json.toStrings? []
  return { blacklist, whitelist }

def toJson (s : SecuritySettings) : Json :=
  Json.object [("blacklist", Json.ofStrings s.blacklist), ("whitelist", Json.ofStrings s.whitelist)]

end SecuritySettings

namespace RecoverySettings

def ofJson? (j : Json) : Option RecoverySettings := do
  let preset : RecoverySettings := {}
  let fs ← j.fields? ["max_retries", "auto_skip_parse_errors", "auto_retry_llm_errors"]
  let maxRetries ← fs.orElse "max_retries" Json.toNat32? preset.maxRetries
  let autoSkipParseErrors ←
    fs.orElse "auto_skip_parse_errors" Json.toBool? preset.autoSkipParseErrors
  let autoRetryModelErrors ←
    fs.orElse "auto_retry_llm_errors" Json.toBool? preset.autoRetryModelErrors
  return { maxRetries, autoSkipParseErrors, autoRetryModelErrors }

def toJson (s : RecoverySettings) : Json :=
  Json.object [("max_retries", .nat s.maxRetries),
    ("auto_skip_parse_errors", .bool s.autoSkipParseErrors),
    ("auto_retry_llm_errors", .bool s.autoRetryModelErrors)]

end RecoverySettings

namespace EditSettings

def ofJson? (j : Json) : Option EditSettings := do
  let fs ← j.fields? ["auto_apply"]
  return { autoApply := ← fs.orElse "auto_apply" Json.toBool? false }

def toJson (s : EditSettings) : Json := Json.object [("auto_apply", .bool s.autoApply)]

end EditSettings

/-- A setting out of its limits. -/
inductive SettingsError where
  | modelEmpty
  | contextWindowSmall
  | temperature (found : Single)
  | maxFileSize
  | ignorePattern (pattern : String) (why : Ignore.GlobError)
  | maxUndoEntries
  | maxInputHistory
  | maxToolRounds
  | maxRetries
deriving DecidableEq, Repr

namespace SettingsError

def message : SettingsError → String
  | modelEmpty => "llm.model must not be empty"
  | contextWindowSmall => "llm.context_window must be at least 1024 tokens"
  | temperature t => "Invalid llm.temperature: " ++ t.text ++ ". Must be between 0.0 and 2.0"
  | maxFileSize => "project.max_file_size must be positive"
  | ignorePattern p why => "Invalid ignore pattern '" ++ p ++ "': " ++ why.message
  | maxUndoEntries => "session.max_undo_entries must be between 1 and 100"
  | maxInputHistory => "session.max_input_history must be positive"
  | maxToolRounds => "session.max_tool_rounds must be positive"
  | maxRetries => "error_handling.max_retries cannot exceed 10"

end SettingsError

namespace Settings

def ofJson? (j : Json) : Option Settings := do
  let fs ← j.fields? ["llm", "project", "session", "security", "error_handling", "edit"]
  let model ← fs.orElse "llm" ModelSettings.ofJson? {}
  let project ← fs.orElse "project" ProjectSettings.ofJson? {}
  let session ← fs.orElse "session" SessionSettings.ofJson? {}
  let security ← fs.orElse "security" SecuritySettings.ofJson? {}
  let recovery ← fs.orElse "error_handling" RecoverySettings.ofJson? {}
  let edit ← fs.orElse "edit" EditSettings.ofJson? {}
  return { model, project, session, security, recovery, edit }

def toJson (s : Settings) : Json :=
  Json.object [("llm", s.model.toJson), ("project", s.project.toJson),
    ("session", s.session.toJson), ("security", s.security.toJson),
    ("error_handling", s.recovery.toJson), ("edit", s.edit.toJson)]

def badPattern? : List String → Option SettingsError
  | [] => none
  | p :: rest =>
    match Ignore.Glob.parse p with
    | .error e => some (.ignorePattern p e)
    | .ok _ => badPattern? rest

/-- The temperature lies between zero and two, both included. -/
def temperatureFits (t : Single) : Bool :=
  -- numbers without a sign are in the order of their bits, and these are the bits of two
  t.bits ≤ 0x40000000 || t.magnitude = .zero

/-- The first limit that is not kept. -/
def error? (s : Settings) : Option SettingsError :=
  if (Text.trim s.model.model).isEmpty then some .modelEmpty
  else if s.model.contextWindow < 1024 then some .contextWindowSmall
  else if !temperatureFits s.model.temperature then some (.temperature s.model.temperature)
  else if s.project.maxFileSize = 0 then some .maxFileSize
  else
    match badPattern? s.project.ignorePatterns with
    | some e => some e
    | none =>
      if s.session.maxUndoEntries = 0 || s.session.maxUndoEntries > 100 then some .maxUndoEntries
      else if s.session.maxInputHistory = 0 then some .maxInputHistory
      else if s.session.maxToolRounds = 0 then some .maxToolRounds
      else if s.recovery.maxRetries > 10 then some .maxRetries
      else none

end Settings

end CodeAgent
