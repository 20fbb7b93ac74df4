import CodeAgent.Change
import CodeAgent.Chat.Message
import CodeAgent.Text.Word

/-! The conversation with a user about one project.
A session holds the messages, what the model has in view, counters, the changes that can still be
reversed and the inputs given. The last two are bounded and lose their oldest entries first. -/
namespace CodeAgent

structure HistoryEntry where
  timestamp : Int
  message : Message
deriving DecidableEq, Repr, Inhabited

/-- What the model has in view. -/
structure ContextState where
  filesInContext : List String
  /-- The share of the context window that the last request filled, at most one. -/
  tokenUsage : Double
  needsCompression : Bool
deriving DecidableEq, Repr, Inhabited

structure SessionStats where
  totalTokens : Nat
  totalTimeMs : Nat
  toolCalls : Nat
  editsApplied : Nat
  editsRejected : Nat
deriving DecidableEq, Repr, Inhabited

structure Session where
  schemaVersion : Nat
  id : String
  projectName : String
  createdAt : Int
  lastActivityAt : Int
  history : List HistoryEntry
  context : ContextState
  stats : SessionStats
  /-- Newest first. -/
  undoStack : List Change
  /-- Oldest first. -/
  inputs : List String
  maxUndo : Nat
  maxInputs : Nat
deriving DecidableEq, Repr, Inhabited

/-- A session in a listing. -/
structure SessionSummary where
  id : String
  projectName : String
  createdAt : Int
  lastActivityAt : Int
  messageCount : Nat
deriving DecidableEq, Repr, Inhabited

namespace ContextState

def empty : ContextState := ⟨[], .zero, false⟩

def toJson (c : ContextState) : Json :=
  Json.object [("files_in_context", Json.ofStrings c.filesInContext),
    ("token_usage", .float c.tokenUsage), ("needs_compression", .bool c.needsCompression)]

def ofJson? (j : Json) : Option ContextState := do
  let fs ← j.fields? ["files_in_context", "token_usage", "needs_compression"]
  let filesInContext ← fs.req "files_in_context" Json.toStrings?
  let tokenUsage ← fs.req "token_usage" Json.toDouble?
  let needsCompression ← fs.req "needs_compression" Json.toBool?
  return { filesInContext, tokenUsage, needsCompression }

end ContextState

namespace SessionStats

def zero : SessionStats := ⟨0, 0, 0, 0, 0⟩

def toJson (s : SessionStats) : Json :=
  Json.object [("total_tokens", .nat s.totalTokens), ("total_time_ms", .nat s.totalTimeMs),
    ("tool_calls", .nat s.toolCalls), ("edits_applied", .nat s.editsApplied),
    ("edits_rejected", .nat s.editsRejected)]

def ofJson? (j : Json) : Option SessionStats := do
  let fs ← j.fields?
    ["total_tokens", "total_time_ms", "tool_calls", "edits_applied", "edits_rejected"]
  let totalTokens ← fs.req "total_tokens" Json.toNat64?
  let totalTimeMs ← fs.req "total_time_ms" Json.toNat64?
  let toolCalls ← fs.req "tool_calls" Json.toNat64?
  let editsApplied ← fs.req "edits_applied" Json.toNat64?
  let editsRejected ← fs.req "edits_rejected" Json.toNat64?
  return { totalTokens, totalTimeMs, toolCalls, editsApplied, editsRejected }

end SessionStats

namespace HistoryEntry

def toJson (e : HistoryEntry) : Json :=
  Json.object [("timestamp", .int e.timestamp), ("message", e.message.toJson)]

def ofJson? (j : Json) : Option HistoryEntry := do
  let fs ← j.fields? ["timestamp", "message"]
  let timestamp ← fs.req "timestamp" Json.toInt64?
  let message ← fs.req "message" Message.ofJson?
  return { timestamp, message }

end HistoryEntry

namespace SessionSummary

def ofJson? (j : Json) : Option SessionSummary := do
  let fs ← j.fields? ["id", "project_name", "created_at", "last_activity_at", "message_count"]
  let id ← fs.req "id" Json.toStr?
  let projectName ← fs.req "project_name" Json.toStr?
  let createdAt ← fs.req "created_at" Json.toInt64?
  let lastActivityAt ← fs.req "last_activity_at" Json.toInt64?
  let messageCount ← fs.req "message_count" Json.toNat64?
  return { id, projectName, createdAt, lastActivityAt, messageCount }

def toJson (s : SessionSummary) : Json :=
  Json.object [("id", .str s.id), ("project_name", .str s.projectName),
    ("created_at", .int s.createdAt), ("last_activity_at", .int s.lastActivityAt),
    ("message_count", .nat s.messageCount)]

end SessionSummary

namespace Session

/-- The version of the document that sessions are saved as. -/
def currentVersion : Nat := 1

def presetMaxUndo : Nat := 10
def presetMaxInputs : Nat := 100

def new (project id : String) (now : Int) : Session :=
  { schemaVersion := currentVersion
    id := id
    projectName := project
    createdAt := now
    lastActivityAt := now
    history := []
    context := .empty
    stats := .zero
    undoStack := []
    inputs := []
    maxUndo := presetMaxUndo
    maxInputs := presetMaxInputs }

/-- Bounds of at least one; what lies beyond them goes, oldest first. -/
def withLimits (s : Session) (maxUndo maxInputs : Nat) : Session :=
  let maxUndo := max maxUndo 1
  let maxInputs := max maxInputs 1
  { s with
    maxUndo := maxUndo
    maxInputs := maxInputs
    undoStack := s.undoStack.take maxUndo
    inputs := s.inputs.drop (s.inputs.length - maxInputs) }

def touch (s : Session) (now : Int) : Session := { s with lastActivityAt := now }

def addMessage (s : Session) (m : Message) (now : Int) : Session :=
  { s with history := s.history ++ [⟨now, m⟩], lastActivityAt := now }

def messages (s : Session) : List Message := s.history.map (·.message)

/-- Forgets the messages and what the model had in view, not what can be reversed. -/
def clearHistory (s : Session) (now : Int) : Session :=
  { s with history := [], context := .empty, lastActivityAt := now }

/-- At the bound the oldest change goes. -/
def pushUndo (s : Session) (c : Change) : Session :=
  { s with
    undoStack := c :: if s.maxUndo ≤ s.undoStack.length then s.undoStack.dropLast else s.undoStack }

def popUndo (s : Session) : Option Change × Session :=
  match s.undoStack with
  | [] => (none, s)
  | c :: rest => (some c, { s with undoStack := rest })

def peekUndo (s : Session) : Option Change := s.undoStack.head?

def undoDepth (s : Session) : Nat := s.undoStack.length

/-- Blank inputs and immediate repeats are not kept. -/
def addInput (s : Session) (input : String) : Session :=
  let input := Text.trim input
  if input.isEmpty || s.inputs.getLast? = some input then s
  else
    { s with
      inputs := (if s.maxInputs ≤ s.inputs.length then s.inputs.drop 1 else s.inputs) ++ [input] }

/-- A path is noted once. -/
def referenceFile (s : Session) (path : String) : Session :=
  if path ∈ s.context.filesInContext then s
  else { s with context := { s.context with filesInContext := s.context.filesInContext ++ [path] } }

/-- Above this share of the window the history should be compressed. -/
def compressionThreshold : Float := 0.8

/-- A window of zero tokens counts as full. -/
def updateTokenUsage (s : Session) (tokens window : Nat) : Session :=
  let ratio : Float := if window = 0 then 1.0 else Float.ofNat tokens / Float.ofNat window
  { s with
    context := { s.context with
      tokenUsage := .ofFloat (if ratio > 1.0 then 1.0 else ratio)
      needsCompression := ratio > compressionThreshold } }

def summary (s : Session) : SessionSummary :=
  { id := s.id
    projectName := s.projectName
    createdAt := s.createdAt
    lastActivityAt := s.lastActivityAt
    messageCount := s.history.length }

def toJson (s : Session) : Json :=
  Json.object [("schema_version", .nat s.schemaVersion), ("id", .str s.id),
    ("project_name", .str s.projectName), ("created_at", .int s.createdAt),
    ("last_activity_at", .int s.lastActivityAt),
    ("history", .arr (s.history.map HistoryEntry.toJson)), ("context", s.context.toJson),
    ("stats", s.stats.toJson), ("undo_stack", .arr (s.undoStack.reverse.map Change.toJson)),
    ("input_history", Json.ofStrings s.inputs), ("max_undo_entries", .nat s.maxUndo),
    ("max_input_history", .nat s.maxInputs)]

def ofJson? (j : Json) : Option Session := do
  let fs ← j.fields? ["schema_version", "id", "project_name", "created_at", "last_activity_at",
    "history", "context", "stats", "undo_stack", "input_history", "max_undo_entries",
    "max_input_history"]
  let schemaVersion ← fs.req "schema_version" Json.toNat32?
  let id ← fs.req "id" Json.toStr?
  let projectName ← fs.req "project_name" Json.toStr?
  let createdAt ← fs.req "created_at" Json.toInt64?
  let lastActivityAt ← fs.req "last_activity_at" Json.toInt64?
  let history ← fs.req "history" (Json.toList? HistoryEntry.ofJson?)
  let context ← fs.req "context" ContextState.ofJson?
  let stats ← fs.req "stats" SessionStats.ofJson?
  let undo ← fs.req "undo_stack" (Json.toList? Change.ofJson?)
  let inputs ← fs.req "input_history" Json.toStrings?
  let maxUndo ← fs.orElse "max_undo_entries" Json.toNat64? presetMaxUndo
  let maxInputs ← fs.orElse "max_input_history" Json.toNat64? presetMaxInputs
  return { schemaVersion, id, projectName, createdAt, lastActivityAt, history, context, stats,
           undoStack := undo.reverse, inputs, maxUndo, maxInputs }

end Session

end CodeAgent
