import CodeAgent.Change
import CodeAgent.Json.Writer

/-! What a tool hands back. -/
namespace CodeAgent

/-- What the body of a tool produced, and the file change it made. -/
structure ToolOutput where
  data : Json
  change : Option Change
deriving DecidableEq, Repr, Inhabited

namespace ToolOutput

def of (data : Json) : ToolOutput := ⟨data, none⟩

end ToolOutput

/-- The outcome of one call; every call has one. -/
structure ToolResult where
  callId : String
  tool : String
  outcome : Except String ToolOutput
  timeMs : Nat

namespace ToolResult

def success (r : ToolResult) : Bool :=
  match r.outcome with
  | .ok _ => true
  | .error _ => false

def data? (r : ToolResult) : Option Json :=
  match r.outcome with
  | .ok o => some o.data
  | .error _ => none

def error? (r : ToolResult) : Option String :=
  match r.outcome with
  | .ok _ => none
  | .error e => some e

def change? (r : ToolResult) : Option Change :=
  match r.outcome with
  | .ok o => o.change
  | .error _ => none

/-- The text that a model receives: a text as it is, any other value in indented form. -/
def content (r : ToolResult) : String :=
  match r.outcome with
  | .ok ⟨.str s, _⟩ => s
  | .ok o => o.data.pretty 0
  | .error e => "Error: " ++ e

def toJson (r : ToolResult) : Json :=
  Json.object ([("call_id", .str r.callId), ("tool_name", .str r.tool), ("success", .bool r.success),
    ("execution_time_ms", .nat r.timeMs)]
    ++ match r.outcome with
      | .ok o => [("data", o.data)]
      | .error e => [("error", .str e)])

end ToolResult

end CodeAgent
