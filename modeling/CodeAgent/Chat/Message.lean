import CodeAgent.Json.Decode
import CodeAgent.Text.Lines

/-! Messages between a user, a model and the tools. -/
namespace CodeAgent

inductive Role where
  | system | user | assistant
deriving DecidableEq, Repr, Inhabited

namespace Role

def name : Role → String
  | system => "system"
  | user => "user"
  | assistant => "assistant"

def toJson (r : Role) : Json := .str r.name
def ofJson? : Json → Option Role := Json.toNamed? [system, user, assistant] name

end Role

/-- A tool call that a model asks for. -/
structure ToolCall where
  id : String
  name : String
  arguments : Json
deriving DecidableEq, Repr, Inhabited

namespace ToolCall

def toJson (c : ToolCall) : Json :=
  Json.object [("id", .str c.id), ("name", .str c.name), ("arguments", c.arguments)]

def ofJson? (j : Json) : Option ToolCall := do
  let fs ← j.fields? ["id", "name", "arguments"]
  let id ← fs.req "id" Json.toStr?
  let name ← fs.req "name" Json.toStr?
  let arguments ← fs.req "arguments" (some ∘ Json.canonical)
  return ⟨id, name, arguments⟩

end ToolCall

/-- A part of a message. -/
inductive Block where
  | text (text : String)
  | toolUse (call : ToolCall)
  | toolResult (callId content : String) (failed : Option Bool)
deriving DecidableEq, Repr, Inhabited

namespace Block

def toJson : Block → Json
  | .text t => Json.object [("type", .str "text"), ("text", .str t)]
  | .toolUse c =>
    Json.object [("type", .str "tool_use"), ("id", .str c.id), ("name", .str c.name),
      ("input", c.arguments)]
  | .toolResult id content failed =>
    Json.object ([("type", .str "tool_result"), ("tool_use_id", .str id), ("content", .str content)]
      ++ match failed with
        | some b => [("is_error", .bool b)]
        | none => [])

/-- The members beside the tag, by name or by position behind it. -/
def body? (names : List String) : Json → Option Json.Fields
  | .obj members => (Json.obj (members.filter (·.1 ≠ "type"))).fields? names
  | .arr (_ :: items) => (Json.arr items).fields? names
  | _ => none

/-- The name that tells the forms of a tagged record apart. -/
def tag? : Json → Option String
  | .obj members =>
    match members.filter (·.1 = "type") with
    | [(_, .str s)] => some s
    | _ => none
  | .arr (.str s :: _) => some s
  | _ => none

def ofJson? (j : Json) : Option Block := do
  match ← tag? j with
  | "text" =>
    let fs ← body? ["text"] j
    return .text (← fs.req "text" Json.toStr?)
  | "tool_use" =>
    let fs ← body? ["id", "name", "input"] j
    let id ← fs.req "id" Json.toStr?
    let name ← fs.req "name" Json.toStr?
    let input ← fs.req "input" (some ∘ Json.canonical)
    return .toolUse ⟨id, name, input⟩
  | "tool_result" =>
    let fs ← body? ["tool_use_id", "content", "is_error"] j
    let id ← fs.req "tool_use_id" Json.toStr?
    let content ← fs.req "content" Json.toStr?
    let failed ← fs.opt "is_error" Json.toBool?
    return .toolResult id content failed
  | _ => none

end Block

structure Message where
  role : Role
  content : List Block
deriving DecidableEq, Repr, Inhabited

namespace Message

def ofText (role : Role) (text : String) : Message := ⟨role, [.text text]⟩

def user (text : String) : Message := ofText .user text
def assistant (text : String) : Message := ofText .assistant text
def system (text : String) : Message := ofText .system text

/-- A model's turn: its text, unless empty, and the calls it asks for. -/
def calling (text : String) (calls : List ToolCall) : Message :=
  ⟨.assistant, (if text.isEmpty then [] else [.text text]) ++ calls.map .toolUse⟩

/-- The answer to one call; only a failure is marked. -/
def result (callId content : String) (failed : Bool) : Message :=
  ⟨.user, [.toolResult callId content (if failed then some true else none)]⟩

/-- The text parts, one to a line. -/
def text (m : Message) : String :=
  Text.unlines (m.content.filterMap fun
    | .text t => some t
    | _ => none)

def toJson (m : Message) : Json :=
  Json.object [("role", m.role.toJson), ("content", .arr (m.content.map Block.toJson))]

def ofJson? (j : Json) : Option Message := do
  let fs ← j.fields? ["role", "content"]
  let role ← fs.req "role" Role.ofJson?
  let content ← fs.req "content" (Json.toList? Block.ofJson?)
  return ⟨role, content⟩

end Message

end CodeAgent
