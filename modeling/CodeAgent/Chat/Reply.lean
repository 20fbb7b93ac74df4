import CodeAgent.Chat.Message
import CodeAgent.Fault
import CodeAgent.Text.Casing

/-! What a model answers, or why it does not. -/
namespace CodeAgent

/-- Why a model stopped writing. -/
inductive StopReason where
  | endTurn | maxTokens | stopSequence | toolUse
  | other (name : String)
deriving DecidableEq, Repr, Inhabited

namespace StopReason

/-- The names that model servers use, in any case. -/
def ofName (s : String) : StopReason :=
  match Text.lower s with
  | "end_turn" | "stop" => endTurn
  | "max_tokens" | "length" => maxTokens
  | "stop_sequence" => stopSequence
  | "tool_use" | "tool_calls" | "function_call" => toolUse
  | unknown => other unknown

def toJson : StopReason → Json
  | endTurn => .str "end_turn"
  | maxTokens => .str "max_tokens"
  | stopSequence => .str "stop_sequence"
  | toolUse => .str "tool_use"
  | other s => .obj [("other", .str s)]

def ofPlain? : String → Option StopReason
  | "end_turn" => some endTurn
  | "max_tokens" => some maxTokens
  | "stop_sequence" => some stopSequence
  | "tool_use" => some toolUse
  | _ => none

def ofJson? : Json → Option StopReason
  | .str s => ofPlain? s
  | .obj [("other", .str s)] => some (other s)
  | .obj [(s, .null)] => ofPlain? s
  | _ => none

end StopReason

/-- A model's whole answer to one request. -/
structure Reply where
  content : String
  calls : List ToolCall
  tokens : Nat
  timeMs : Nat
  stop : StopReason
deriving DecidableEq, Repr, Inhabited

namespace Reply

def hasCalls (r : Reply) : Bool := !r.calls.isEmpty

/-- No calls are left to run. -/
def isFinal (r : Reply) : Bool := r.calls.isEmpty && r.stop ≠ .toolUse

def toJson (r : Reply) : Json :=
  Json.object [("content", .str r.content), ("tool_calls", .arr (r.calls.map ToolCall.toJson)),
    ("tokens", .nat r.tokens), ("time_ms", .nat r.timeMs), ("stop_reason", r.stop.toJson)]

def ofJson? (j : Json) : Option Reply := do
  let fs ← j.fields? ["content", "tool_calls", "tokens", "time_ms", "stop_reason"]
  let content ← fs.req "content" Json.toStr?
  let calls ← fs.orElse "tool_calls" (Json.toList? ToolCall.ofJson?) []
  let tokens ← fs.req "tokens" Json.toNat32?
  let timeMs ← fs.req "time_ms" Json.toNat64?
  let stop ← fs.req "stop_reason" StopReason.ofJson?
  return ⟨content, calls, tokens, timeMs, stop⟩

end Reply

/-- Why a model did not answer. -/
inductive ModelError where
  | rateLimited (message : String) (retryAfter : Option Nat)
  | modelNotFound (model : String)
  | invalidRequest (message : String)
  | serverError (message : String) (status : Option Nat)
  | networkError (message : String)
  | timeout (message : String)
  | parseError (message : String)
  | unavailable (message : String)
  | contextTooLong (message : String) (maxTokens : Option Nat)
  | aborted
  | other (message : String)
deriving DecidableEq, Repr, Inhabited

namespace ModelError

def text : ModelError → String
  | rateLimited m _ => "Rate limited: " ++ m
  | modelNotFound m => "Model not found: " ++ m
  | invalidRequest m => "Invalid request: " ++ m
  | serverError m (some status) => "Server error (" ++ toString status ++ "): " ++ m
  | serverError m none => "Server error: " ++ m
  | networkError m => "Network error: " ++ m
  | timeout m => "Request timed out: " ++ m
  | parseError m => "Parse error: " ++ m
  | unavailable m => "Provider unavailable: " ++ m
  | contextTooLong m _ => "Context length exceeded: " ++ m
  | aborted => "Request aborted"
  | other m => "Error: " ++ m

def toFault (e : ModelError) : Fault :=
  match e with
  | timeout _ => .timeout e.text
  | invalidRequest _ => .validation e.text
  | unavailable _ =>
    (Fault.llm e.text).withHint "Check that the model server is running and reachable"
  | contextTooLong _ _ =>
    (Fault.llm e.text).withHint "Start a new session or clear the conversation history"
  | _ => .llm e.text

def optional (n : Option Nat) : Json := Json.ofOption .nat n

def toJson : ModelError → Json
  | rateLimited m n => form "rate_limited" [("message", .str m), ("retry_after", optional n)]
  | modelNotFound m => form "model_not_found" [("model", .str m)]
  | invalidRequest m => form "invalid_request" [("message", .str m)]
  | serverError m n => form "server_error" [("message", .str m), ("status", optional n)]
  | networkError m => form "network_error" [("message", .str m)]
  | timeout m => form "timeout" [("message", .str m)]
  | parseError m => form "parse_error" [("message", .str m)]
  | unavailable m => form "provider_unavailable" [("message", .str m)]
  | contextTooLong m n =>
    form "context_length_exceeded" [("message", .str m), ("max_tokens", optional n)]
  | aborted => form "aborted" []
  | other m => form "other" [("message", .str m)]
where
  form (tag : String) (members : List (String × Json)) : Json :=
    Json.object (("type", .str tag) :: members)

/-- A form with a message and nothing else. -/
def messageOnly? (make : String → ModelError) (j : Json) : Option ModelError := do
  let fs ← Block.body? ["message"] j
  return make (← fs.req "message" Json.toStr?)

def ofJson? (j : Json) : Option ModelError := do
  match ← Block.tag? j with
  | "rate_limited" =>
    let fs ← Block.body? ["message", "retry_after"] j
    return rateLimited (← fs.req "message" Json.toStr?) (← fs.opt "retry_after" Json.toNat32?)
  | "model_not_found" =>
    let fs ← Block.body? ["model"] j
    return modelNotFound (← fs.req "model" Json.toStr?)
  | "invalid_request" => messageOnly? invalidRequest j
  | "server_error" =>
    let fs ← Block.body? ["message", "status"] j
    return serverError (← fs.req "message" Json.toStr?) (← fs.opt "status" Json.toNat16?)
  | "network_error" => messageOnly? networkError j
  | "timeout" => messageOnly? timeout j
  | "parse_error" => messageOnly? parseError j
  | "provider_unavailable" => messageOnly? unavailable j
  | "context_length_exceeded" =>
    let fs ← Block.body? ["message", "max_tokens"] j
    return contextTooLong (← fs.req "message" Json.toStr?) (← fs.opt "max_tokens" Json.toNat32?)
  | "aborted" => return aborted
  | "other" => messageOnly? other j
  | _ => none

end ModelError

/-- About four characters to a token. -/
def estimateTokens (text : String) : Nat := (text.length + 3) / 4

end CodeAgent
