import CodeAgent.Json.Basic
import CodeAgent.Text.Word

/-! Lines that a user types: commands after a slash, and messages for the model. -/
namespace CodeAgent.Console

inductive Line where
  | undo | status | sessions | index | help | exit
  | unknown (name : String)
  | message (text : String)
deriving DecidableEq, Repr, Inhabited

/-- The first word behind the slash; further words are ignored. -/
def command (name : String) : Line :=
  match name with
  | "undo" => .undo
  | "status" => .status
  | "sessions" => .sessions
  | "index" => .index
  | "help" | "?" => .help
  | "exit" | "quit" => .exit
  | other => .unknown other

/-- A command by its name, an unknown one and a message by their texts. -/
def Line.toJson : Line → Json
  | .undo => Json.object [("command", .str "undo")]
  | .status => Json.object [("command", .str "status")]
  | .sessions => Json.object [("command", .str "sessions")]
  | .index => Json.object [("command", .str "index")]
  | .help => Json.object [("command", .str "help")]
  | .exit => Json.object [("command", .str "exit")]
  | .unknown name => Json.object [("unknown", .str name)]
  | .message text => Json.object [("message", .str text)]

/-- A blank line says nothing. -/
def Line.parse? (line : String) : Option Line :=
  match Text.trimChars line.toList with
  | [] => none
  | '/' :: rest => some (command ((Text.words (String.ofList rest)).headD ""))
  | cs => some (.message (String.ofList cs))

def help : String := "Commands: /undo  /status  /sessions  /index  /help  /exit"

end CodeAgent.Console
