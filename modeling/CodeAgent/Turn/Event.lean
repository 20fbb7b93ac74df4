import CodeAgent.Json.Basic
import CodeAgent.Turn.State

/-! What a turn reports while it runs. -/
namespace CodeAgent

inductive TurnEvent where
  | moved (state : TurnState)
  | started (tool : String) (arguments : Json)
  | finished (tool : String) (success : Bool)
  | response (text : String)
deriving DecidableEq, Repr

namespace TurnEvent

def toJson : TurnEvent → Json
  | moved state => Json.object [("state", .str state.name)]
  | started tool arguments => Json.object [("started", .str tool), ("arguments", arguments)]
  | finished tool success => Json.object [("finished", .str tool), ("success", .bool success)]
  | response text => Json.object [("response", .str text)]

end TurnEvent

end CodeAgent
