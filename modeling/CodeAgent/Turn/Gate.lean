import CodeAgent.Act.Basic

/-! Approval as part of a turn.
While a user is asked, the turn waits in a state of its own; a denial ends it. -/
namespace CodeAgent.Turn

/-- Moves the turn and tells of it; a move that is not allowed is a fault. -/
def moveTo (next : TurnState) : Act (Outcome Unit) := do
  match ← Act.turn (.move next) with
  | .ok () =>
    Act.tell (.moved next)
    return .ok ()
  | .error f => return .error f

/-- Back to ready from wherever the turn stopped. -/
def settle : Act Unit := do
  if ← Act.turn .settle then Act.tell (.moved .ready)

/-- Runs a program whose questions for approval move the turn, and says whether one was denied. Where
the turn cannot be moved the user is asked all the same. -/
def gated : Act α → Act (α × Bool)
  | .done a => return (a, false)
  | .ask (.confirm summary) next => do
    discard (moveTo .awaitingConfirmation)
    let approved ← Act.confirm summary
    discard (moveTo (if approved then .toolCall else .ready))
    let (a, denied) ← gated (next approved)
    return (a, denied || !approved)
  | .ask question next => .ask question fun answer => gated (next answer)

end CodeAgent.Turn
