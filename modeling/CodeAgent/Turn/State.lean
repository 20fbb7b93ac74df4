import CodeAgent.Fault

/-! The states of a turn and the moves between them. -/
namespace CodeAgent

inductive TurnState where
  | ready | thinking | toolCall | awaitingConfirmation | error
deriving DecidableEq, Repr, Inhabited

namespace TurnState

def all : List TurnState := [ready, thinking, toolCall, awaitingConfirmation, error]

def name : TurnState → String
  | ready => "ready"
  | thinking => "thinking"
  | toolCall => "tool_call"
  | awaitingConfirmation => "awaiting_confirmation"
  | error => "error"

def ofName? (s : String) : Option TurnState := all.find? (·.name = s)

/-- States that an interrupt ends. -/
def interruptible : TurnState → Bool
  | thinking | toolCall => true
  | _ => false

/-- Every state but an error may fail. -/
def mayMove : TurnState → TurnState → Bool
  | error, ready => true
  | error, _ => false
  | _, error => true
  | ready, thinking => true
  | thinking, toolCall => true
  | thinking, ready => true
  | toolCall, awaitingConfirmation => true
  | toolCall, thinking => true
  | awaitingConfirmation, toolCall => true
  | awaitingConfirmation, ready => true
  | _, _ => false

def illegal (a b : TurnState) : Fault :=
  .validation ("Illegal turn transition: " ++ a.name ++ " -> " ++ b.name)

def move (a b : TurnState) : Outcome TurnState :=
  if a.mayMove b then .ok b else .error (illegal a b)

/-- Back to ready, if there is something to interrupt. -/
def interrupt (a : TurnState) : Bool × TurnState :=
  if a.interruptible then (true, ready) else (false, a)

/-- Back to ready from wherever a turn stopped, and whether that was a move. -/
def settle : TurnState → Bool × TurnState
  | ready => (false, ready)
  | _ => (true, ready)

end TurnState

end CodeAgent
