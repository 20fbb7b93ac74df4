import CodeAgent.Session.Lifecycle
import CodeAgent.Tool.Registry
import CodeAgent.Turn.Gate
import CodeAgent.Turn.Prompt

/-! One turn: from an input of the user to the model's answer.
The model is asked, the tools that it calls are run one after the other, and their results are put to
it, until it answers without a call. A turn that fails or is interrupted leaves no messages behind,
while the changes that its tools made stay and can be reversed. -/
namespace CodeAgent

inductive TurnStatus where
  | completed
  /-- A user denied approval; the calls behind it were not run. -/
  | rejected
  | interrupted
  /-- No answer within the rounds that were allowed. -/
  | roundLimit
deriving DecidableEq, Repr, Inhabited

namespace TurnStatus

def name : TurnStatus → String
  | completed => "completed"
  | rejected => "rejected"
  | interrupted => "interrupted"
  | roundLimit => "round_limit"

end TurnStatus

structure TurnReport where
  status : TurnStatus
  response : String
  toolCalls : Nat
  tokens : Nat
deriving DecidableEq, Repr, Inhabited

namespace TurnReport

def toJson (r : TurnReport) : Json :=
  Json.object [("status", .str r.status.name), ("response", .str r.response),
    ("tool_calls", .nat r.toolCalls), ("tokens", .nat r.tokens)]

end TurnReport

/-- What a turn has brought so far. -/
structure TurnTally where
  response : String
  toolCalls : Nat
  tokens : Nat
deriving DecidableEq, Repr, Inhabited

namespace TurnTally

def zero : TurnTally := ⟨"", 0, 0⟩

def report (t : TurnTally) (status : TurnStatus) : TurnReport :=
  ⟨status, t.response, t.toolCalls, t.tokens⟩

end TurnTally

/-- Who runs turns: the tools at hand and the limits. -/
structure Agent where
  registry : Registry Act
  maxRounds : Nat
  contextWindow : Nat
  maxRetries : Nat

namespace Turn

/-- A step of a turn on its session; what it did to the session stays when it fails. -/
abbrev Step (α : Type) := ExceptT Fault (StateT Session Act) α

namespace Step

def ofOutcome (o : Outcome α) : Step α := ExceptT.mk (pure o)

end Step

def enter (next : TurnState) : Step Unit := do Step.ofOutcome (← moveTo next)

def addMessage (m : Message) : Step Unit := do
  let now ← Act.now
  modify fun s : Session => s.addMessage m now

def retryKey (sessionId : String) : String := "llm:" ++ sessionId

/-- One request to the model; nothing when the turn is cancelled meanwhile. -/
def request (messages : List Message) (tools : List ToolDefinition) :
    OptionT Act (Except Failure Reply) := OptionT.mk do
  match ← Act.chat messages tools with
  | .reply r => return some (.ok r)
  | .failed e => return some (.error (.of (.model e)))
  | .cancelled =>
    Act.abort
    return none

/-- Asks the model, again when that is decided after a failure. -/
def queryModel (a : Agent) (key : String) (messages : List Message) :
    Act (Option (Outcome Reply)) :=
  (withRetry (request messages a.registry.definitions)
    (fun fault => OptionT.lift (Act.decide fault key)) (OptionT.lift (Act.forgive key)) .llm
    a.maxRetries).run

namespace Effect

/-- A change is kept so that it can be reversed. -/
def ofChange (c : Change) (s : Session) : Session :=
  let s := (s.referenceFile c.path).pushUndo c
  { s with stats := { s.stats with editsApplied := s.stats.editsApplied + 1 } }

/-- A file that was looked at comes into view, as the result names it or else as the call does. -/
def ofLook (arguments data : Json) (s : Session) : Session :=
  match (arguments.member? "path").bind Json.str? with
  | none => s
  | some given => s.referenceFile (((data.member? "path").bind Json.str?).getD given)

/-- What a call that succeeded means for the session. -/
def ofOutput (arguments : Json) (o : ToolOutput) (s : Session) : Session :=
  match o.change with
  | some c => ofChange c s
  | none => ofLook arguments o.data s

def ofReply (r : Reply) (window : Nat) (s : Session) : Session :=
  { s with
    stats := { s.stats with
      totalTokens := s.stats.totalTokens + r.tokens
      totalTimeMs := s.stats.totalTimeMs + r.timeMs } }.updateTokenUsage r.tokens window

def ofCall (s : Session) : Session :=
  { s with stats := { s.stats with toolCalls := s.stats.toolCalls + 1 } }

def ofRejectedEdit (s : Session) : Session :=
  { s with stats := { s.stats with editsRejected := s.stats.editsRejected + 1 } }

end Effect

section

variable (a : Agent)

def isEdit (tool : String) : Bool :=
  match a.registry.get? tool with
  | some t => t.category = .edit
  | none => false

/-- Runs one call to its end, and puts its result to the session. Answers whether approval was denied
to it. -/
def runCall (call : ToolCall) : Step Bool := do
  let (outcome, denied) ← gated (a.registry.execute Act.confirm call.name call.arguments)
  let result : ToolResult := ⟨call.id, call.name, outcome, 0⟩
  modify Effect.ofCall
  Act.tell (.finished call.name result.success)
  match outcome with
  | .ok output => modify (Effect.ofOutput call.arguments output)
  | .error _ => pure ()
  addMessage (.result call.id result.content !result.success)
  if denied && isEdit a call.name then modify Effect.ofRejectedEdit
  return denied

/-- Runs calls one after the other; a status says that the turn ends here. -/
def runCalls (tally : TurnTally) : List ToolCall → Step (TurnTally × Option TurnStatus)
  | [] => return (tally, none)
  | call :: rest => do
    Act.tell (.started call.name call.arguments)
    if ← Act.cancelled then return (tally, some .interrupted)
    let denied ← runCall a call
    let tally := { tally with toolCalls := tally.toolCalls + 1 }
    if denied then return (tally, some .rejected)
    if ← Act.cancelled then return (tally, some .interrupted)
    runCalls tally rest

def limitNote (rounds : Nat) : String :=
  "Stopped after " ++ toString rounds ++ " tool rounds without a final answer."

/-- The answer without a call that ends a turn. -/
def answer (tally : TurnTally) (content : String) : Step TurnReport := do
  addMessage (.assistant content)
  Act.tell (.response content)
  enter .ready
  return { tally with response := content }.report .completed

/-- The text beside calls is a response for now. -/
def besides (tally : TurnTally) (r : Reply) : Step TurnTally := do
  addMessage (.calling r.content r.calls)
  if r.content.isEmpty then return tally
  Act.tell (.response r.content)
  return { tally with response := r.content }

/-- One request and its calls; `further` goes on when the turn does not end with them. -/
def round (system : Message) (key : String) (tally : TurnTally)
    (further : TurnTally → Step TurnReport) : Step TurnReport := do
  if ← Act.cancelled then return tally.report .interrupted
  match ← queryModel a key (system :: (← get).messages) with
  | none => return tally.report .interrupted
  | some outcome =>
    let r ← Step.ofOutcome outcome
    modify (Effect.ofReply r a.contextWindow)
    let tally := { tally with tokens := tally.tokens + r.tokens }
    if !r.hasCalls then answer tally r.content
    else
      let tally ← besides tally r
      enter .toolCall
      match ← runCalls a tally r.calls with
      | (tally, some status) => return tally.report status
      | (tally, none) =>
        enter .thinking
        further tally

/-- The end of a turn without an answer in the rounds that it had. -/
def exhausted (done : Nat) (tally : TurnTally) : Step TurnReport := do
  let note := limitNote done
  addMessage (.assistant note)
  enter .ready
  return { tally with response := note }.report .roundLimit

/-- Rounds one after the other; after the last one that is allowed the turn stops. -/
def rounds (system : Message) (key : String) (tally : TurnTally) (done : Nat) :
    (left : Nat) → Step TurnReport
  | 0 => round a system key tally (exhausted (done + 1))
  | left + 1 => round a system key tally fun tally => rounds system key tally (done + 1) left

def drive (key : String) : Step TurnReport := do
  let system := Message.system (← Prompt.system a.registry.definitions)
  enter .thinking
  rounds a system key .zero 0 (a.maxRounds - 1)

def busy : Fault := .validation "A turn is already in progress"

def rollBack (mark : Nat) (s : Session) : Session := { s with history := s.history.take mark }

/-- A turn that failed or was interrupted leaves no messages behind. -/
def keepsMessages : Outcome TurnReport → Bool
  | .ok report => report.status != .interrupted
  | .error _ => false

/-- Ends a turn: what it leaves behind is saved, and a failure to save is the fault that counts. -/
def close (mark : Nat) (outcome : Outcome TurnReport) (s : Session) :
    Act (Outcome TurnReport × Session) := do
  let s := if keepsMessages outcome then s else rollBack mark s
  settle
  let (saved, s) ← s.persist
  match saved with
  | .ok () => return (outcome, s)
  | .error f => return (.error f, s)

/-- Runs one turn for an input. The session is saved whatever the outcome. -/
def run (session : Session) (input : String) : Act (Outcome TurnReport × Session) := do
  if (← Act.turn .state) ≠ .ready then return (.error busy, session)
  let key := retryKey session.id
  Act.forgive key
  let mark := session.history.length
  let session := (session.addInput input).addMessage (.user input) (← Act.now)
  let (outcome, session) ← (drive a key).run.run session
  match outcome with
  | .ok _ => pure ()
  | .error _ =>
    match ← moveTo .error with
    | .ok () => pure ()
    | .error _ => settle
  close mark outcome session

end

end Turn

end CodeAgent
