import CodeAgent.Console.Line
import CodeAgent.Console.Report
import CodeAgent.Workspace

/-! What a line does to an open project and its session, and what is shown for it. -/
namespace CodeAgent.Console

/-- What is shown, or the end of the conversation. -/
inductive Flow where
  | text (shown : String)
  | exit
deriving DecidableEq, Repr

/-- A share in whole percent. -/
def percent (share : Double) : String := toString share.timesHundred.nearestWhole ++ "%"

def indexedText : Option Int → String
  | some time => Calendar.minuteText time
  | none => "never"

/-- Without a model there is no turn. -/
def turnText : Option TurnState → String
  | some state => state.name
  | none => "no model"

def statusText (w : Workspace) (s : Session) (indexed : Option Int) (turn : Option TurnState) :
    String :=
  Text.unlines [
    "Project: " ++ w.name ++ " (" ++ w.root ++ ")",
    "Session: " ++ s.id ++ " (" ++ toString s.history.length ++ " messages)",
    "Last indexed: " ++ indexedText indexed,
    "Turn: " ++ turnText turn,
    "Context: " ++ percent s.context.tokenUsage ++ " used"
      ++ (if s.context.needsCompression then " (compression needed)" else ""),
    "Undo: " ++ toString s.undoDepth ++ "/" ++ toString s.maxUndo,
    "Stats: " ++ toString s.stats.totalTokens ++ " tokens, " ++ toString s.stats.toolCalls
      ++ " tool calls, " ++ toString s.stats.editsApplied ++ " edits applied, "
      ++ toString s.stats.editsRejected ++ " rejected"]

def noModel : String := "No model backend is configured in this build.\n" ++ help

def unknownText (name : String) : String := "Unknown command /" ++ name ++ ". " ++ help

/-- What a user sees of a turn that ended. -/
def reportText (r : TurnReport) : String :=
  match r.status with
  | .completed | .roundLimit => r.response
  | .rejected => "Change rejected; turn stopped."
  | .interrupted => "Interrupted."

section

variable (w : Workspace)

def status (s : Session) (hasModel : Bool) : Attempt String := do
  let indexed ← w.lastIndexed
  let turn ← if hasModel then some <$> Act.turn .state else pure none
  return statusText w s indexed turn

def undo (s : Session) : Act (Outcome String × Session) := do
  let (report, s) ← w.undo s
  return (report.map (·.text), s)

/-- Without a model an input is kept all the same. -/
def message (s : Session) (hasModel : Bool) (input : String) : Act (Outcome String × Session) := do
  if hasModel then
    let (report, s) ← w.turn s input
    return (report.map reportText, s)
  else
    let (saved, s) ← (s.addInput input).persist
    return (saved.map fun () => noModel, s)

def sessions : Attempt String := do
  return SessionSummary.listing (← Session.list (some w.name))

def index : Attempt String := do return (← w.index []).text

/-- A text for a session that stays as it is. -/
def unchanged (s : Session) (p : Attempt String) : Act (Outcome String × Session) := do
  return (← p.run, s)

def handle (s : Session) (hasModel : Bool) (line : Line) : Act (Outcome Flow × Session) := do
  let shown : Act (Outcome String × Session) := match line with
    | .exit | .help => pure (.ok help, s)
    | .unknown name => pure (.ok (unknownText name), s)
    | .undo => undo w s
    | .status => unchanged s (status w s hasModel)
    | .sessions => unchanged s (sessions w)
    | .index => unchanged s (index w)
    | .message text => message w s hasModel text
  if line = .exit then return (.ok .exit, s)
  let (text, s) ← shown
  return (text.map .text, s)

/-- Reverses the newest change of the latest session. -/
def undoLatest : Attempt String := do
  let s ← w.resume
  let (text, _) ← undo w s
  ExceptT.mk (pure text)

end

end CodeAgent.Console
