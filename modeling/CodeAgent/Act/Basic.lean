import CodeAgent.Act.Ask

/-! Programs that ask.
A program is a value that is done, or a question with what follows each answer. It does nothing by
itself: whoever runs it answers the questions, so one program has a pure meaning over a model of its
surroundings and a real one. -/
namespace CodeAgent

inductive Act (α : Type) where
  | done (value : α)
  | ask (question : Ask) (next : question.Answer → Act α)

namespace Act

def bind : Act α → (α → Act β) → Act β
  | done a, f => f a
  | ask q next, f => ask q fun a => bind (next a) f

instance : Monad Act where
  pure := done
  bind := bind

theorem bind_done (p : Act α) : p.bind done = p := by
  induction p with
  | done a => rfl
  | ask q next ih => simp only [bind, ih]

theorem bind_assoc (p : Act α) (f : α → Act β) (g : β → Act γ) :
    (p.bind f).bind g = p.bind fun a => (f a).bind g := by
  induction p with
  | done a => rfl
  | ask q next ih => simp only [bind, ih]

instance : LawfulMonad Act :=
  LawfulMonad.mk' Act bind_done (fun _ _ => rfl) bind_assoc

/-- Runs a program, answering each of its questions. -/
def run {m : Type → Type} [Monad m] (answer : (q : Ask) → m q.Answer) : Act α → m α
  | done a => pure a
  | ask q next => do run answer (next (← answer q))

def query (q : Ask) : Act q.Answer := ask q done

def index (c : IndexCall) : Act (Outcome c.Result) := query (.index c)
def sessions (c : SessionCall) : Act (Outcome c.Result) := query (.sessions c)
def file (c : FileCall) : Act (Except FileError c.Result) := query (.file c)
def turn (c : TurnCall) : Act c.Result := query (.turn c)
def decide (fault : Fault) (key : String) : Act Decision := query (.decide fault key)
def forgive (key : String) : Act Unit := query (.forgive key)
def chat (messages : List Message) (tools : List ToolDefinition) : Act ChatEnd :=
  query (.chat messages tools)
def abort : Act Unit := query .abort
def confirm (summary : String) : Act Bool := query (.confirm summary)
def cancelled : Act Bool := query .cancelled
def process (c : ProcessCall) : Act ProcessEnd := query (.process c)
def now : Act Int := query .now
def newId : Act String := query .newId
def tell (event : TurnEvent) : Act Unit := query (.tell event)
def progress (step : IndexProgress) : Act Unit := query (.progress step)

end Act

/-- A program that may fail. -/
abbrev Attempt (α : Type) := ExceptT Fault Act α

namespace Attempt

/-- Goes on with the value of an answer, or ends with its fault. -/
def of (p : Act (Outcome α)) : Attempt α := ExceptT.mk p

def index (c : IndexCall) : Attempt c.Result := of (Act.index c)
def sessions (c : SessionCall) : Attempt c.Result := of (Act.sessions c)

end Attempt

end CodeAgent
