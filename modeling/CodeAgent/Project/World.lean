import CodeAgent.Act.Basic
import CodeAgent.Project.FileTree
import CodeAgent.Store.Database

/-! A model of a program's surroundings.
Files, the database, the turn machine and the retry counters are values here; the user, the model,
other programs and the clock are whatever the caller says. -/
namespace CodeAgent

/-- How all that is not part of the world answers, over a state of its own. -/
structure Outside (σ : Type) where
  chat : List Message → List ToolDefinition → StateM σ ChatEnd
  abort : StateM σ Unit
  confirm : String → StateM σ Bool
  cancelled : StateM σ Bool
  process : ProcessCall → StateM σ ProcessEnd
  now : StateM σ Int
  newId : StateM σ String
  tell : TurnEvent → StateM σ Unit
  progress : IndexProgress → StateM σ Unit

structure World (σ : Type) where
  files : FileTree
  database : Database
  /-- The name under which the project's index is stored. -/
  project : String
  machine : TurnState
  recovery : Recovery
  outside : σ

namespace World

variable {σ : Type}

/-- Lets the outside answer. -/
def outer (r : StateM σ α) : StateM (World σ) α := fun w =>
  let (a, s) := r w.outside
  (a, { w with outside := s })

def files? (o : Outside σ) (c : FileCall) : StateM (World σ) (Except FileError c.Result) := do
  let now ← outer o.now
  fun w =>
    let (a, files) := w.files.answer now c
    (a, { w with files := files })

def index? (c : IndexCall) : StateM (World σ) (Outcome c.Result) := fun w =>
  let (a, d) := w.database.answer w.project c
  (a, { w with database := d })

def sessions? (c : SessionCall) : StateM (World σ) (Outcome c.Result) := fun w =>
  let (a, d) := w.database.answerSession c
  (a, { w with database := d })

def turn? : (c : TurnCall) → StateM (World σ) c.Result
  | .state => fun w => (w.machine, w)
  | .move next => fun w =>
    match w.machine.move next with
    | .ok s => (.ok (), { w with machine := s })
    | .error f => (.error f, w)
  | .settle => fun w =>
    let (moved, s) := w.machine.settle
    (moved, { w with machine := s })

def answer (o : Outside σ) : (q : Ask) → StateM (World σ) q.Answer
  | .index c => index? c
  | .sessions c => sessions? c
  | .file c => files? o c
  | .turn c => turn? c
  | .decide f key => fun w =>
    let (d, r) := w.recovery.handle f (some key)
    (d, { w with recovery := r })
  | .forgive key => fun w => ((), { w with recovery := w.recovery.reset (some key) })
  | .chat messages tools => outer (o.chat messages tools)
  | .abort => outer o.abort
  | .confirm summary => outer (o.confirm summary)
  | .cancelled => outer o.cancelled
  | .process c => outer (o.process c)
  | .now => outer o.now
  | .newId => outer o.newId
  | .tell e => outer (o.tell e)
  | .progress p => outer (o.progress p)

/-- Runs a program in the world. -/
def run (o : Outside σ) (p : Act α) (w : World σ) : α × World σ := p.run (answer o) w

end World

end CodeAgent
