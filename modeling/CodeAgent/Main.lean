import CodeAgent.Console.Command
import CodeAgent.Console.Invocation
import CodeAgent.Project.World
import CodeAgent.Store.Dump
import Std.Time.DateTime.Timestamp

/-! The program: answers what its commands ask, from the files and the console at hand.
No model is connected, and other programs are not started. The database lives in memory and is written
to its file when a command ends. -/
namespace CodeAgent.Program

/-- What is held while a command runs; files and the console are outside of it. -/
abbrev Live := StateT (World Unit) IO

def held (r : StateM (World Unit) α) : Live α := fun w => return r w

/-! Files -/

def fileErrorKind : IO.Error → FileErrorKind
  | .noFileOrDirectory .. => .notFound
  | .permissionDenied .. => .permissionDenied
  | .interrupted .. => .interrupted
  | .timeExpired .. => .timedOut
  | _ => .other

def attempt (p : IO α) : IO (Except FileError α) := do
  try return .ok (← p)
  catch e => return .error ⟨fileErrorKind e, toString e⟩

def kindOf : IO.FS.FileType → FileKind
  | .file => .file
  | .dir => .directory
  | _ => .other

def status (path : String) : IO FileStatus := do
  let found ← (← IO.FS.realPath path).metadata
  return ⟨kindOf found.type, found.byteSize.toNat,
    found.modified.sec * 1000 + (found.modified.nsec.toNat / 1000000 : Nat)⟩

def list (path : String) : IO (List (String × FileKind)) := do
  let entries ← (← IO.FS.realPath path).readDir
  let found ← entries.toList.mapM fun e => do
    return (e.fileName, kindOf (← e.path.metadata).type)
  return found.mergeSort fun a b => a.1 ≤ b.1

def onDisk : (c : FileCall) → IO c.Result
  | .read path => IO.FS.readBinFile path
  | .write path content => IO.FS.writeFile path content
  | .makeDirs path => IO.FS.createDirAll path
  | .remove path => IO.FS.removeFile path
  | .status path => status path
  | .list path => list path
  | .canonical path => do
    let place ← IO.FS.realPath path
    discard place.metadata
    return place.toString

/-! The console -/

def approves (answer : String) : Bool :=
  match Text.trim answer with
  | "y" | "Y" | "yes" => true
  | _ => false

def confirm (summary : String) : IO Bool := do
  IO.println ("\n" ++ summary ++ "\nApply? [y/N] ")
  return approves (← (← IO.getStdin).getLine)

def tell : TurnEvent → IO Unit
  | .started tool _ => IO.eprintln ("  > " ++ tool)
  | _ => pure ()

/-- One line that is written over again. -/
def progress (p : IndexProgress) : IO Unit :=
  if p.phase = .parse || p.current = p.total then
    IO.eprint ("\r" ++ p.phase.name ++ " " ++ toString p.current ++ "/" ++ toString p.total ++ "  ")
  else pure ()

/-! Answers -/

def now : IO Int := do return (← Std.Time.Timestamp.now).toMillisecondsSinceUnixEpoch.val

/-- A random identifier of version four. -/
def newId : IO String := do
  let bytes := (← IO.getRandomBytes 16).toList
  let marked := bytes.mapIdx fun i b =>
    if i = 6 then 0x40 ||| (b &&& 0x0f) else if i = 8 then 0x80 ||| (b &&& 0x3f) else b
  let digits := (Text.hexDigits ⟨marked.toArray⟩).toList
  let part (start count : Nat) : String := String.ofList ((digits.drop start).take count)
  return part 0 8 ++ "-" ++ part 8 4 ++ "-" ++ part 12 4 ++ "-" ++ part 16 4 ++ "-" ++ part 20 12

def answer : (q : Ask) → Live q.Answer
  | .index c => held (World.index? c)
  | .sessions c => held (World.sessions? c)
  | .turn c => held (World.turn? c)
  | .decide f key => held fun w =>
    let (d, r) := w.recovery.handle f (some key)
    (d, { w with recovery := r })
  | .forgive key => held fun w => ((), { w with recovery := w.recovery.reset (some key) })
  | .file c => attempt (onDisk c)
  | .chat .. => return .failed (.unavailable "no model is connected")
  | .abort => pure ()
  | .confirm summary => confirm summary
  | .cancelled => return false
  | .process c => return .notStarted ("programs are not started here: " ++ c.program)
  | .now => now
  | .newId => newId
  | .tell e => tell e
  | .progress p => progress p

def perform (p : Act α) : Live α := p.run answer

/-- The value of a program, or its fault as the program's own. -/
def demand (p : Attempt α) : ExceptT Fault Live α := ExceptT.mk (perform p.run)

/-! The database's file -/

def homeFile (name : String) : IO String := do
  return Path.join ((← IO.getEnv "HOME").getD ".") (".ipuaro/" ++ name)

def readDatabase (path : String) : IO (Outcome Database) := do
  match ← attempt (IO.FS.readFile path) with
  | .error ⟨.notFound, _⟩ => return .ok .empty
  | .error e => return .error (BackendError.database e.message).toFault
  | .ok text =>
    match (Json.parse? text).bind Database.ofJson? with
    | some d => return .ok d
    | none => return .error (BackendError.database "the file holds no database").toFault

def writeDatabase (path : String) (d : Database) : IO Unit := do
  IO.FS.createDirAll (Path.parent path)
  IO.FS.writeFile path d.toJson.compact

/-! Commands -/

def showIndexed (w : Workspace) : ExceptT Fault Live Unit := do
  let stats ← demand (w.index [])
  IO.eprintln ""
  IO.println stats.text

partial def converse (w : Workspace) (s : Session) : Live Unit := do
  IO.print "> "
  (← IO.getStdout).flush
  let line ← (← IO.getStdin).getLine
  if line.isEmpty then return
  match Console.Line.parse? line with
  | none => converse w s
  | some line =>
    let (flow, s) ← perform (Console.handle w s false line)
    match flow with
    | .ok .exit => return
    | .ok (.text shown) =>
      IO.println shown
      converse w s
    | .error f =>
      IO.eprintln f.display
      converse w s

def start (w : Workspace) : ExceptT Fault Live Unit := do
  if (← demand w.lastIndexed).isNone then showIndexed w
  let session ← demand w.resume
  IO.println ("ipuaro session " ++ session.id ++ ". " ++ Console.help)
  converse w session

def execute (command : Console.Command) (path userSettings : String) :
    ExceptT Fault Live Unit := do
  if let .init force := command then
    IO.println ("Wrote " ++ (← demand (Workspace.init path force)))
    return
  let w ← demand (Workspace.load path userSettings)
  modify fun world : World Unit =>
    { world with project := w.name, recovery := .new (.ofSettings w.settings.recovery) }
  match command with
  | .init _ => return
  | .index => showIndexed w
  | .sessions => IO.println (← demand (Console.sessions w))
  | .undo => IO.println (← demand (Console.undoLatest w))
  | .start => start w

def run (i : Console.Invocation) : IO UInt32 := do
  let file := i.database.getD (← homeFile "ipuaro.db")
  match ← readDatabase file with
  | .error f =>
    IO.eprintln f.display
    return 1
  | .ok d =>
    let world : World Unit := ⟨.empty, d, "", .ready, .new {}, ()⟩
    let path := i.path.getD "."
    let (result, world) ← (execute i.command path (← homeFile "config.json")).run world
    writeDatabase file world.database
    match result with
    | .ok () => return 0
    | .error f =>
      IO.eprintln f.display
      return 1

end CodeAgent.Program

def main (arguments : List String) : IO UInt32 := do
  match CodeAgent.Console.Invocation.parse arguments with
  | .ok i => CodeAgent.Program.run i
  | .error e =>
    IO.eprintln ("error: " ++ e.message ++ "\n\n" ++ CodeAgent.Console.InvocationError.usage)
    return 2
