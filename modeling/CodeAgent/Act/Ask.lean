import CodeAgent.Chat.Reply
import CodeAgent.Chat.Schema
import CodeAgent.Index.Stats
import CodeAgent.Recovery
import CodeAgent.Store.Call
import CodeAgent.Turn.Event

/-! What a program may ask of its surroundings, and what it may hear. -/
namespace CodeAgent

inductive FileKind where
  | file | directory | other
deriving DecidableEq, Repr, Inhabited

structure FileStatus where
  kind : FileKind
  size : Nat
  modified : Int
deriving DecidableEq, Repr, Inhabited

/-- What the file system can be asked; paths are absolute. -/
inductive FileCall where
  | read (path : String)
  | write (path content : String)
  /-- Makes a directory and those above it that are missing. -/
  | makeDirs (path : String)
  | remove (path : String)
  | status (path : String)
  /-- The names in a directory, in ascending order, with their kinds. -/
  | list (path : String)
  /-- The one path of an existing file or directory. -/
  | canonical (path : String)
deriving DecidableEq

namespace FileCall

abbrev Result : FileCall → Type
  | read _ => ByteArray
  | write .. | makeDirs _ | remove _ => Unit
  | status _ => FileStatus
  | list _ => List (String × FileKind)
  | canonical _ => String

end FileCall

/-- A program to run in a directory. -/
structure ProcessCall where
  program : String
  arguments : List String
  directory : String
  timeoutMs : Nat
deriving DecidableEq, Repr

inductive ProcessEnd where
  | notStarted (why : String)
  /-- It ended, but nobody can tell how. -/
  | lost (why : String)
  /-- A program that a signal ended has no exit code. Its output and its errors are all that could be read
  of them. -/
  | finished (exit : Option Int) (output errors : ByteArray)
  | timedOut
  | cancelled

inductive ChatEnd where
  | reply (r : Reply)
  | failed (e : ModelError)
  /-- The turn was cancelled before an answer came. -/
  | cancelled

/-- The one machine that says where a turn is. -/
inductive TurnCall where
  | state
  | move (next : TurnState)
  /-- Back to ready from wherever the turn stopped; answers whether that was a move. -/
  | settle
deriving DecidableEq, Repr

namespace TurnCall

abbrev Result : TurnCall → Type
  | state => TurnState
  | move _ => Outcome Unit
  | settle => Bool

end TurnCall

inductive Ask where
  | index (call : IndexCall)
  | sessions (call : SessionCall)
  | file (call : FileCall)
  | turn (call : TurnCall)
  /-- What to do about a fault, with its retries counted under a key. -/
  | decide (fault : Fault) (key : String)
  /-- Forgets the retries counted under a key. -/
  | forgive (key : String)
  | chat (messages : List Message) (tools : List ToolDefinition)
  /-- Tells the model that its answer is no longer wanted. -/
  | abort
  | confirm (summary : String)
  | cancelled
  | process (call : ProcessCall)
  | now
  | newId
  | tell (event : TurnEvent)
  | progress (step : IndexProgress)

namespace Ask

abbrev Answer : Ask → Type
  | index c => Outcome c.Result
  | sessions c => Outcome c.Result
  | file c => Except FileError c.Result
  | turn c => c.Result
  | decide .. => Decision
  | chat .. => ChatEnd
  | confirm _ | cancelled => Bool
  | process _ => ProcessEnd
  | now => Int
  | newId => String
  | forgive _ | abort | tell _ | progress _ => Unit

end Ask

end CodeAgent
