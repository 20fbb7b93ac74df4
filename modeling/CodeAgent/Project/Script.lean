import CodeAgent.Project.World
import CodeAgent.Text.Digits

/-! Surroundings that follow a script.
What the user answers and the model replies is given beforehand, other programs are stand-ins, time
goes on by one at each look at the clock; and all that is asked and told is kept. -/
namespace CodeAgent

/-- A program that stands in for a real one. -/
structure Stub where
  output : ByteArray
  errors : ByteArray
  exit : Option Int
  /-- How long it runs. -/
  timeMs : Nat

/-- What comes from outside, and whether a cancellation comes just before it. -/
structure Cue (α : Type) where
  value : α
  cancels : Bool

structure Script where
  clock : Int
  /-- How many ids were given out. -/
  ids : Nat
  programs : Table Stub
  cancelled : Bool
  answers : List (Cue Bool)
  replies : List (Cue ChatEnd)
  /-- What the user was asked. -/
  shown : List String
  /-- What the model was sent, and with how many tools. -/
  chats : List (List Message × Nat)
  aborted : Bool
  events : List TurnEvent
  /-- The programs that ran to their end, with their arguments. -/
  calls : List (List String)
  progress : List IndexProgress

namespace Script

/-- Nothing is given and nothing was heard. -/
def blank (clock : Int) : Script :=
  ⟨clock, 0, .empty, false, [], [], [], [], false, [], [], []⟩

/-- The script for what comes next; the clock, the ids and the programs go on. -/
def next (s : Script) (cancelled : Bool) (answers : List (Cue Bool)) (replies : List (Cue ChatEnd)) :
    Script :=
  { s with
    cancelled := cancelled, answers := answers, replies := replies
    shown := [], chats := [], aborted := false, events := [], calls := [], progress := [] }

/-- The front of all ids that are given out. -/
def idFront : String := "00000000-0000-4000-8000-"

/-- Takes the first cue, or what stands in when there is none. -/
def take (cues : List (Cue α)) (otherwise : α) : Cue α × List (Cue α) :=
  match cues with
  | [] => (⟨otherwise, false⟩, [])
  | cue :: rest => (cue, rest)

/-- A user who has nothing more to say denies. -/
def confirm (summary : String) : StateM Script Bool := fun s =>
  let (cue, rest) := take s.answers false
  (cue.value, { s with
    answers := rest, cancelled := s.cancelled || cue.cancels, shown := s.shown ++ [summary] })

def lastReply : Reply :=
  { content := "done", calls := [], tokens := 1, timeMs := 1, stop := .endTurn }

/-- A model that has nothing more to say is done. -/
def chat (messages : List Message) (tools : List ToolDefinition) : StateM Script ChatEnd := fun s =>
  let (cue, rest) := take s.replies (.reply lastReply)
  (cue.value, { s with
    replies := rest, cancelled := s.cancelled || cue.cancels
    chats := s.chats ++ [(messages, tools.length)] })

/-- The most bytes of one argument, with the zero behind it. -/
def maxArgument : Nat := 131072

/-- Why a program cannot be started with some arguments. -/
def refusal? (vector : List String) (program : Option Stub) : Option String :=
  if vector.any fun a => a.toList.contains '\x00' then some "nul byte found in provided data"
  else if program.isNone then some FileError.missing.message
  else if vector.any fun a => a.utf8ByteSize ≥ maxArgument then
    some "Argument list too long (os error 7)"
  else none

def process (c : ProcessCall) : StateM Script ProcessEnd := fun s =>
  let vector := c.program :: c.arguments
  let program := s.programs.get? c.program
  match refusal? vector program, program with
  | some why, _ => (.notStarted why, s)
  | none, none => (.notStarted FileError.missing.message, s)
  | none, some stub =>
    if s.cancelled then (.cancelled, s)
    else if stub.timeMs ≥ c.timeoutMs then (.timedOut, s)
    else (.finished stub.exit stub.output stub.errors, { s with calls := s.calls ++ [vector] })

def outside : Outside Script where
  chat := chat
  abort := fun s => ((), { s with aborted := true })
  confirm := confirm
  cancelled := fun s => (s.cancelled, s)
  process := process
  now := fun s => (s.clock, { s with clock := s.clock + 1 })
  newId := fun s => (idFront ++ Text.zeroPadded 12 s.ids, { s with ids := s.ids + 1 })
  tell e := fun s => ((), { s with events := s.events ++ [e] })
  progress p := fun s => ((), { s with progress := s.progress ++ [p] })

end Script

end CodeAgent
