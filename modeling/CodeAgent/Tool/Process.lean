import CodeAgent.Act.Basic
import CodeAgent.Text.Utf8

/-! Running other programs in the project, with limits on their time and on what is kept of their
output. -/
namespace CodeAgent

/-- The most bytes of text that a tool hands on. -/
def maxOutput : Nat := 30000

/-- The most bytes that are read of an output; what follows is dropped. -/
def maxPipe : Nat := maxOutput * 4

/-- What is kept of a program that ended by itself. -/
structure ProcessReport where
  exit : Option Int
  output : String
  errors : String
  truncated : Bool
deriving DecidableEq, Repr

namespace ProcessReport

def success (r : ProcessReport) : Bool := r.exit = some 0

/-- The text that is kept of an output, and whether there was more. -/
def keep (bytes : ByteArray) : String × Bool :=
  let (text, cut) := Text.capped maxOutput (Text.mend (bytes.extract 0 maxPipe))
  (text, cut || bytes.size > maxPipe)

def ofEnd (exit : Option Int) (output errors : ByteArray) : ProcessReport :=
  let (output, cutOutput) := keep output
  let (errors, cutErrors) := keep errors
  ⟨exit, output, errors, cutOutput || cutErrors⟩

def members (r : ProcessReport) : List (String × Json) :=
  [("exit_code", Json.ofOption .int r.exit), ("success", .bool r.success),
    ("stdout", .str r.output), ("stderr", .str r.errors), ("truncated", .bool r.truncated)]

end ProcessReport

namespace Tool

def runProgram (root program : String) (arguments : List String) (timeoutMs : Nat) :
    Attempt ProcessReport := do
  match ← Act.process ⟨program, arguments, root, timeoutMs⟩ with
  | .notStarted why => throw (.command ("Failed to spawn command: " ++ why))
  | .lost why => throw (.command ("Failed to execute command: " ++ why))
  | .finished exit output errors => return .ofEnd exit output errors
  | .timedOut => throw (.timeout ("Command timed out after " ++ toString timeoutMs ++ " ms"))
  | .cancelled => throw (.command "Command cancelled")

end Tool

end CodeAgent
