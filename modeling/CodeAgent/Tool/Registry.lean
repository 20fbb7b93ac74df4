import CodeAgent.Fault
import CodeAgent.Tool.Arguments
import CodeAgent.Tool.Result

/-! The tools that a model may call.
A call always ends in a result: the tool is looked up, its arguments are checked, a gated tool asks
for approval, and only then its body runs. -/
namespace CodeAgent

inductive ToolCategory where
  | read | edit | search | analysis | git | run
deriving DecidableEq, Repr, Inhabited

namespace ToolCategory

def all : List ToolCategory := [read, edit, search, analysis, git, run]

def name : ToolCategory → String
  | read => "read"
  | edit => "edit"
  | search => "search"
  | analysis => "analysis"
  | git => "git"
  | run => "run"

def ofJson? : Json → Option ToolCategory := Json.toNamed? all name

end ToolCategory

/-- How a tool's body ends. A crash may carry a text. -/
inductive BodyEnd where
  | done (output : ToolOutput)
  | failed (fault : Fault)
  | crashed (text : Option String)

namespace BodyEnd

def ofOutcome : Outcome ToolOutput → BodyEnd
  | .ok o => .done o
  | .error f => .failed f

def outcome : BodyEnd → Except String ToolOutput
  | .done o => .ok o
  | .failed f => .error f.message
  | .crashed (some text) => .error text
  | .crashed none => .error "Tool panicked"

end BodyEnd

/-- A tool whose body runs in `m`. A gated tool needs approval before its body runs. -/
structure Tool (m : Type → Type) where
  definition : ToolDefinition
  category : ToolCategory
  gated : Bool
  /-- What a user is shown when asked for approval. -/
  summary : Json → m String
  body : Json → m BodyEnd

namespace Tool

variable {m : Type → Type}

def name (t : Tool m) : String := t.definition.name

/-- The name and the arguments on one line. -/
def plainSummary (name : String) (arguments : Json) : String := name ++ " " ++ arguments.compact

end Tool

/-- Tools with distinct names, in the order of their registration. -/
structure Registry (m : Type → Type) where
  tools : List (Tool m)

namespace Registry

variable {m : Type → Type}

def empty : Registry m := ⟨[]⟩

def get? (r : Registry m) (name : String) : Option (Tool m) := r.tools.find? (·.name = name)

/-- A name that is taken keeps its tool. -/
def register (r : Registry m) (t : Tool m) : Outcome (Registry m) :=
  match r.get? t.name with
  | some _ => .error (.validation ("Tool '" ++ t.name ++ "' is already registered"))
  | none => .ok ⟨r.tools ++ [t]⟩

def definitions (r : Registry m) : List ToolDefinition := r.tools.map (·.definition)

def names (r : Registry m) : List String := r.tools.map (·.name)

def inCategory (r : Registry m) (c : ToolCategory) : List (Tool m) :=
  r.tools.filter (·.category = c)

def size (r : Registry m) : Nat := r.tools.length

/-- Runs a tool by name, with `confirm` to ask for approval. -/
def execute [Monad m] (r : Registry m) (confirm : String → m Bool) (name : String)
    (arguments : Json) : m (Except String ToolOutput) :=
  match r.get? name with
  | none => return .error ("Unknown tool: " ++ name)
  | some t =>
    match t.definition.parameters.check arguments with
    | .error e => return .error e.message
    | .ok () => do
      if t.gated then
        let summary ← t.summary arguments
        if ← confirm summary then
          return (← t.body arguments).outcome
        else return .error "Operation cancelled by user"
      else return (← t.body arguments).outcome

end Registry

end CodeAgent
