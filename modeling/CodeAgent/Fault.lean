import CodeAgent.Json.Decode

/-! Faults: every failure that reaches a caller has a kind, a message and perhaps a hint.
The kind decides whether one may go on, which remedies are offered and which applies by itself. -/
namespace CodeAgent

inductive FaultKind where
  | storage | parse | llm | timeout | file | command | conflict | validation | unknown
deriving DecidableEq, Repr, Inhabited

inductive Remedy where
  | retry | skip | abort | confirm | regenerate
deriving DecidableEq, Repr, Inhabited

namespace Remedy

def name : Remedy → String
  | retry => "retry"
  | skip => "skip"
  | abort => "abort"
  | confirm => "confirm"
  | regenerate => "regenerate"

def all : List Remedy := [retry, skip, abort, confirm, regenerate]

def toJson (r : Remedy) : Json := .str r.name
def ofJson? : Json → Option Remedy := Json.toNamed? all name

end Remedy

/-- Whether one may go on after a fault, what is offered, and what applies when nobody chooses. -/
structure FaultPolicy where
  recoverable : Bool
  remedies : List Remedy
  preset : Remedy
deriving DecidableEq, Repr

namespace FaultKind

def all : List FaultKind :=
  [storage, parse, llm, timeout, file, command, conflict, validation, unknown]

def name : FaultKind → String
  | storage => "storage"
  | parse => "parse"
  | llm => "llm"
  | timeout => "timeout"
  | file => "file"
  | command => "command"
  | conflict => "conflict"
  | validation => "validation"
  | unknown => "unknown"

def policy : FaultKind → FaultPolicy
  | storage => ⟨false, [.retry, .abort], .abort⟩
  | parse => ⟨true, [.skip, .abort], .skip⟩
  | llm => ⟨true, [.retry, .skip, .abort], .retry⟩
  | timeout => ⟨true, [.retry, .skip, .abort], .retry⟩
  | file => ⟨true, [.skip, .abort], .skip⟩
  | command => ⟨true, [.confirm, .skip, .abort], .confirm⟩
  | conflict => ⟨true, [.skip, .regenerate, .abort], .skip⟩
  | validation => ⟨true, [.skip, .abort], .skip⟩
  | unknown => ⟨false, [.abort], .abort⟩

theorem abort_mem_remedies (k : FaultKind) : Remedy.abort ∈ k.policy.remedies := by
  cases k <;> decide

theorem preset_mem_remedies (k : FaultKind) : k.policy.preset ∈ k.policy.remedies := by
  cases k <;> decide

def toJson (k : FaultKind) : Json := .str k.name
def ofJson? : Json → Option FaultKind := Json.toNamed? all name

end FaultKind

structure Fault where
  kind : FaultKind
  message : String
  hint : Option String
deriving DecidableEq, Repr, Inhabited

/-- The value of an operation, or why there is none. -/
abbrev Outcome (α : Type) := Except Fault α

namespace Fault

def of (kind : FaultKind) (message : String) : Fault := ⟨kind, message, none⟩

def storage (message : String) : Fault := of .storage message
def parse (message : String) : Fault := of .parse message
def llm (message : String) : Fault := of .llm message
def timeout (message : String) : Fault := of .timeout message
def file (message : String) : Fault := of .file message
def command (message : String) : Fault := of .command message
def conflict (message : String) : Fault := of .conflict message
def validation (message : String) : Fault := of .validation message
def unknown (message : String) : Fault := of .unknown message

def withHint (f : Fault) (hint : String) : Fault := { f with hint := some hint }

def recoverable (f : Fault) : Bool := f.kind.policy.recoverable
def remedies (f : Fault) : List Remedy := f.kind.policy.remedies
def preset (f : Fault) : Remedy := f.kind.policy.preset

/-- The kind and the message. -/
def text (f : Fault) : String := f.kind.name ++ " error: " ++ f.message

/-- The kind, the message and the hint, as a user sees them. -/
def display (f : Fault) : String :=
  match f.hint with
  | some hint => f.text ++ "\nHint: " ++ hint
  | none => f.text

def toJson (f : Fault) : Json :=
  Json.object ([("kind", f.kind.toJson), ("message", .str f.message)]
    ++ match f.hint with
      | some hint => [("suggestion", .str hint)]
      | none => [])

/-- All that is known of a fault: what it is, how it is shown and what may be done about it. -/
def describe (f : Fault) : Json :=
  Json.object [("kind", f.kind.toJson), ("message", .str f.message),
    ("suggestion", Json.ofOption .str f.hint), ("recoverable", .bool f.recoverable),
    ("options", .arr (f.remedies.map Remedy.toJson)), ("default", f.preset.toJson),
    ("default_text", .str f.preset.name), ("text", .str f.text), ("display", .str f.display),
    ("json", f.toJson)]

def ofJson? (j : Json) : Option Fault := do
  let fs ← j.fields? ["kind", "message", "suggestion"]
  let kind ← fs.req "kind" FaultKind.ofJson?
  let message ← fs.req "message" Json.toStr?
  let hint ← fs.optOrNone "suggestion" Json.toStr?
  return ⟨kind, message, hint⟩

end Fault

/-- Why an operation of the file system failed. -/
inductive FileErrorKind where
  | timedOut | notFound | permissionDenied | interrupted | other
deriving DecidableEq, Repr, Inhabited

namespace FileErrorKind

def all : List FileErrorKind := [timedOut, notFound, permissionDenied, interrupted, other]

def name : FileErrorKind → String
  | timedOut => "timed_out"
  | notFound => "not_found"
  | permissionDenied => "permission_denied"
  | interrupted => "interrupted"
  | other => "other"

/-- Any other name counts as some other reason. -/
def ofName (s : String) : FileErrorKind := (all.find? (·.name = s)).getD other

end FileErrorKind

structure FileError where
  kind : FileErrorKind
  message : String
deriving DecidableEq, Repr, Inhabited

namespace FileError

/-- A time limit keeps its kind, all else is a fault of files. -/
def toFault (e : FileError) : Fault :=
  match e.kind with
  | .timedOut => .timeout e.message
  | _ => .file e.message

end FileError

end CodeAgent
