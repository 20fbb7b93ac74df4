import CodeAgent.Chat.Reply
import CodeAgent.Settings
import CodeAgent.Table

/-! Deciding what to do about a fault.
Automatic remedies come first, a fault that one cannot go on after aborts, then a user's choice
counts, then the preset of its kind. Retries are counted by key and end at a bound. -/
namespace CodeAgent

structure RecoveryOptions where
  maxRetries : Nat := 3
  autoSkipParseErrors : Bool := false
  autoRetryModelErrors : Bool := false
deriving DecidableEq, Repr, Inhabited

namespace RecoveryOptions

def ofSettings (s : RecoverySettings) : RecoveryOptions :=
  ⟨s.maxRetries, s.autoSkipParseErrors, s.autoRetryModelErrors⟩

def toJson (o : RecoveryOptions) : Json :=
  Json.object [("max_retries", .nat o.maxRetries),
    ("auto_skip_parse_errors", .bool o.autoSkipParseErrors),
    ("auto_retry_llm_errors", .bool o.autoRetryModelErrors)]

end RecoveryOptions

/-- What to do, and for a retry which one it is. -/
structure Decision where
  remedy : Remedy
  attempt : Option Nat
deriving DecidableEq, Repr, Inhabited

namespace Decision

def goesOn (d : Decision) : Bool := d.remedy ≠ .abort

def toJson (d : Decision) : Json :=
  Json.object ([("action", d.remedy.toJson), ("should_continue", .bool d.goesOn)]
    ++ match d.attempt with
      | some n => [("retry_count", .nat n)]
      | none => [])

end Decision

/-- A question to the user about a fault. -/
structure RecoveryQuestion where
  kind : FaultKind
  offered : List Remedy
  preset : Remedy
deriving DecidableEq, Repr

namespace RecoveryQuestion

def toJson (q : RecoveryQuestion) : Json :=
  Json.object [("kind", q.kind.toJson), ("options", .arr (q.offered.map Remedy.toJson)),
    ("default", q.preset.toJson)]

end RecoveryQuestion

/-- The options, the user's coming answers (`none` if there is no user to ask), the questions asked
so far and the retries counted by key. -/
structure Recovery where
  options : RecoveryOptions
  answers : Option (List Remedy)
  asked : List RecoveryQuestion
  retries : Table Nat

namespace Recovery

def new (options : RecoveryOptions) : Recovery := ⟨options, none, [], .empty⟩

def automatic (o : RecoveryOptions) : FaultKind → Option Remedy
  | .parse => if o.autoSkipParseErrors then some .skip else none
  | .llm | .timeout => if o.autoRetryModelErrors then some .retry else none
  | _ => none

def retryCount (r : Recovery) (key : String) : Nat := (r.retries.get? key).getD 0

/-- A retry is counted, and beyond the bound becomes an abort. -/
def settle (r : Recovery) (remedy : Remedy) (key : String) : Decision × Recovery :=
  if remedy ≠ .retry then (⟨remedy, none⟩, r)
  else
    let n := r.retryCount key + 1
    if n > r.options.maxRetries then (⟨.abort, none⟩, r)
    else (⟨.retry, some n⟩, { r with retries := r.retries.insert key n })

/-- The user's answer; without one the preset applies, also for a remedy that is not offered. -/
def consult (r : Recovery) (f : Fault) : Remedy × Recovery :=
  match r.answers with
  | none => (f.preset, r)
  | some answers =>
    let r := { r with
      answers := some answers.tail, asked := r.asked ++ [⟨f.kind, f.remedies, f.preset⟩] }
    let chosen := answers.headD f.preset
    (if chosen ∈ f.remedies then chosen else f.preset, r)

def handle (r : Recovery) (f : Fault) (key : Option String) : Decision × Recovery :=
  let key := key.getD f.kind.name
  match automatic r.options f.kind with
  | some remedy => r.settle remedy key
  | none =>
    if !f.recoverable then (⟨.abort, none⟩, r)
    else
      let (remedy, r) := r.consult f
      r.settle remedy key

/-- Forgets the retries of one key, or all. -/
def reset (r : Recovery) : Option String → Recovery
  | some key => { r with retries := r.retries.erase key }
  | none => { r with retries := .empty }

end Recovery

/-- Why an operation failed, before it has a kind. -/
inductive Cause where
  | fault (f : Fault)
  | model (e : ModelError)
  | other (text : String)
deriving DecidableEq, Repr, Inhabited

/-- A cause, with what was being done put around it, innermost first. -/
structure Failure where
  cause : Cause
  context : List String
deriving DecidableEq, Repr, Inhabited

namespace Failure

def of (c : Cause) : Failure := ⟨c, []⟩

/-- A cause that has a kind keeps it; anything else gets the one given and all of its context. -/
def classify (kind : FaultKind) (f : Failure) : Fault :=
  match f.cause with
  | .fault fault => fault
  | .model e => e.toFault
  | .other text => .of kind (f.context.foldl (fun inner outer => outer ++ ": " ++ inner) text)

end Failure

/-- An attempt that failed, with what was decided. -/
inductive Guarded (α : Type) where
  | done (value : α)
  | failed (fault : Fault) (decision : Decision)

/-- One attempt; `again` goes on after a failure and the decision on it. -/
def attemptOnce {m : Type → Type} [Monad m] (attempt : m (Except Failure α))
    (decision : Fault → m Decision) (succeeded : m Unit) (kind : FaultKind)
    (again : Fault → Decision → m (Outcome α)) : m (Outcome α) := do
  match ← attempt with
  | .ok value =>
    succeeded
    return .ok value
  | .error failure =>
    let fault := failure.classify kind
    again fault (← decision fault)

/-- Attempts until one succeeds or the decision on its failure is not a retry. `retries` bounds how
often a retry can still be decided. -/
def withRetry {m : Type → Type} [Monad m] (attempt : m (Except Failure α))
    (decision : Fault → m Decision) (succeeded : m Unit) (kind : FaultKind) :
    (retries : Nat) → m (Outcome α)
  | 0 => attemptOnce attempt decision succeeded kind fun fault _ => return .error fault
  | retries + 1 =>
    attemptOnce attempt decision succeeded kind fun fault d =>
      if d.remedy = .retry then withRetry attempt decision succeeded kind retries
      else return .error fault

/-! Attempts whose outcomes are known beforehand -/

structure Attempts where
  recovery : Recovery
  made : Nat

namespace Attempts

/-- Outcomes go by the number of the attempt. -/
def next (outcome : Nat → Except Failure α) : StateM Attempts (Except Failure α) := fun s =>
  (outcome s.made, { s with made := s.made + 1 })

def decide (key : String) (f : Fault) : StateM Attempts Decision := fun s =>
  let (d, r) := s.recovery.handle f (some key)
  (d, { s with recovery := r })

def forgive (key : String) : StateM Attempts Unit := fun s =>
  ((), { s with recovery := s.recovery.reset (some key) })

end Attempts

namespace Recovery

/-- The attempts that are made of an endless sequence, and how they end. -/
def persist (r : Recovery) (outcome : Nat → Except Failure α) (kind : FaultKind) (key : String) :
    Outcome α × Attempts :=
  withRetry (Attempts.next outcome) (Attempts.decide key) (Attempts.forgive key) kind
    r.options.maxRetries ⟨r, 0⟩

/-- When no outcome is left an attempt succeeds. -/
def retry (r : Recovery) (outcomes : List (Except Failure α)) (last : α) (kind : FaultKind)
    (key : String) : Outcome α × Attempts :=
  r.persist (fun n => outcomes.getD n (.ok last)) kind key

/-- One attempt, and what is decided when it failed. Without a key the kind is one. -/
def guard (r : Recovery) (outcome : Except Failure α) (kind : FaultKind) (key : Option String) :
    Guarded α × Recovery :=
  let key := key.getD kind.name
  match outcome with
  | .ok value => (.done value, r.reset (some key))
  | .error failure =>
    let fault := failure.classify kind
    let (d, r) := r.handle fault (some key)
    (.failed fault d, r)

end Recovery

end CodeAgent
