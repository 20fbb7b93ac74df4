/-! The command line: a command, the directory of a project, and options. -/
namespace CodeAgent.Console

inductive Command where
  /-- Opens a conversation; a project that has no index is indexed first. -/
  | start
  | index
  /-- Writes a settings file into the project, over an old one only when forced. -/
  | init (force : Bool)
  | sessions
  /-- Reverses the newest change of the latest session. -/
  | undo
deriving DecidableEq, Repr

/-- Without a path the project is in the directory that one is in. -/
structure Invocation where
  command : Command
  path : Option String
  /-- The file that keeps the database, if it is not the user's own. -/
  database : Option String
deriving DecidableEq, Repr

/-- Why a command line is refused. -/
inductive InvocationError where
  | noCommand
  | unknownCommand (name : String)
  | unexpected (argument : String)
  | missingValue (option : String)
deriving DecidableEq, Repr

namespace InvocationError

def message : InvocationError → String
  | noCommand => "a command is required"
  | unknownCommand name => "unrecognized command '" ++ name ++ "'"
  | unexpected argument => "unexpected argument '" ++ argument ++ "'"
  | missingValue option => "a value is required for '" ++ option ++ "'"

def usage : String := "Usage: ipuaro [--db FILE] start|index|init|sessions|undo [--force] [PATH]"

end InvocationError

namespace Invocation

/-- The parts of a command line as they stand. -/
structure Parts where
  words : List String
  force : Bool
  database : Option String

/-- The words are gathered in reverse. -/
def gather (p : Parts) : List String → Except InvocationError Parts
  | [] => .ok { p with words := p.words.reverse }
  | "--force" :: rest => gather { p with force := true } rest
  | ["--db"] => .error (.missingValue "--db")
  | "--db" :: file :: rest => gather { p with database := some file } rest
  | word :: rest =>
    if word.toList.head? = some '-' then .error (.unexpected word)
    else gather { p with words := word :: p.words } rest

def ofName (name : String) (force : Bool) : Except InvocationError Command :=
  match name with
  | "init" => .ok (.init force)
  | "start" => plain .start
  | "index" => plain .index
  | "sessions" => plain .sessions
  | "undo" => plain .undo
  | other => .error (.unknownCommand other)
where
  plain (c : Command) : Except InvocationError Command :=
    if force then .error (.unexpected "--force") else .ok c

def parse (arguments : List String) : Except InvocationError Invocation := do
  let parts ← gather ⟨[], false, none⟩ arguments
  match parts.words with
  | [] => .error .noCommand
  | name :: rest =>
    let c ← ofName name parts.force
    match rest with
    | [] => return ⟨c, none, parts.database⟩
    | [path] => return ⟨c, some path, parts.database⟩
    | _ :: extra :: _ => .error (.unexpected extra)

end Invocation

end CodeAgent.Console
