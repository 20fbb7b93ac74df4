import CodeAgent.Fault

/-! Failures below the services: of the database, the settings, files and documents. -/
namespace CodeAgent

inductive BackendError where
  | database (message : String)
  | query (message : String)
  | config (message : String)
  | file (message : String)
  /-- A document that cannot be read; its details are left to the reader of the document. -/
  | malformed
  | validation (message : String)
deriving DecidableEq, Repr, Inhabited

namespace BackendError

def text : BackendError → String
  | database m => "Database error: " ++ m
  | query m => "SQLite error: " ++ m
  | config m => "Configuration error: " ++ m
  | file m => "I/O error: " ++ m
  | malformed => "Serialization error"
  | validation m => "Validation error: " ++ m

def databaseHint : String := "Check that the ipuaro database is writable and not locked"

def toFault (e : BackendError) : Fault :=
  match e with
  | database _ | query _ => (Fault.storage e.text).withHint databaseHint
  | malformed => .parse e.text
  | file _ => .file e.text
  | config _ | validation _ => .validation e.text

end BackendError

end CodeAgent
