import CodeAgent.Chat.Schema
import CodeAgent.Text.Lines

/-! Arguments of a tool against its schema.
Required members are present and not null, known members have their type and an allowed value;
unknown members are let through. -/
namespace CodeAgent

/-- Why arguments are refused. -/
inductive ArgumentError where
  | notAnObject (found : String)
  | missing (name : String)
  | wrongType (name expected found : String)
  | notAllowed (name : String) (allowed : List String)
deriving DecidableEq, Repr

namespace ArgumentError

def joinComma : List String → String
  | [] => ""
  | [s] => s
  | s :: rest => s ++ ", " ++ joinComma rest

def message : ArgumentError → String
  | notAnObject found => "Parameters must be an object, got " ++ found
  | missing name => "Missing required parameter: " ++ name
  | wrongType name expected found =>
    "Parameter '" ++ name ++ "' must be of type " ++ expected ++ ", got " ++ found
  | notAllowed name allowed => "Parameter '" ++ name ++ "' must be one of: " ++ joinComma allowed

end ArgumentError

namespace Json

def typeName : Json → String
  | .null => "null"
  | .bool _ => "boolean"
  | .num (.int _) => "integer"
  | .num (.float _) => "number"
  | .str _ => "string"
  | .arr _ => "array"
  | .obj _ => "object"

/-- A type that schemas do not know admits every value. -/
def hasType (expected : String) (j : Json) : Bool :=
  match expected with
  | "string" | "boolean" | "array" | "object" | "integer" => j.typeName = expected
  | "number" => j.typeName = "number" || j.typeName = "integer"
  | _ => true

end Json

namespace Schema

def checkRequired (members : List (String × Json)) : List String → Except ArgumentError Unit
  | [] => .ok ()
  | name :: rest =>
    match (Json.obj members).member? name with
    | none | some .null => .error (.missing name)
    | some _ => checkRequired members rest

/-- One member against the schema of its name. -/
def checkMember (s : Schema) (name : String) (value : Json) : Except ArgumentError Unit :=
  if value.isNull then .ok ()
  else
    match s.property? name with
    | none => .ok ()
    | some p =>
      if !value.hasType p.type then .error (.wrongType name p.type value.typeName)
      else
        match p.allowed, value with
        | some allowed, .str v => if v ∈ allowed then .ok () else .error (.notAllowed name allowed)
        | _, _ => .ok ()

def checkMembers (s : Schema) : List (String × Json) → Except ArgumentError Unit
  | [] => .ok ()
  | (name, value) :: rest =>
    match checkMember s name value with
    | .error e => .error e
    | .ok () => checkMembers s rest

/-- Required members first, then all members in the order of their names. -/
def check (s : Schema) (arguments : Json) : Except ArgumentError Unit :=
  match arguments with
  | .obj members => run members
  | .null => run []
  | other => .error (.notAnObject other.typeName)
where
  run (members : List (String × Json)) : Except ArgumentError Unit :=
    match checkRequired members (s.required.getD []) with
    | .error e => .error e
    | .ok () => if s.properties.isNone then .ok () else checkMembers s members

end Schema

end CodeAgent
