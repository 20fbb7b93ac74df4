import CodeAgent.Json.Decode
import CodeAgent.Table

/-! Schemas of the parameters that a model may give to a tool. -/
namespace CodeAgent

structure Schema where
  type : String
  description : Option String
  properties : Option (List (String × Schema))
  required : Option (List String)
  items : Option Schema
  allowed : Option (List String)
deriving Repr, Inhabited

namespace Schema

def leaf (type : String) (description : Option String) : Schema :=
  ⟨type, description, none, none, none, none⟩

def string (description : String) : Schema := leaf "string" (some description)
def integer (description : String) : Schema := leaf "integer" (some description)
def boolean (description : String) : Schema := leaf "boolean" (some description)

/-- A text that is one of a list. -/
def choice (description : String) (allowed : List String) : Schema :=
  { string description with allowed := some allowed }

def array (description : String) (items : Schema) : Schema :=
  { leaf "array" (some description) with items := some items }

def object (properties : List (String × Schema)) (required : List String) : Schema :=
  { leaf "object" none with properties := some properties, required := some required }

mutual

def toJson : Schema → Json
  | ⟨type, description, properties, required, items, allowed⟩ =>
    Json.object <|
      [("type", .str type)]
      ++ (match description with
        | some d => [("description", .str d)]
        | none => [])
      ++ (match properties with
        | some ps => [("properties", Json.object (propertiesToJson ps))]
        | none => [])
      ++ (match required with
        | some r => [("required", Json.ofStrings r)]
        | none => [])
      ++ (match items with
        | some s => [("items", toJson s)]
        | none => [])
      ++ (match allowed with
        | some e => [("enum", Json.ofStrings e)]
        | none => [])

def propertiesToJson : List (String × Schema) → List (String × Json)
  | [] => []
  | (name, s) :: rest => (name, toJson s) :: propertiesToJson rest

end

/-- Reads a schema; `depth` bounds the nesting. -/
def decode : (depth : Nat) → Json → Option Schema
  | 0, _ => none
  | depth + 1, j => do
    let fs ← j.fields? ["type", "description", "properties", "required", "items", "enum"]
    let type ← fs.req "type" Json.toStr?
    let description ← fs.opt "description" Json.toStr?
    let properties ← fs.opt "properties" (Json.toEntries? (decode depth))
    let required ← fs.opt "required" Json.toStrings?
    let items ← fs.opt "items" (decode depth)
    let allowed ← fs.opt "enum" Json.toStrings?
    return ⟨type, description, properties, required, items, allowed⟩

def ofJson? (j : Json) : Option Schema := decode 128 j

/-- The schema of a property; of equal names the last counts. -/
def property? (s : Schema) (name : String) : Option Schema :=
  s.properties.bind fun ps => (ps.reverse.find? (·.1 = name)).map (·.2)

end Schema

/-- What a model is told about a tool. -/
structure ToolDefinition where
  name : String
  description : String
  parameters : Schema
deriving Repr, Inhabited

namespace ToolDefinition

def toJson (d : ToolDefinition) : Json :=
  Json.object [("name", .str d.name), ("description", .str d.description),
    ("input_schema", d.parameters.toJson)]

end ToolDefinition

end CodeAgent
