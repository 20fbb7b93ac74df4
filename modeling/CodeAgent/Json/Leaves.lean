import CodeAgent.Json.Basic

/-! The leaves of a document: what is neither a list nor an object. -/
namespace CodeAgent.Json

mutual

/-- Changes every leaf, knowing the name of the member that it is; items of a list have none. -/
def mapLeaves (f : String → Json → Json) (key : String) : Json → Json
  | .arr items => .arr (mapItems f items)
  | .obj members => .obj (mapMembers f members)
  | leaf => f key leaf

def mapItems (f : String → Json → Json) : List Json → List Json
  | [] => []
  | j :: rest => mapLeaves f "" j :: mapItems f rest

def mapMembers (f : String → Json → Json) : List (String × Json) → List (String × Json)
  | [] => []
  | (k, j) :: rest => (k, mapLeaves f k j) :: mapMembers f rest

end

/-- Changes every text; the names of members stay. -/
def mapStrings (f : String → String) : Json → Json :=
  mapLeaves (fun _ leaf => match leaf with
    | .str s => .str (f s)
    | other => other) ""

end CodeAgent.Json
