import CodeAgent.Json.Basic

/-! Laying one document over another.
Where both are objects their members are merged by key; anywhere else the upper document counts. -/
namespace CodeAgent.Json

mutual

def overlay (base : Json) : Json → Json
  | .obj upper =>
    match base with
    | .obj members => .obj (overlayMembers members upper)
    | _ => .obj upper
  | other => other

/-- Merges the upper members into those of the lower document, one by one. -/
def overlayMembers (members : List (String × Json)) :
    List (String × Json) → List (String × Json)
  | [] => members
  | (k, v) :: rest =>
    overlayMembers (put k (match members.find? (·.1 = k) with
      | some (_, old) => overlay old v
      | none => v) members) rest

end

end CodeAgent.Json
