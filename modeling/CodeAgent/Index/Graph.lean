import CodeAgent.Json.Decode
import CodeAgent.Table

/-! Which files depend on which, in both directions. -/
namespace CodeAgent

structure GraphNode where
  dependencies : List String
  dependents : List String
deriving DecidableEq, Repr, Inhabited

structure DependencyGraph where
  nodes : Table GraphNode
deriving DecidableEq

namespace GraphNode

def empty : GraphNode := ⟨[], []⟩

def toJson (n : GraphNode) : Json :=
  Json.object [("dependencies", Json.ofStrings n.dependencies),
    ("dependents", Json.ofStrings n.dependents)]

def ofJson? (j : Json) : Option GraphNode := do
  let fs ← j.fields? ["dependencies", "dependents"]
  let dependencies ← fs.req "dependencies" Json.toStrings?
  let dependents ← fs.req "dependents" Json.toStrings?
  return { dependencies, dependents }

end GraphNode

namespace DependencyGraph

def empty : DependencyGraph := ⟨.empty⟩

instance : Inhabited DependencyGraph := ⟨empty⟩

def addOnce (list : List String) (s : String) : List String := if s ∈ list then list else list ++ [s]

/-- Notes the edge at both of its ends. -/
def addEdge (nodes : Table GraphNode) (source target : String) : Table GraphNode :=
  let nodes := nodes.update source fun n =>
    let n := n.getD .empty
    { n with dependencies := addOnce n.dependencies target }
  nodes.update target fun n =>
    let n := n.getD .empty
    { n with dependents := addOnce n.dependents source }

def addNode (nodes : Table GraphNode) (path : String) : Table GraphNode :=
  nodes.update path (·.getD .empty)

def sortStrings (ss : List String) : List String := ss.mergeSort fun a b => a ≤ b

/-- From the edges of each file; every file named in them is a node. -/
def ofEdges (edges : Table (List String)) : DependencyGraph :=
  let nodes := edges.entries.foldl (fun nodes e =>
    e.2.foldl (fun nodes target => addEdge nodes e.1 target) (addNode nodes e.1)) Table.empty
  ⟨nodes.mapValues fun _ n => ⟨sortStrings n.dependencies, sortStrings n.dependents⟩⟩

def node? (g : DependencyGraph) (path : String) : Option GraphNode := g.nodes.get? path

def dependencies (g : DependencyGraph) (path : String) : List String :=
  ((g.node? path).map (·.dependencies)).getD []

def dependents (g : DependencyGraph) (path : String) : List String :=
  ((g.node? path).map (·.dependents)).getD []

def size (g : DependencyGraph) : Nat := g.nodes.size

def toJson (g : DependencyGraph) : Json := .obj (g.nodes.entries.map fun e => (e.1, e.2.toJson))

def ofJson? (j : Json) : Option DependencyGraph :=
  (Json.toEntries? GraphNode.ofJson? j).map fun es => ⟨Table.ofList es⟩

end DependencyGraph

end CodeAgent
