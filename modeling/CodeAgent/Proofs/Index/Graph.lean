import CodeAgent.Index.Build
import CodeAgent.Index.Graph
import CodeAgent.Proofs.Store.Tables

/-! The dependency graph as a mirror of its edges.
Each edge is noted at both of its ends, once however often it is given; so the two directions of the graph
are one set of edges, and the edges read off either direction make the graph again. -/
namespace CodeAgent.DependencyGraph

variable {nodes : Table GraphNode} {files : List String} {pairs : List (String × String)}
  {source target path a b : String}

/- What is noted while the edges are gone through -/

theorem mem_addOnce {list : List String} {s t : String} : t ∈ addOnce list s ↔ t ∈ list ∨ t = s := by
  rw [addOnce]
  split
  · rename_i before
    exact ⟨Or.inl, fun either => either.elim id fun same => same ▸ before⟩
  · rw [List.mem_append, List.mem_singleton]

theorem nodup_addOnce {list : List String} (single : list.Nodup) (s : String) : (addOnce list s).Nodup := by
  rw [addOnce]
  split
  · exact single
  · rename_i fresh
    refine List.nodup_append.mpr ⟨single, List.nodup_singleton s, fun t inside u here same => ?_⟩
    rw [same, List.mem_singleton.mp here] at inside
    exact fresh inside

/-- What is noted for a file so far. -/
def noted (nodes : Table GraphNode) (path : String) : GraphNode := (nodes.get? path).getD .empty

theorem noted_addNode : noted (addNode nodes source) path = noted nodes path := by
  rw [noted, addNode, Table.get?_update]
  split
  · rename_i same
    rw [same, noted, Option.getD_some]
  · rfl

theorem isSome_addNode :
    ((addNode nodes source).get? path).isSome ↔ (nodes.get? path).isSome ∨ path = source := by
  rw [addNode, Table.get?_update]
  split
  · rename_i same
    exact ⟨fun _ => Or.inr same, fun _ => rfl⟩
  · rename_i other
    exact (or_iff_left other).symm

/-- An edge is noted as a dependency at its source and as a dependent at its target, which may be one. -/
theorem noted_addEdge :
    noted (addEdge nodes source target) path =
      { dependencies := if path = source then addOnce (noted nodes path).dependencies target
          else (noted nodes path).dependencies
        dependents := if path = target then addOnce (noted nodes path).dependents source
          else (noted nodes path).dependents } := by
  simp only [noted, addEdge, Table.get?_update]
  by_cases atTarget : path = target
  · subst atTarget
    by_cases atSource : path = source
    · simp [← atSource]
    · simp [atSource]
  · by_cases atSource : path = source
    · subst atSource
      simp [atTarget]
    · simp [atTarget, atSource]

theorem isSome_addEdge :
    ((addEdge nodes source target).get? path).isSome ↔
      (nodes.get? path).isSome ∨ path = source ∨ path = target := by
  simp only [addEdge, Table.get?_update]
  by_cases atTarget : path = target
  · simp [atTarget]
  · by_cases atSource : path = source
    · subst atSource
      simp [atTarget]
    · simp [atTarget, atSource]

/-- The nodes hold just these edges, each at both of its ends, with the files at the ends and some more. -/
structure Notes (files : List String) (pairs : List (String × String)) (nodes : Table GraphNode) :
    Prop where
  node (path : String) :
    (nodes.get? path).isSome ↔ path ∈ files ∨ ∃ p ∈ pairs, path = p.1 ∨ path = p.2
  dependency (a b : String) : b ∈ (noted nodes a).dependencies ↔ (a, b) ∈ pairs
  dependent (a b : String) : a ∈ (noted nodes b).dependents ↔ (a, b) ∈ pairs
  once (path : String) : (noted nodes path).dependencies.Nodup ∧ (noted nodes path).dependents.Nodup

theorem notes_empty : Notes [] [] .empty where
  node path := by simp
  dependency a b := by simp [noted, GraphNode.empty]
  dependent a b := by simp [noted, GraphNode.empty]
  once path := ⟨List.nodup_nil, List.nodup_nil⟩

theorem Notes.addNode (notes : Notes files pairs nodes) (source : String) :
    Notes (files ++ [source]) pairs (addNode nodes source) where
  node path := by
    rw [isSome_addNode, notes.node, List.mem_append, List.mem_singleton]
    exact or_right_comm
  dependency a b := by rw [noted_addNode, notes.dependency]
  dependent a b := by rw [noted_addNode, notes.dependent]
  once path := by
    rw [noted_addNode]
    exact notes.once path

theorem Notes.addEdge (notes : Notes files pairs nodes) (source target : String) :
    Notes files (pairs ++ [(source, target)]) (addEdge nodes source target) where
  node path := by
    rw [isSome_addEdge, notes.node]
    simp only [List.mem_append, List.mem_singleton, or_and_right, exists_or, exists_eq_left, or_assoc]
  dependency a b := by
    rw [noted_addEdge, List.mem_append, List.mem_singleton, Prod.mk.injEq, ← notes.dependency]
    dsimp only
    split
    · rename_i same
      rw [mem_addOnce, and_iff_right same]
    · rename_i other
      exact (or_iff_left fun both => other both.1).symm
  dependent a b := by
    rw [noted_addEdge, List.mem_append, List.mem_singleton, Prod.mk.injEq, ← notes.dependent]
    dsimp only
    split
    · rename_i same
      rw [mem_addOnce, and_iff_left same]
    · rename_i other
      exact (or_iff_left fun both => other both.2).symm
  once path := by
    obtain ⟨forward, backward⟩ := notes.once path
    rw [noted_addEdge]
    constructor <;> dsimp only <;> split
    · exact nodup_addOnce forward target
    · exact forward
    · exact nodup_addOnce backward source
    · exact backward

/-- The edges of one file. -/
def pairsOf (e : String × List String) : List (String × String) := e.2.map (e.1, ·)

/-- Adds the edges of one file. -/
def addFile (nodes : Table GraphNode) (e : String × List String) : Table GraphNode :=
  e.2.foldl (fun nodes target => addEdge nodes e.1 target) (addNode nodes e.1)

theorem Notes.addEdges (notes : Notes files pairs nodes) (source : String) (targets : List String) :
    Notes files (pairs ++ targets.map (source, ·))
      (targets.foldl (fun nodes target => DependencyGraph.addEdge nodes source target) nodes) := by
  induction targets generalizing pairs nodes with
  | nil => simpa using notes
  | cons target targets ih => simpa using ih (notes.addEdge source target)

theorem Notes.addFiles (notes : Notes files pairs nodes) (es : List (String × List String)) :
    Notes (files ++ es.map (·.1)) (pairs ++ es.flatMap pairsOf) (es.foldl addFile nodes) := by
  induction es generalizing files pairs nodes with
  | nil => simpa using notes
  | cons e es ih =>
    have first := (notes.addNode e.1).addEdges e.1 e.2
    simpa [pairsOf, addFile] using ih first

theorem notes_files (edges : Table (List String)) :
    Notes edges.keys (edges.entries.flatMap pairsOf) (edges.entries.foldl addFile .empty) :=
  notes_empty.addFiles edges.entries

/- The graph -/

/-- The edge is among those of its source. -/
def Edge (edges : Table (List String)) (a b : String) : Prop :=
  ∃ targets, edges.get? a = some targets ∧ b ∈ targets

theorem mem_pairs {edges : Table (List String)} {a b : String} :
    (a, b) ∈ edges.entries.flatMap pairsOf ↔ Edge edges a b := by
  simp only [List.mem_flatMap, pairsOf, List.mem_map, Prod.mk.injEq, Edge, Table.get?_eq_some]
  constructor
  · rintro ⟨⟨_, targets⟩, entry, _, target, rfl, rfl⟩
    exact ⟨targets, entry, target⟩
  · rintro ⟨targets, entry, target⟩
    exact ⟨(a, targets), entry, b, target, rfl, rfl⟩

theorem mem_sortStrings {ss : List String} {s : String} : s ∈ sortStrings ss ↔ s ∈ ss := List.mem_mergeSort

theorem ascending_sortStrings {ss : List String} (single : ss.Nodup) : (sortStrings ss).Pairwise (· < ·) := by
  have sorted : (sortStrings ss).Pairwise fun a b => decide (a ≤ b) = true := by
    refine List.pairwise_mergeSort (fun a b c less more => ?_) (fun a b => ?_) ss
    · exact decide_eq_true (String.le_trans (of_decide_eq_true less) (of_decide_eq_true more))
    · simpa using String.le_total a b
  have single : (sortStrings ss).Nodup := (List.mergeSort_perm ss _).nodup_iff.mpr single
  refine (sorted.and single).imp fun {a b} both => ?_
  exact String.not_le.mp fun more => both.2 (String.le_antisymm (of_decide_eq_true both.1) more)

theorem eq_of_ascending {ss ts : List String} (sorted : ss.Pairwise (· < ·)) (sorted' : ts.Pairwise (· < ·))
    (same : ∀ s, s ∈ ss ↔ s ∈ ts) : ss = ts := by
  have irreflexive : Std.Irrefl fun a b : String => a < b := ⟨String.lt_irrefl⟩
  have antisymmetric : Std.Antisymm fun a b : String => a < b :=
    ⟨fun a b less more => absurd (String.lt_trans less more) (String.lt_irrefl a)⟩
  exact List.Pairwise.eq_of_mem_iff sorted sorted' same

/-- The dependencies of all files in one number. -/
def dependencyCount (g : DependencyGraph) : Nat := (g.nodes.values.flatMap (·.dependencies)).length

def dependentCount (g : DependencyGraph) : Nat := (g.nodes.values.flatMap (·.dependents)).length

/-- The graph shows these edges and no others, alike from both of their ends. -/
structure Mirrors (edges : Table (List String)) (g : DependencyGraph) : Prop where
  node (path : String) : (g.node? path).isSome ↔ path ∈ edges.keys ∨ ∃ source, Edge edges source path
  dependency (a b : String) : b ∈ g.dependencies a ↔ Edge edges a b
  dependent (a b : String) : a ∈ g.dependents b ↔ Edge edges a b
  ascending (path : String) :
    (g.dependencies path).Pairwise (· < ·) ∧ (g.dependents path).Pairwise (· < ·)

theorem dependencies_ofNodes (nodes : Table GraphNode) (path : String) :
    (⟨nodes.mapValues fun _ n => ⟨sortStrings n.dependencies, sortStrings n.dependents⟩⟩ :
      DependencyGraph).dependencies path = sortStrings (noted nodes path).dependencies := by
  rw [dependencies, node?, Table.get?_mapValues, noted]
  cases nodes.get? path with
  | none => exact List.mergeSort_nil.symm
  | some n => rfl

theorem dependents_ofNodes (nodes : Table GraphNode) (path : String) :
    (⟨nodes.mapValues fun _ n => ⟨sortStrings n.dependencies, sortStrings n.dependents⟩⟩ :
      DependencyGraph).dependents path = sortStrings (noted nodes path).dependents := by
  rw [dependents, node?, Table.get?_mapValues, noted]
  cases nodes.get? path with
  | none => exact List.mergeSort_nil.symm
  | some n => rfl

theorem mirrors_ofEdges (edges : Table (List String)) : Mirrors edges (ofEdges edges) := by
  have notes := notes_files edges
  have made : ofEdges edges = ⟨(edges.entries.foldl addFile .empty).mapValues fun _ n =>
    ⟨sortStrings n.dependencies, sortStrings n.dependents⟩⟩ := rfl
  rw [made]
  refine ⟨fun path => ?_, fun a b => ?_, fun a b => ?_, fun path => ?_⟩
  · rw [node?, Table.get?_mapValues, Option.isSome_map, notes.node]
    constructor
    · rintro (file | ⟨⟨a, b⟩, pair, rfl | rfl⟩)
      · exact Or.inl file
      · obtain ⟨targets, held, -⟩ := mem_pairs.mp pair
        exact Or.inl (Table.mem_keys.mpr (Option.isSome_of_eq_some held))
      · exact Or.inr ⟨a, mem_pairs.mp pair⟩
    · rintro (file | ⟨source, edge⟩)
      · exact Or.inl file
      · exact Or.inr ⟨_, mem_pairs.mpr edge, Or.inr rfl⟩
  · rw [dependencies_ofNodes, mem_sortStrings, notes.dependency, mem_pairs]
  · rw [dependents_ofNodes, mem_sortStrings, notes.dependent, mem_pairs]
  · rw [dependencies_ofNodes, dependents_ofNodes]
    exact ⟨ascending_sortStrings (notes.once path).1, ascending_sortStrings (notes.once path).2⟩

variable {edges : Table (List String)} {g g' : DependencyGraph}

theorem dependencies_of_node {n : GraphNode} (node : g.nodes.get? path = some n) :
    g.dependencies path = n.dependencies ∧ g.dependents path = n.dependents := by
  rw [dependencies, dependents, node?, node]
  exact ⟨rfl, rfl⟩

/-- A graph is made of its edges and its nodes alone. -/
theorem Mirrors.unique (mirrors : Mirrors edges g) (mirrors' : Mirrors edges g') : g = g' := by
  have forward path : g.dependencies path = g'.dependencies path :=
    eq_of_ascending (mirrors.ascending path).1 (mirrors'.ascending path).1 fun b =>
      (mirrors.dependency path b).trans (mirrors'.dependency path b).symm
  have backward path : g.dependents path = g'.dependents path :=
    eq_of_ascending (mirrors.ascending path).2 (mirrors'.ascending path).2 fun a =>
      (mirrors.dependent a path).trans (mirrors'.dependent a path).symm
  have nodes : g.nodes = g'.nodes := Table.ext_get? fun path => by
    have both : (g.nodes.get? path).isSome ↔ (g'.nodes.get? path).isSome :=
      (mirrors.node path).trans (mirrors'.node path).symm
    have forward := forward path
    have backward := backward path
    rw [dependencies, dependencies, node?, node?] at forward
    rw [dependents, dependents, node?, node?] at backward
    cases held : g.nodes.get? path with
    | none =>
      rw [held] at both
      cases held' : g'.nodes.get? path with
      | none => rfl
      | some n' => rw [held'] at both; exact absurd (both.mpr rfl) Bool.false_ne_true
    | some n =>
      rw [held] at both
      obtain ⟨n', held'⟩ := Option.isSome_iff_exists.mp (both.mp rfl)
      rw [held, held'] at forward backward
      rw [held']
      cases n
      cases n'
      exact congrArg some (congrArg₂ GraphNode.mk forward backward)
  cases g
  cases g'
  exact congrArg DependencyGraph.mk nodes

/- The edges, listed from either end -/

/-- The edges as the nodes list them from their sources. -/
def forwardPairs (g : DependencyGraph) : List (String × String) :=
  g.nodes.entries.flatMap fun e => e.2.dependencies.map (e.1, ·)

/-- The edges as the nodes list them from their targets. -/
def backwardPairs (g : DependencyGraph) : List (String × String) :=
  g.nodes.entries.flatMap fun e => e.2.dependents.map (·, e.1)

theorem mem_dependencies : b ∈ g.dependencies a ↔ ∃ n, (a, n) ∈ g.nodes.entries ∧ b ∈ n.dependencies := by
  rw [dependencies, node?]
  simp only [← Table.get?_eq_some]
  cases g.nodes.get? a <;> simp

theorem mem_dependents : a ∈ g.dependents b ↔ ∃ n, (b, n) ∈ g.nodes.entries ∧ a ∈ n.dependents := by
  rw [dependents, node?]
  simp only [← Table.get?_eq_some]
  cases g.nodes.get? b <;> simp

theorem mem_forwardPairs : (a, b) ∈ g.forwardPairs ↔ b ∈ g.dependencies a := by
  rw [mem_dependencies]
  simp only [forwardPairs, List.mem_flatMap, List.mem_map, Prod.mk.injEq]
  constructor
  · rintro ⟨⟨_, n⟩, entry, _, edge, rfl, rfl⟩
    exact ⟨n, entry, edge⟩
  · rintro ⟨n, entry, edge⟩
    exact ⟨(a, n), entry, b, edge, rfl, rfl⟩

theorem mem_backwardPairs : (a, b) ∈ g.backwardPairs ↔ a ∈ g.dependents b := by
  rw [mem_dependents]
  simp only [backwardPairs, List.mem_flatMap, List.mem_map, Prod.mk.injEq]
  constructor
  · rintro ⟨⟨_, n⟩, entry, _, edge, rfl, rfl⟩
    exact ⟨n, entry, edge⟩
  · rintro ⟨n, entry, edge⟩
    exact ⟨(b, n), entry, a, edge, rfl, rfl⟩

theorem Mirrors.nodup (mirrors : Mirrors edges g) {e : String × GraphNode} (entry : e ∈ g.nodes.entries) :
    e.2.dependencies.Nodup ∧ e.2.dependents.Nodup := by
  obtain ⟨forward, backward⟩ := mirrors.ascending e.1
  obtain ⟨same, same'⟩ := dependencies_of_node (Table.get?_eq_some.mpr entry)
  rw [same] at forward
  rw [same'] at backward
  exact ⟨forward.nodup, backward.nodup⟩

/-- From either end there are the same edges, each once. -/
theorem Mirrors.perm_pairs (mirrors : Mirrors edges g) : g.forwardPairs.Perm g.backwardPairs := by
  have forward : g.forwardPairs.Nodup :=
    Table.nodup_flatMap Prod.fst (by simp) fun e entry =>
      (mirrors.nodup entry).1.map fun _ _ same => (Prod.mk.inj same).2
  have backward : g.backwardPairs.Nodup :=
    Table.nodup_flatMap Prod.snd (by simp) fun e entry =>
      (mirrors.nodup entry).2.map fun _ _ same => (Prod.mk.inj same).1
  refine (List.perm_ext_iff_of_nodup forward backward).mpr fun ⟨a, b⟩ => ?_
  rw [mem_forwardPairs, mem_backwardPairs, mirrors.dependency, mirrors.dependent]

theorem length_forwardPairs : g.forwardPairs.length = g.dependencyCount := by
  simp [forwardPairs, dependencyCount, Table.values, List.length_flatMap, Function.comp_def]

theorem length_backwardPairs : g.backwardPairs.length = g.dependentCount := by
  simp [backwardPairs, dependentCount, Table.values, List.length_flatMap, Function.comp_def]

/-- The edges as the graph shows them from their sources. -/
def forwardEdges (g : DependencyGraph) : Table (List String) := g.nodes.mapValues fun _ n => n.dependencies

theorem edge_forwardEdges : Edge g.forwardEdges a b ↔ b ∈ g.dependencies a := by
  rw [Edge, dependencies, node?, forwardEdges]
  simp only [Table.get?_mapValues]
  cases g.nodes.get? a <;> simp

theorem mem_keys_forwardEdges : path ∈ g.forwardEdges.keys ↔ (g.node? path).isSome := by
  rw [Table.mem_keys, forwardEdges, Table.get?_mapValues, Option.isSome_map, node?]

/-- What mirrors the edges that a mirror shows, mirrors the edges themselves. -/
theorem Mirrors.again (mirrors : Mirrors edges g) (again : Mirrors g.forwardEdges g') : Mirrors edges g' where
  node path := by
    rw [again.node, mem_keys_forwardEdges, mirrors.node]
    simp only [edge_forwardEdges, mirrors.dependency, or_assoc, or_self]
  dependency a b := by rw [again.dependency, edge_forwardEdges, mirrors.dependency]
  dependent a b := by rw [again.dependent, edge_forwardEdges, mirrors.dependency]
  ascending := again.ascending

/-- The graph of any edges has the files that they name as its nodes and shows each edge at both ends,
in ascending lists without repetition and with as many dependencies as dependents; and it is the graph of
its own dependencies. -/
theorem ofEdges_mirror (edges : Table (List String)) :
    Mirrors edges (ofEdges edges) ∧
      (ofEdges edges).dependencyCount = (ofEdges edges).dependentCount ∧
      ofEdges (ofEdges edges).forwardEdges = ofEdges edges := by
  have mirrors := mirrors_ofEdges edges
  refine ⟨mirrors, ?_, ?_⟩
  · rw [← length_forwardPairs, ← length_backwardPairs]
    exact mirrors.perm_pairs.length_eq
  · exact (mirrors.again (mirrors_ofEdges _)).unique mirrors

end CodeAgent.DependencyGraph

/-! The dependency graph, read as the edges that it is made of.
Each file has the dependencies that its edges name, and is a node only as one end of an edge; and an
edge ends at a file of the project. -/

namespace CodeAgent

namespace DependencyGraph

/-- The dependencies of a file are its edges. -/
theorem dependencies_ofEdges {edges : Table (List String)}
    (ascending : ∀ e ∈ edges.entries, e.2.Pairwise (· < ·)) (path : String) :
    (ofEdges edges).dependencies path = (edges.get? path).getD [] := by
  have mirrors := mirrors_ofEdges edges
  refine eq_of_ascending (mirrors.ascending path).1 ?_ fun b => ?_
  · cases held : edges.get? path with
    | none => exact .nil
    | some targets => exact ascending _ (Table.get?_eq_some.mp held)
  · rw [mirrors.dependency, Edge]
    cases edges.get? path <;> simp

/-- Every node is one end of an edge, or a file that may have none. -/
theorem node_ofEdges {edges : Table (List String)} {path : String}
    (node : ((ofEdges edges).node? path).isSome) : ∃ e ∈ edges.entries, path = e.1 ∨ path ∈ e.2 := by
  rcases ((mirrors_ofEdges edges).node path).mp node with file | ⟨source, targets, held, target⟩
  · obtain ⟨e, entry, rfl⟩ := List.mem_map.mp file
    exact ⟨e, entry, Or.inl rfl⟩
  · exact ⟨(source, targets), Table.get?_eq_some.mp held, Or.inr target⟩

end DependencyGraph

namespace Resolve.Project

variable {p : Project} {found : String}

theorem mem_first? {candidates : List String} (held : p.first? candidates = some found) :
    found ∈ p.files := by
  simpa using List.find?_some held

theorem mem_script? {importer source : String} (held : p.script? importer source = some found) :
    found ∈ p.files := by
  unfold script? at held
  split at held
  · cases held
  · exact mem_first? held

theorem mem_python? {importer module : String} (held : p.python? importer module = some found) :
    found ∈ p.files := by
  unfold python? at held
  split at held
  · cases held
  · exact mem_first? held

theorem mem_longestModule? {dir : String} {segments : List String} {n : Nat}
    (held : p.longestModule? dir segments n = some found) : found ∈ p.files := by
  induction n with
  | zero => cases held
  | succ n ih =>
    rw [longestModule?] at held
    split at held
    · rename_i f there
      obtain rfl := Option.some.inj held
      exact mem_first? there
    · exact ih held

theorem mem_rust? {importer path : String} (held : p.rust? importer path = some found) :
    found ∈ p.files := by
  unfold rust? at held
  split at held
  · obtain ⟨dir, -, held⟩ := Option.bind_eq_some_iff.mp held
    exact mem_longestModule? held
  · exact mem_longestModule? held
  · exact mem_longestModule? held
  · cases held

theorem mem_go? {importer source : String} (held : p.go? importer source = some found) :
    found ∈ p.files := by
  obtain ⟨dir, -, held⟩ := Option.bind_eq_some_iff.mp held
  exact List.mem_of_find?_eq_some held

/-- An import means a file of the project, or none. -/
theorem mem_target? {importer language source : String}
    (held : p.target? importer language source = some found) : found ∈ p.files := by
  unfold target? at held
  obtain ⟨held, -⟩ := Option.filter_eq_some_iff.mp held
  split at held
  · exact mem_script? held
  · exact mem_script? held
  · exact mem_python? held
  · exact mem_rust? held
  · exact mem_go? held
  · cases held

end Resolve.Project

namespace Index

variable {p : Resolve.Project} {path : String} {o : Outline}

theorem snd_settleImport {language : String} (i : Import) :
    (settleImport p path language i).2 = p.target? path language i.source := by
  rw [settleImport]
  split <;> simp [*]

/-- The targets of a file are what its imports mean. -/
theorem mem_targets_iff {target : String} :
    target ∈ targets p path o ↔ ∃ i ∈ o.imports, p.target? path o.language i.source = some target := by
  rw [targets, Table.mem_keys, Table.isSome_ofList]
  simp [snd_settleImport]

theorem mem_targets {target : String} (inside : target ∈ targets p path o) : target ∈ p.files := by
  obtain ⟨i, -, meant⟩ := mem_targets_iff.mp inside
  exact Resolve.Project.mem_target? meant

theorem ascending_targets : (targets p path o).Pairwise (· < ·) :=
  List.pairwise_map.mpr (Table.ascending _)

end Index

end CodeAgent
