import CodeAgent.Outline.Python
import CodeAgent.Proofs.Outline.Using

/-! The imports of whole files.
Of all the constructs of a Rust file only its use declarations and the modules that it declares become
imports, and of a Python file only its import statements. -/
namespace CodeAgent

namespace Findings

theorem imports_concat (fs : List Findings) : (concat fs).imports = fs.flatMap (·.imports) := by
  induction fs with
  | nil => rfl
  | cons f fs ih =>
    rw [List.flatMap_cons, ← ih]
    rfl

@[simp] theorem imports_append (a b : Findings) : (a ++ b).imports = a.imports ++ b.imports := rfl

@[simp] theorem imports_exportIf (exported : Bool) (name : String) (line : Nat) :
    (exportIf exported name line).imports = [] := by
  rw [exportIf]
  split <;> rfl

end Findings

namespace Outline

open Syntax

namespace Rust

variable {source : Source} {root : Node} {P : String → Prop}

/-- A use declaration of the file, written as usual, names the path. -/
def Mentions (source : Source) (root : Node) (path : List String) : Prop :=
  ∃ d ∈ root.partsOf .useDeclaration, ∃ tree ls,
    d.child? .argument = some tree ∧ Uses source [] [tree] ls ∧ path ∈ ls

/-- A module is declared, and has a file of its own. -/
def Declares (source : Source) (root : Node) (name : String) : Prop :=
  ∃ d ∈ root.partsOf .moduleItem, d.child? .body = none ∧ source.textAs? d .name = some name

/-- All use declarations are written as usual. -/
def Usual (source : Source) (root : Node) : Prop :=
  ∀ d ∈ root.partsOf .useDeclaration, ∃ tree ls,
    d.child? .argument = some tree ∧ Uses source [] [tree] ls

theorem imports_named (n : Node) (f : String → Bool → Findings)
    (none : ∀ name exported, (f name exported).imports = []) : (named source n f).imports = [] := by
  rw [named]
  split
  · simp [none]
  · rfl

theorem imports_other {n : Node} (notUse : n.kind ≠ .useDeclaration) (notModule : n.kind ≠ .moduleItem) :
    (item source n).imports = [] := by
  unfold item
  split
  · rename_i kind
    exact absurd kind notUse
  · rename_i kind
    exact absurd kind notModule
  · split
    · simp [Findings.ofFunction, Findings.empty]
    · rfl
  · exact imports_named n _ fun _ _ => rfl
  · exact imports_named n _ fun _ _ => rfl
  · exact imports_named n _ fun _ _ => rfl
  · rfl

theorem imports_file : (file source root).imports = root.parts.flatMap fun n => (item source n).imports := by
  change (Findings.concat (root.parts.map (item source))).imports = _
  rw [Findings.imports_concat, List.flatMap_map]

theorem exists_import_use (idle : ∀ s, ':' ∉ s.toList → ¬ P s) {d tree : Node} {ls : List (List String)}
    (kind : d.kind = .useDeclaration) (argument : d.child? .argument = some tree)
    (uses : Uses source [] [tree] ls) :
    (∃ i ∈ (item source d).imports, P i.source) ↔ ∃ l ∈ ls, P (colons l.dropLast) := by
  have imports : (item source d).imports = used source d.line "" tree := by
    simp [item, kind, argument, Findings.ofImports]
  rw [imports]
  exact used_iff idle uses

theorem exists_import_module {d : Node} (kind : d.kind = .moduleItem) :
    (∃ i ∈ (item source d).imports, P i.source) ↔
      ∃ name, d.child? .body = none ∧ source.textAs? d .name = some name ∧ P ("self::" ++ name) := by
  unfold item
  rw [kind]
  dsimp only
  split
  · rename_i body name none named
    simp [Findings.ofImports, none, named]
  · rename_i other
    simp only [Findings.empty, List.not_mem_nil, false_and, exists_false, false_iff, not_exists]
    rintro name ⟨none, named, -⟩
    exact other name none named

theorem mem_partsOf {d : Node} {k : Kind} : d ∈ root.partsOf k ↔ d ∈ root.parts ∧ d.kind = k := by
  simp [Node.partsOf]

/-- The imports of a file are those of the paths that it names and of the modules that it declares. -/
theorem exists_import_file (idle : ∀ s, ':' ∉ s.toList → ¬ P s) (usual : Usual source root) :
    (∃ i ∈ (file source root).imports, P i.source) ↔
      (∃ path, Mentions source root path ∧ P (colons path.dropLast)) ∨
        ∃ name, Declares source root name ∧ P ("self::" ++ name) := by
  rw [imports_file]
  constructor
  · rintro ⟨i, member, kept⟩
    obtain ⟨d, part, imported⟩ := List.mem_flatMap.mp member
    by_cases isUse : d.kind = .useDeclaration
    · have among := mem_partsOf.mpr ⟨part, isUse⟩
      obtain ⟨tree, ls, argument, uses⟩ := usual d among
      obtain ⟨path, named, kept⟩ := (exists_import_use idle isUse argument uses).mp ⟨i, imported, kept⟩
      exact Or.inl ⟨path, ⟨d, among, tree, ls, argument, uses, named⟩, kept⟩
    by_cases isModule : d.kind = .moduleItem
    · obtain ⟨name, none, named, kept⟩ := (exists_import_module isModule).mp ⟨i, imported, kept⟩
      exact Or.inr ⟨name, ⟨d, mem_partsOf.mpr ⟨part, isModule⟩, none, named⟩, kept⟩
    · rw [imports_other isUse isModule] at imported
      cases imported
  · rintro (⟨path, ⟨d, among, tree, ls, argument, uses, named⟩, kept⟩ |
      ⟨name, ⟨d, among, none, named⟩, kept⟩)
    · obtain ⟨part, isUse⟩ := mem_partsOf.mp among
      obtain ⟨i, imported, kept⟩ := (exists_import_use idle isUse argument uses).mpr ⟨path, named, kept⟩
      exact ⟨i, List.mem_flatMap.mpr ⟨d, part, imported⟩, kept⟩
    · obtain ⟨part, isModule⟩ := mem_partsOf.mp among
      obtain ⟨i, imported, kept⟩ := (exists_import_module isModule).mpr ⟨name, none, named, kept⟩
      exact ⟨i, List.mem_flatMap.mpr ⟨d, part, imported⟩, kept⟩

end Rust

namespace Python

variable {source : Source} {root : Node} {P : String → Prop}

/-- Names are imported from the module. -/
def From (source : Source) (root : Node) (module : String) : Prop :=
  ∃ d ∈ root.partsOf .importFrom, source.textAs? d .module = some module

/-- The module itself is imported. -/
def Imported (source : Source) (root : Node) (module : String) : Prop :=
  ∃ d ∈ root.partsOf .importStatement, ∃ n ∈ d.childrenAs .name, (binding source n).1 = module

theorem imports_defined (n span : Node) : (defined source n span).imports = [] := by
  unfold defined
  split
  · split
    · simp [Findings.ofFunction, Findings.empty]
    · rfl
  · split
    · simp [Findings.ofClass, Findings.empty]
    · rfl
  · rfl

theorem imports_other {n : Node} (notImport : n.kind ≠ .importStatement) (notFrom : n.kind ≠ .importFrom) :
    (statement source n).imports = [] := by
  unfold statement
  split
  · rename_i kind
    exact absurd kind notImport
  · rename_i kind
    exact absurd kind notFrom
  · cases n.child? .definition with
    | none => rfl
    | some d => exact imports_defined d n
  · split <;> rfl
  · exact imports_defined n n

theorem exists_import_statement {d : Node} (kind : d.kind = .importStatement) :
    (∃ i ∈ (statement source d).imports, P i.source) ↔
      ∃ n ∈ d.childrenAs .name, P (binding source n).1 := by
  simp [statement, kind, imported, Findings.ofImports, importOf]

theorem exists_import_from {d : Node} (kind : d.kind = .importFrom) :
    (∃ i ∈ (statement source d).imports, P i.source) ↔
      ∃ module, source.textAs? d .module = some module ∧ P module := by
  simp only [statement, kind, importedFrom]
  cases source.textAs? d .module <;> simp [Findings.ofImports, Findings.empty, importOf]

/-- The imports of a file are the modules that it imports or imports names from, whatever the names. -/
theorem exists_import_file : (∃ i ∈ (file source root).imports, P i.source) ↔
    ∃ module, (From source root module ∨ Imported source root module) ∧ P module := by
  have imports : (file source root).imports = root.parts.flatMap fun n => (statement source n).imports := by
    rw [file, Findings.imports_concat, List.flatMap_map]
  rw [imports]
  constructor
  · rintro ⟨i, member, kept⟩
    obtain ⟨d, part, held⟩ := List.mem_flatMap.mp member
    by_cases isFrom : d.kind = .importFrom
    · obtain ⟨module, named, kept⟩ := (exists_import_from isFrom).mp ⟨i, held, kept⟩
      exact ⟨module, Or.inl ⟨d, Rust.mem_partsOf.mpr ⟨part, isFrom⟩, named⟩, kept⟩
    by_cases isImport : d.kind = .importStatement
    · obtain ⟨n, named, kept⟩ := (exists_import_statement isImport).mp ⟨i, held, kept⟩
      exact ⟨_, Or.inr ⟨d, Rust.mem_partsOf.mpr ⟨part, isImport⟩, n, named, rfl⟩, kept⟩
    · rw [imports_other isImport isFrom] at held
      cases held
  · rintro ⟨module, ⟨d, among, named⟩ | ⟨d, among, n, named, rfl⟩, kept⟩
    · obtain ⟨part, isFrom⟩ := Rust.mem_partsOf.mp among
      obtain ⟨i, held, kept⟩ := (exists_import_from isFrom).mpr ⟨module, named, kept⟩
      exact ⟨i, List.mem_flatMap.mpr ⟨d, part, held⟩, kept⟩
    · obtain ⟨part, isImport⟩ := Rust.mem_partsOf.mp among
      obtain ⟨i, held, kept⟩ := (exists_import_statement isImport).mpr ⟨n, named, kept⟩
      exact ⟨i, List.mem_flatMap.mpr ⟨d, part, held⟩, kept⟩

end Python

end Outline

end CodeAgent
