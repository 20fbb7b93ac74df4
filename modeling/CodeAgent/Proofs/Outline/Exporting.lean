import CodeAgent.Proofs.Outline.Methods

/-! What is marked as exported, and what is listed as an export.
The mark stands with what is defined, the list apart from it. Both are kept construct by construct: where
they agree on each construct of a language, they agree on its files. -/
namespace CodeAgent

namespace Findings

/-- A function, a class or an interface of the name is marked as exported. -/
def MarksDefinition (f : Findings) (name : String) : Prop :=
  (∃ g ∈ f.functions, g.isExported = true ∧ g.name = name) ∨
    (∃ c ∈ f.classes, c.isExported = true ∧ c.name = name) ∨
      ∃ i ∈ f.interfaces, i.isExported = true ∧ i.name = name

/-- The name of a type is marked as exported. -/
def MarksType (f : Findings) (name : String) : Prop :=
  ∃ t ∈ f.types, t.isExported = true ∧ t.name = name

def Marks (f : Findings) (name : String) : Prop := f.MarksDefinition name ∨ f.MarksType name

/-- The name is among the exports. -/
def Lists (f : Findings) (name : String) : Prop := ∃ e ∈ f.exports, e.name = name

section

variable {a b f : Findings} {name n : String} {exported : Bool} {line : Nat}

theorem marksDefinition_append :
    (a ++ b).MarksDefinition name ↔ a.MarksDefinition name ∨ b.MarksDefinition name := by
  change (append a b).MarksDefinition name ↔ _
  simp only [MarksDefinition, append, List.mem_append, or_and_right, exists_or]
  exact iff_of_eq (by ac_rfl)

theorem marksType_append : (a ++ b).MarksType name ↔ a.MarksType name ∨ b.MarksType name := by
  change (append a b).MarksType name ↔ _
  simp only [MarksType, append, List.mem_append, or_and_right, exists_or]

theorem marks_append : (a ++ b).Marks name ↔ a.Marks name ∨ b.Marks name := by
  rw [Marks, marksDefinition_append, marksType_append]
  exact or_or_or_comm

theorem lists_append : (a ++ b).Lists name ↔ a.Lists name ∨ b.Lists name := by
  change (append a b).Lists name ↔ _
  simp only [Lists, append, List.mem_append, or_and_right, exists_or]

theorem not_marks_empty : ¬ empty.Marks name := by simp [Marks, MarksDefinition, MarksType, empty]

theorem not_marks_ofImports {is : List Import} : ¬ (ofImports is).Marks name := not_marks_empty

theorem not_marks_ofExports {es : List Export} : ¬ (ofExports es).Marks name := not_marks_empty

theorem not_marks_exportIf : ¬ (exportIf exported name line).Marks n := by
  cases exported
  · exact not_marks_empty
  · exact not_marks_ofExports

theorem marks_ofFunction {g : Function} :
    (ofFunction g).Marks name ↔ g.isExported = true ∧ g.name = name := by
  simp [Marks, MarksDefinition, MarksType, ofFunction, empty]

theorem marks_ofClass {c : Class} : (ofClass c).Marks name ↔ c.isExported = true ∧ c.name = name := by
  simp [Marks, MarksDefinition, MarksType, ofClass, empty]

theorem marks_ofInterface {i : Interface} :
    (ofInterface i).Marks name ↔ i.isExported = true ∧ i.name = name := by
  simp [Marks, MarksDefinition, MarksType, ofInterface, empty]

theorem marks_ofType {t : TypeName} : (ofType t).Marks name ↔ t.isExported = true ∧ t.name = name := by
  simp [Marks, MarksDefinition, MarksType, ofType, empty]

theorem lists_exportIf : (exportIf exported name line).Lists n ↔ exported = true ∧ name = n := by
  cases exported <;> simp [exportIf, Lists, ofExports, empty]

theorem types_exportIf : (exportIf exported name line ++ f).types = f.types := by
  cases exported <;> rfl

theorem mem_names_of_marks (marked : f.Marks name) : name ∈ f.names := by
  simp only [names, List.mem_append, List.mem_map, or_assoc]
  rcases marked with (⟨x, inside, -, same⟩ | ⟨x, inside, -, same⟩ | ⟨x, inside, -, same⟩) |
    ⟨x, inside, -, same⟩
  · exact Or.inl ⟨x, inside, same⟩
  · exact Or.inr (Or.inl ⟨x, inside, same⟩)
  · exact Or.inr (Or.inr (Or.inl ⟨x, inside, same⟩))
  · exact Or.inr (Or.inr (Or.inr ⟨x, inside, same⟩))

/-- Which methods are gathered does not touch the marks. -/
theorem marks_withClasses (owned : List (String × List Function)) :
    { f with classes := attachAll owned f.classes }.Marks name ↔ f.Marks name := by
  have mark (cs : List Class) : (∃ c ∈ cs, c.isExported = true ∧ c.name = name) ↔
      (true, name) ∈ cs.map fun c => (c.isExported, c.name) := by
    simp only [List.mem_map, Prod.mk.injEq]
  simp only [Marks, MarksDefinition, mark]
  rw [map_attachAll fun _ _ => rfl]
  exact Iff.rfl

/-- What holds of no findings, and of any two together, holds of any number of them. -/
theorem concat_induction {α : Type} {P : Findings → Prop} (none : P empty)
    (both : ∀ {a b}, P a → P b → P (a ++ b)) {found : α → Findings} {as : List α}
    (each : ∀ a ∈ as, P (found a)) : P (concat (as.map found)) := by
  induction as with
  | nil => exact none
  | cons a as ih =>
    exact both (each a List.mem_cons_self) (ih fun x member => each x (List.mem_cons_of_mem a member))

end

/- What a list of exports says -/

/-- The exports are just what is marked. -/
def ListsMarked (f : Findings) : Prop := ∀ name, f.Lists name ↔ f.Marks name

/-- The exports are just the definitions that are marked, whatever the names of types are. -/
def ListsDefinitions (f : Findings) : Prop := ∀ name, f.Lists name ↔ f.MarksDefinition name

/-- What is marked is among the exports. -/
def ListsMore (f : Findings) : Prop := ∀ name, f.Marks name → f.Lists name

section

variable {a b f own : Findings} {name : String} {exported : Bool} {line : Nat}

theorem ListsMarked.append (first : a.ListsMarked) (second : b.ListsMarked) : (a ++ b).ListsMarked := by
  intro name
  rw [lists_append, marks_append, first name, second name]

theorem ListsDefinitions.append (first : a.ListsDefinitions) (second : b.ListsDefinitions) :
    (a ++ b).ListsDefinitions := by
  intro name
  rw [lists_append, marksDefinition_append, first name, second name]

theorem ListsMore.append (first : a.ListsMore) (second : b.ListsMore) : (a ++ b).ListsMore := by
  intro name marked
  rw [lists_append]
  exact (marks_append.mp marked).imp (first name) (second name)

theorem ListsMarked.more (exact : f.ListsMarked) : f.ListsMore := fun name => (exact name).mpr

theorem ListsMarked.definitions (exact : f.ListsMarked) (untyped : f.types = []) : f.ListsDefinitions := by
  intro name
  have bare : ¬ f.MarksType name := by simp [MarksType, untyped]
  rw [exact name, Marks, or_iff_left bare]

theorem ListsMarked.withClasses (exact : f.ListsMarked) (owned : List (String × List Function)) :
    { f with classes := attachAll owned f.classes }.ListsMarked := by
  intro name
  rw [marks_withClasses]
  exact exact name

theorem listsMarked_of_bare (silent : f.exports = []) (bare : ∀ name, ¬ f.Marks name) : f.ListsMarked := by
  intro name
  simp [Lists, silent, bare name]

theorem listsMarked_empty : empty.ListsMarked := listsMarked_of_bare rfl fun _ => not_marks_empty

theorem listsMarked_ofImports (is : List Import) : (ofImports is).ListsMarked :=
  listsMarked_of_bare rfl fun _ => not_marks_ofImports

/-- What one construct defines, with the export for it. -/
theorem listsMarked_exportIf (silent : own.exports = [])
    (marks : ∀ n, own.Marks n ↔ exported = true ∧ name = n) :
    (exportIf exported name line ++ own).ListsMarked := by
  intro n
  have bare : ¬ own.Lists n := by simp [Lists, silent]
  rw [lists_append, marks_append, lists_exportIf, or_iff_left bare, or_iff_right not_marks_exportIf, marks]

end

end Findings

namespace Outline

open Syntax

variable {source : Source} {root n : Node}

namespace Rust

theorem listsMarked_item (n : Node) : (item source n).ListsMarked := by
  unfold item
  split
  · exact Findings.listsMarked_ofImports _
  · split
    · exact Findings.listsMarked_ofImports _
    · exact Findings.listsMarked_empty
  · split
    · exact Findings.listsMarked_exportIf rfl fun _ => Findings.marks_ofFunction
    · exact Findings.listsMarked_empty
  · rw [named]
    split
    · exact Findings.listsMarked_exportIf rfl fun _ => Findings.marks_ofClass
    · exact Findings.listsMarked_empty
  · rw [named]
    split
    · exact Findings.listsMarked_exportIf rfl fun _ => Findings.marks_ofInterface
    · exact Findings.listsMarked_empty
  · rw [named]
    split
    · exact Findings.listsMarked_exportIf rfl fun _ => Findings.marks_ofType
    · exact Findings.listsMarked_empty
  · exact Findings.listsMarked_empty

theorem listsMarked_file (source : Source) (root : Node) : (file source root).ListsMarked := by
  rw [file_eq]
  exact (Findings.concat_induction Findings.listsMarked_empty .append fun n _ => listsMarked_item n).withClasses _

end Rust

namespace Go

theorem listsMarked_type (spec : Node) : (typeFindings source spec).ListsMarked := by
  rw [typeFindings]
  split
  · exact Findings.listsMarked_empty
  · dsimp only
    split
    · exact Findings.listsMarked_exportIf rfl fun _ => Findings.marks_ofClass
    · exact Findings.listsMarked_exportIf rfl fun _ => Findings.marks_ofInterface
    · exact Findings.listsMarked_exportIf rfl fun _ => Findings.marks_ofType

theorem listsMarked_item (n : Node) : (item source n).ListsMarked := by
  unfold item
  split
  · exact Findings.listsMarked_ofImports _
  · split
    · rename_i f made
      obtain ⟨name, -, made⟩ := Option.bind_eq_some_iff.mp made
      obtain rfl := Option.some.inj made
      exact Findings.listsMarked_exportIf rfl fun _ => Findings.marks_ofFunction
    · exact Findings.listsMarked_empty
  · exact Findings.concat_induction Findings.listsMarked_empty .append fun spec _ => listsMarked_type spec
  · exact Findings.listsMarked_empty

theorem listsMarked_file (source : Source) (root : Node) : (file source root).ListsMarked := by
  rw [file_eq]
  exact (Findings.concat_induction Findings.listsMarked_empty .append fun n _ => listsMarked_item n).withClasses _

end Go

namespace Python

theorem listsDefinitions_defined (d span : Node) : (defined source d span).ListsDefinitions := by
  rw [defined]
  split
  · split
    · exact (Findings.listsMarked_exportIf rfl fun _ => Findings.marks_ofFunction).definitions Findings.types_exportIf
    · exact Findings.listsMarked_empty.definitions rfl
  · split
    · exact (Findings.listsMarked_exportIf rfl fun _ => Findings.marks_ofClass).definitions Findings.types_exportIf
    · exact Findings.listsMarked_empty.definitions rfl
  · exact Findings.listsMarked_empty.definitions rfl

theorem listsDefinitions_statement (n : Node) : (statement source n).ListsDefinitions := by
  rw [statement]
  split
  · exact (Findings.listsMarked_ofImports _).definitions rfl
  · rw [importedFrom]
    split
    · exact Findings.listsMarked_empty.definitions rfl
    · exact (Findings.listsMarked_ofImports _).definitions rfl
  · cases n.child? .definition with
    | none => exact Findings.listsMarked_empty.definitions rfl
    | some d => exact listsDefinitions_defined d n
  -- The name of a type is marked without an export.
  · split
    · intro name
      simp [Findings.Lists, Findings.MarksDefinition, Findings.ofType, Findings.empty]
    · exact Findings.listsMarked_empty.definitions rfl
  · exact listsDefinitions_defined n n

theorem listsDefinitions_file (source : Source) (root : Node) : (file source root).ListsDefinitions :=
  Findings.concat_induction (Findings.listsMarked_empty.definitions rfl) .append
    fun n _ => listsDefinitions_statement n

end Python

namespace TypeScript

variable {d : Node} {shown : Bool} {name : String}

theorem listsMarked_imported (n : Node) : (imported source n).ListsMarked := by
  rw [imported]
  split
  · exact Findings.listsMarked_empty
  · exact Findings.listsMarked_ofImports _

theorem shown_of_named {f : String → Findings} (own : ∀ n, (f n).Marks name → shown = true)
    (marked : (named source d f).Marks name) : shown = true := by
  rw [named] at marked
  split at marked
  · exact own _ marked
  · exact absurd marked Findings.not_marks_empty

/-- A declaration marks all or none of what it defines. -/
theorem shown_of_marks (marked : (declared source d shown).Marks name) : shown = true := by
  unfold declared at marked
  split at marked
  · refine shown_of_named (fun n own => ?_) marked
    rw [Findings.marks_ofFunction] at own
    exact own.1
  · refine shown_of_named (fun n own => ?_) marked
    rw [Findings.marks_ofClass] at own
    exact own.1
  · refine shown_of_named (fun n own => ?_) marked
    rw [Findings.marks_ofInterface] at own
    exact own.1
  · refine shown_of_named (fun n own => ?_) marked
    rw [Findings.marks_ofType] at own
    exact own.1
  · obtain ⟨f, inside, mark, -⟩ : ∃ f ∈ (d.partsOf .declarator).filterMap (variableFunction? source d shown),
        f.isExported = true ∧ f.name = name := by
      simpa [Findings.Marks, Findings.MarksDefinition, Findings.MarksType, Findings.empty] using marked
    obtain ⟨v, -, made⟩ := List.mem_filterMap.mp inside
    obtain ⟨value, -, made⟩ := Option.bind_eq_some_iff.mp made
    split at made
    · obtain ⟨name, -, made⟩ := Option.bind_eq_some_iff.mp made
      obtain rfl := Option.some.inj made
      exact mark
    · cases made
  · exact absurd marked Findings.not_marks_empty

/-- What an exported declaration defines it exports. -/
theorem mem_exportedNames (marked : (declared source d true).Marks name) : name ∈ exportedNames source d := by
  rw [exportedNames]
  split
  · rename_i kind
    unfold declared at marked
    rw [kind] at marked
    obtain ⟨f, inside, -, rfl⟩ : ∃ f ∈ (d.partsOf .declarator).filterMap (variableFunction? source d true),
        f.isExported = true ∧ f.name = name := by
      simpa [Findings.Marks, Findings.MarksDefinition, Findings.MarksType, Findings.empty] using marked
    obtain ⟨v, member, made⟩ := List.mem_filterMap.mp inside
    exact List.mem_filterMap.mpr ⟨v, member, (named_variableFunction made).1⟩
  · exact Findings.mem_names_of_marks marked

theorem listsMore_exported (n : Node) : (exported source n).ListsMore := by
  unfold exported
  dsimp only
  split
  · rename_i d _
    split
    · refine .append (.append (Findings.listsMarked_ofImports _).more (listsMarked_imported d).more) ?_
      exact fun name marked => absurd marked Findings.not_marks_ofExports
    · intro name marked
      rw [Findings.marks_append, Findings.marks_append] at marked
      rw [Findings.lists_append]
      right
      rcases marked with (none | within) | none
      · exact absurd none Findings.not_marks_ofImports
      · exact ⟨_, List.mem_map.mpr ⟨name, mem_exportedNames within, rfl⟩, rfl⟩
      · exact absurd none Findings.not_marks_ofExports
  · refine .append (Findings.listsMarked_ofImports _).more ?_
    exact fun name marked => absurd marked Findings.not_marks_ofExports

theorem listsMore_file (source : Source) (root : Node) : (file source root).ListsMore := by
  refine Findings.concat_induction Findings.listsMarked_empty.more .append fun n _ => ?_
  unfold statement
  split
  · exact (listsMarked_imported n).more
  · exact listsMore_exported n
  · intro name marked
    cases shown_of_marks marked

end TypeScript

theorem listsMore_reading {language : Language} (other : language ≠ .python) (source : Source) (root : Node) :
    ((reading language).findings source root).ListsMore := by
  cases language with
  | python => exact absurd rfl other
  | rust => exact (Rust.listsMarked_file source root).more
  | go => exact (Go.listsMarked_file source root).more
  | _ => exact TypeScript.listsMore_file source root

theorem lists_of_marksDefinition {language : Language} {source : Source} {root : Node} {name : String}
    (marked : ((reading language).findings source root).MarksDefinition name) :
    ((reading language).findings source root).Lists name := by
  by_cases python : language = .python
  · subst python
    exact (Python.listsDefinitions_file source root name).mpr marked
  · exact listsMore_reading python source root name (Or.inl marked)

/-- Whatever a file is, an exported function, class or interface of it is among its exports, and in all
languages but one so is an exported type. In that one only functions and classes bring exports, so a type is
among them only if it shares its name. -/
theorem exports_listed (language : Language) (source : Source) (root : Node) (problem : Option Nat) :
    let o := Outline.of language.name ((reading language).findings source root) problem
    (∀ f ∈ o.functions, f.isExported = true → ∃ e ∈ o.exports, e.name = f.name) ∧
      (∀ c ∈ o.classes, c.isExported = true → ∃ e ∈ o.exports, e.name = c.name) ∧
      (∀ i ∈ o.interfaces, i.isExported = true → ∃ e ∈ o.exports, e.name = i.name) ∧
      (language ≠ .python → ∀ t ∈ o.types, t.isExported = true → ∃ e ∈ o.exports, e.name = t.name) ∧
      (language = .python → ∀ e ∈ o.exports,
        (∃ f ∈ o.functions, f.isExported = true ∧ f.name = e.name) ∨
          (∃ c ∈ o.classes, c.isExported = true ∧ c.name = e.name) ∨
            ∃ i ∈ o.interfaces, i.isExported = true ∧ i.name = e.name) := by
  refine ⟨fun f inside shown => ?_, fun c inside shown => ?_, fun i inside shown => ?_, ?_, ?_⟩
  · exact lists_of_marksDefinition (Or.inl ⟨f, inside, shown, rfl⟩)
  · exact lists_of_marksDefinition (Or.inr (Or.inl ⟨c, inside, shown, rfl⟩))
  · exact lists_of_marksDefinition (Or.inr (Or.inr ⟨i, inside, shown, rfl⟩))
  · intro other t inside shown
    exact listsMore_reading other source root t.name (Or.inr ⟨t, inside, shown, rfl⟩)
  · rintro rfl e inside
    exact (Python.listsDefinitions_file source root e.name).mp ⟨e, inside, rfl⟩

/-- A type that is marked as exported, and no export. -/
theorem type_unlisted : (ofFile .python "type X = int\n").types = [⟨"X", 1, true⟩] ∧
    (ofFile .python "type X = int\n").exports = [] ∧ (ofFile .python "type X = int\n").broken = false := by
  decide +kernel

end Outline

end CodeAgent
