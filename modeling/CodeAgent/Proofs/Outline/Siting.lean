import CodeAgent.Outline.OfFile
import CodeAgent.Proofs.Index.Sites
import CodeAgent.Proofs.Text.Cutting

/-! Where the names of an outline are placed, and where they are written.
Each name is placed at the line on which a construct of the file starts, and is the text of a part that
names the construct. The part may stand further down: behind decorators, or among the names of a list. -/
namespace CodeAgent

namespace Findings

/-- The names that are defined, or exported other than by default, with their lines. -/
def places (f : Findings) : List (String × Nat) :=
  f.functions.map (fun f => (f.name, f.lineStart)) ++ f.classes.map (fun c => (c.name, c.lineStart))
    ++ f.interfaces.map (fun i => (i.name, i.lineStart)) ++ f.types.map (fun t => (t.name, t.line))
    ++ (f.exports.filter (!·.isDefault)).map fun e => (e.name, e.line)

variable {a b f : Findings} {p : String × Nat}

@[simp] theorem mem_places_append : p ∈ (a ++ b).places ↔ p ∈ a.places ∨ p ∈ b.places := by
  change p ∈ (append a b).places ↔ _
  simp only [places, append, List.map_append, List.filter_append, List.mem_append]
  tauto

theorem mem_places_concat {α : Type} {found : α → Findings} {as : List α} :
    p ∈ (concat (as.map found)).places ↔ ∃ a ∈ as, p ∈ (found a).places := by
  induction as with
  | nil => simp [concat, places, empty]
  | cons a as ih =>
    have step : p ∈ (concat (found a :: as.map found)).places ↔
        p ∈ (found a).places ∨ p ∈ (concat (as.map found)).places := mem_places_append
    rw [List.map_cons, step, ih, List.exists_mem_cons_iff]

@[simp] theorem places_ofImports (is : List Import) : (ofImports is).places = [] := rfl
@[simp] theorem places_ofFunction (f : Function) : (ofFunction f).places = [(f.name, f.lineStart)] := rfl
@[simp] theorem places_ofClass (c : Class) : (ofClass c).places = [(c.name, c.lineStart)] := rfl

@[simp] theorem places_exportIf (exported : Bool) (name : String) (line : Nat) :
    (exportIf exported name line).places = if exported then [(name, line)] else [] := by
  cases exported <;> rfl

theorem mem_places_ofExports {es : List Export} :
    p ∈ (ofExports es).places ↔ ∃ e ∈ es, e.isDefault = false ∧ (e.name, e.line) = p := by
  simp [places, ofExports, empty, and_assoc]

theorem mem_names {name : String} : name ∈ f.names → ∃ line, (name, line) ∈ f.places := by
  simp only [names, places, List.mem_append, List.mem_map, Prod.mk.injEq]
  rintro (((⟨g, inside, rfl⟩ | ⟨c, inside, rfl⟩) | ⟨i, inside, rfl⟩) | ⟨t, inside, rfl⟩)
  · exact ⟨_, Or.inl (Or.inl (Or.inl (Or.inl ⟨g, inside, rfl, rfl⟩)))⟩
  · exact ⟨_, Or.inl (Or.inl (Or.inl (Or.inr ⟨c, inside, rfl, rfl⟩)))⟩
  · exact ⟨_, Or.inl (Or.inl (Or.inr ⟨i, inside, rfl, rfl⟩))⟩
  · exact ⟨_, Or.inl (Or.inr ⟨t, inside, rfl, rfl⟩)⟩

theorem eq_of_mem_exported {exported : Bool} {name : String} {line : Nat} (own : f.places = [(name, line)])
    (placed : p ∈ (exportIf exported name line ++ f).places) : p = (name, line) := by
  rw [mem_places_append, places_exportIf, own, List.mem_singleton] at placed
  rcases placed with shown | same
  · split at shown
    · exact List.mem_singleton.mp shown
    · cases shown
  · exact same

/-- Methods do not move a class. -/
theorem places_attach (name : String) (methods : List Function) (cs : List Class) :
    (attach name methods cs).map (fun c => (c.name, c.lineStart)) =
      cs.map fun c => (c.name, c.lineStart) := by
  induction cs with
  | nil => rfl
  | cons c cs ih =>
    rw [attach]
    split
    · rfl
    · rw [List.map_cons, ih, List.map_cons]

theorem places_attached {α : Type} (name : α → String) (methods : α → List Function) (owned : List α)
    (cs : List Class) :
    (owned.foldl (fun cs o => attach (name o) (methods o) cs) cs).map (fun c => (c.name, c.lineStart)) =
      cs.map fun c => (c.name, c.lineStart) := by
  induction owned generalizing cs with
  | nil => rfl
  | cons o owned ih => rw [List.foldl_cons, ih, places_attach]

theorem places_withClasses {cs : List Class}
    (same : cs.map (fun c => (c.name, c.lineStart)) = f.classes.map fun c => (c.name, c.lineStart)) :
    { f with classes := cs }.places = f.places := by
  simp only [places, same]

/-- What an outline places was found for it, whatever becomes of its imports. -/
theorem mem_places_of_item {language name : String} {problem : Option Nat} {is : List Import} {line : Nat}
    {kind : SymbolKind}
    (item : Index.Item { Outline.of language f problem with imports := is } name line kind) :
    (name, line) ∈ f.places := by
  simp only [places, List.mem_append, List.mem_map]
  cases item with
  | function inside => exact Or.inl (Or.inl (Or.inl (Or.inl ⟨_, inside, rfl⟩)))
  | classType inside => exact Or.inl (Or.inl (Or.inl (Or.inr ⟨_, inside, rfl⟩)))
  | interface inside => exact Or.inl (Or.inl (Or.inr ⟨_, inside, rfl⟩))
  | type inside => exact Or.inl (Or.inr ⟨_, inside, rfl⟩)

theorem mem_places_of_shown {language name : String} {problem : Option Nat} {is : List Import} {line : Nat}
    (shown : Index.Shown { Outline.of language f problem with imports := is } name line) :
    (name, line) ∈ f.places := by
  obtain ⟨e, inside, explicit, rfl, rfl⟩ := shown.exported
  have among : e ∈ f.exports.filter (!·.isDefault) := List.mem_filter.mpr ⟨inside, by simp [explicit]⟩
  exact List.mem_append_right _ (List.mem_map.mpr ⟨e, among, rfl⟩)

end Findings

namespace Outline

open Syntax

/-- A construct of a file that is counted by itself: at the top, exported from there, or a part of one. -/
inductive Stated (root : Node) : Node → Prop where
  | top {d : Node} (part : d ∈ root.parts) : Stated root d
  | exported {e d : Node} (part : e ∈ root.parts) (declared : e.child? .declaration = some d) : Stated root d
  | grouped {g d : Node} (part : g ∈ root.parts) (member : d ∈ g.parts) : Stated root d

/-- The part of a construct that says what it defines or exports. -/
inductive Names : Node → Node → Prop where
  | own {d n : Node} (named : d.child? .name = some n) : Names d n
  | alias {d n : Node} (kind : d.kind = .typeAlias) (first : d.parts.head? = some n) : Names d n
  | decorated {d c n : Node} (defined : d.child? .definition = some c) (named : c.child? .name = some n) :
    Names d n
  | variable {d v n : Node} (member : v ∈ d.partsOf .declarator) (named : v.child? .name = some n) : Names d n
  | exported {e d n : Node} (declared : e.child? .declaration = some d) (named : Names d n) : Names e n
  | listed {e c s n : Node} (clause : c ∈ e.partsOf .exportClause) (member : s ∈ c.parts)
    (named : s.child? .otherName = some n ∨ s.child? .name = some n) : Names e n

/-- The name is that of a construct that starts on the line. -/
def Sited (source : Source) (root : Node) (p : String × Nat) : Prop :=
  ∃ d n, Stated root d ∧ Names d n ∧ source.text n = p.1 ∧ d.line = p.2

variable {source : Source} {root d n : Node} {p : String × Nat}

theorem child_of_textAs {role : Syntax.Role} {name : String} (text : source.textAs? d role = some name) :
    ∃ n, d.child? role = some n ∧ source.text n = name := by
  rw [Source.textAs?] at text
  split at text
  · rename_i c held
    dsimp only at text
    split at text
    · cases text
    · exact ⟨c, held, Option.some.inj text⟩
  · cases text

theorem sited_of_name {name : String} (stated : Stated root d) (text : source.textAs? d .name = some name) :
    Sited source root (name, d.line) := by
  obtain ⟨n, held, rfl⟩ := child_of_textAs text
  exact ⟨d, n, stated, .own held, rfl, rfl⟩

namespace Python

theorem named_functionOf {span : Node} {isMethod : Bool} {f : Function}
    (made : functionOf? source d span isMethod = some f) :
    source.textAs? d .name = some f.name ∧ f.lineStart = span.line := by
  obtain ⟨name, text, made⟩ := Option.bind_eq_some_iff.mp made
  obtain rfl := Option.some.inj made
  exact ⟨text, rfl⟩

theorem named_classOf {span : Node} {c : Class} (made : classOf? source d span = some c) :
    source.textAs? d .name = some c.name ∧ c.lineStart = span.line := by
  obtain ⟨name, text, made⟩ := Option.bind_eq_some_iff.mp made
  obtain rfl := Option.some.inj made
  exact ⟨text, rfl⟩

theorem sited_defined {span : Node} (stated : Stated root span)
    (names : ∀ n, d.child? .name = some n → Names span n) (placed : p ∈ (defined source d span).places) :
    Sited source root p := by
  have named {name : String} {line : Nat} (text : source.textAs? d .name = some name)
      (here : line = span.line) (same : p = (name, span.line)) : Sited source root p := by
    obtain ⟨n, held, rfl⟩ := child_of_textAs text
    exact ⟨span, n, stated, names n held, by rw [same], by rw [same]⟩
  rw [defined] at placed
  split at placed
  · split at placed
    · rename_i f made
      obtain ⟨text, here⟩ := named_functionOf made
      exact named text here (Findings.eq_of_mem_exported (by simp [here]) placed)
    · cases placed
  · split at placed
    · rename_i c made
      obtain ⟨text, here⟩ := named_classOf made
      exact named text here (Findings.eq_of_mem_exported (by simp [here]) placed)
    · cases placed
  · cases placed

theorem sited_statement (part : d ∈ root.parts) (placed : p ∈ (statement source d).places) :
    Sited source root p := by
  rw [statement] at placed
  split at placed
  · simp [imported] at placed
  · rw [importedFrom] at placed
    split at placed <;> cases placed
  · cases defined : d.child? .definition with
    | none =>
      rw [defined] at placed
      cases placed
    | some c =>
      rw [defined] at placed
      exact sited_defined (.top part) (fun n held => .decorated defined held) placed
  · rename_i kind
    split at placed
    · rename_i t first
      obtain rfl := List.mem_singleton.mp placed
      exact ⟨d, t, .top part, .alias kind first, rfl, rfl⟩
    · cases placed
  · exact sited_defined (.top part) (fun n held => .own held) placed

theorem sited_file (placed : p ∈ (file source root).places) : Sited source root p := by
  obtain ⟨d, part, placed⟩ := Findings.mem_places_concat.mp placed
  exact sited_statement part placed

end Python

namespace Rust

theorem named_functionOf {f : Function} (made : functionOf? source d = some f) :
    source.textAs? d .name = some f.name ∧ f.lineStart = d.line := by
  obtain ⟨name, text, made⟩ := Option.bind_eq_some_iff.mp made
  obtain rfl := Option.some.inj made
  exact ⟨text, rfl⟩

theorem sited_named (part : d ∈ root.parts) {f : String → Bool → Findings}
    (own : ∀ name exported, (f name exported).places = [(name, d.line)])
    (placed : p ∈ (named source d f).places) : Sited source root p := by
  rw [named] at placed
  split at placed
  · rename_i name text
    rw [Findings.eq_of_mem_exported (own name _) placed]
    exact sited_of_name (.top part) text
  · cases placed

theorem sited_item (part : d ∈ root.parts) (placed : p ∈ (item source d).places) : Sited source root p := by
  unfold item at placed
  split at placed
  · cases placed
  · split at placed <;> cases placed
  · split at placed
    · rename_i f made
      obtain ⟨text, here⟩ := named_functionOf made
      rw [Findings.eq_of_mem_exported (by simp [here]) placed]
      exact sited_of_name (.top part) text
    · cases placed
  · exact sited_named part (fun _ _ => rfl) placed
  · exact sited_named part (fun _ _ => rfl) placed
  · exact sited_named part (fun _ _ => rfl) placed
  · cases placed

theorem sited_file (placed : p ∈ (file source root).places) : Sited source root p := by
  rw [file, Findings.places_withClasses (Findings.places_attached _ _ _ _)] at placed
  obtain ⟨d, part, placed⟩ := Findings.mem_places_concat.mp placed
  exact sited_item part placed

end Rust

namespace Go

theorem named_functionOf {f : Function} (made : functionOf? source d = some f) :
    source.textAs? d .name = some f.name ∧ f.lineStart = d.line := by
  obtain ⟨name, text, made⟩ := Option.bind_eq_some_iff.mp made
  obtain rfl := Option.some.inj made
  exact ⟨text, rfl⟩

theorem sited_type (stated : Stated root d) (placed : p ∈ (typeFindings source d).places) :
    Sited source root p := by
  rw [typeFindings] at placed
  split at placed
  · cases placed
  · rename_i name text
    have same : p = (name, d.line) := by
      refine Findings.eq_of_mem_exported ?_ placed
      split <;> rfl
    rw [same]
    exact sited_of_name stated text

theorem sited_item (part : d ∈ root.parts) (placed : p ∈ (item source d).places) : Sited source root p := by
  unfold item at placed
  split at placed
  · cases placed
  · split at placed
    · rename_i f made
      obtain ⟨text, here⟩ := named_functionOf made
      rw [Findings.eq_of_mem_exported (by simp [here]) placed]
      exact sited_of_name (.top part) text
    · cases placed
  · obtain ⟨t, inside, placed⟩ := Findings.mem_places_concat.mp placed
    exact sited_type (.grouped part inside) placed
  · cases placed

theorem sited_file (placed : p ∈ (file source root).places) : Sited source root p := by
  rw [file, Findings.places_withClasses (Findings.places_attached _ _ _ _)] at placed
  obtain ⟨d, part, placed⟩ := Findings.mem_places_concat.mp placed
  exact sited_item part placed

end Go

namespace TypeScript

/-- The construct says the name, and starts on the line. -/
def Says (source : Source) (d : Node) (p : String × Nat) : Prop :=
  ∃ n, Names d n ∧ source.text n = p.1 ∧ d.line = p.2

theorem named_variableFunction {v : Node} {exported : Bool} {f : Function}
    (made : variableFunction? source d exported v = some f) :
    source.textAs? v .name = some f.name ∧ f.lineStart = d.line := by
  obtain ⟨value, -, made⟩ := Option.bind_eq_some_iff.mp made
  split at made
  · obtain ⟨name, text, made⟩ := Option.bind_eq_some_iff.mp made
    obtain rfl := Option.some.inj made
    exact ⟨text, rfl⟩
  · cases made

theorem says_named {f : String → Findings} (own : ∀ name, (f name).places = [(name, d.line)])
    (placed : p ∈ (named source d f).places) : Says source d p := by
  rw [named] at placed
  split at placed
  · rename_i name text
    rw [own, List.mem_singleton] at placed
    obtain ⟨n, held, rfl⟩ := child_of_textAs text
    exact ⟨n, .own held, by rw [placed], by rw [placed]⟩
  · cases placed

theorem says_declared {exported : Bool} (placed : p ∈ (declared source d exported).places) :
    Says source d p := by
  unfold declared at placed
  split at placed
  · exact says_named (fun _ => rfl) placed
  · exact says_named (fun _ => rfl) placed
  · exact says_named (fun _ => rfl) placed
  · exact says_named (fun _ => rfl) placed
  · obtain ⟨f, inside, rfl⟩ : ∃ f ∈ (d.partsOf .declarator).filterMap (variableFunction? source d exported),
        (f.name, f.lineStart) = p := by simpa [Findings.places, Findings.empty] using placed
    obtain ⟨v, member, made⟩ := List.mem_filterMap.mp inside
    obtain ⟨text, here⟩ := named_variableFunction made
    obtain ⟨n, held, same⟩ := child_of_textAs text
    exact ⟨n, .variable member held, same, here.symm⟩
  · cases placed

theorem names_exported {name : String} (inside : name ∈ exportedNames source d) :
    ∃ n, Names d n ∧ source.text n = name := by
  rw [exportedNames] at inside
  split at inside
  · obtain ⟨v, member, text⟩ := List.mem_filterMap.mp inside
    obtain ⟨n, held, same⟩ := child_of_textAs text
    exact ⟨n, .variable member held, same⟩
  · obtain ⟨line, placed⟩ := Findings.mem_names inside
    obtain ⟨n, named, same, -⟩ := says_declared placed
    exact ⟨n, named, same⟩

theorem text_binding {s : Node} {name : String} (bound : binding? source s = some name) :
    ∃ n, (s.child? .otherName = some n ∨ s.child? .name = some n) ∧ source.text n = name := by
  rw [binding?] at bound
  split at bound
  · rename_i a held
    exact ⟨a, Or.inl held, Option.some.inj bound⟩
  · obtain ⟨n, held, same⟩ := Option.map_eq_some_iff.mp bound
    exact ⟨n, Or.inr held, same⟩

theorem places_imported (n : Node) : (imported source n).places = [] := by
  rw [imported]
  split <;> rfl

theorem sited_exported (part : d ∈ root.parts) (placed : p ∈ (exported source d).places) :
    Sited source root p := by
  unfold exported at placed
  dsimp only at placed
  split at placed
  · rename_i c held
    rw [Findings.mem_places_append, Findings.mem_places_append, Findings.places_ofImports] at placed
    rcases placed with (none | within) | shown
    · cases none
    · split at within
      · rw [places_imported] at within
        cases within
      · obtain ⟨n, named, same, here⟩ := says_declared within
        exact ⟨c, n, .exported part held, named, same, here⟩
    · obtain ⟨e, inside, -, rfl⟩ := Findings.mem_places_ofExports.mp shown
      obtain ⟨name, among, rfl⟩ := List.mem_map.mp inside
      obtain ⟨n, named, same⟩ := names_exported among
      exact ⟨d, n, .top part, .exported held named, same, rfl⟩
  · rw [Findings.mem_places_append, Findings.places_ofImports] at placed
    rcases placed with none | shown
    · cases none
    · obtain ⟨e, inside, explicit, rfl⟩ := Findings.mem_places_ofExports.mp shown
      rcases List.mem_append.mp inside with listed | value
      · obtain ⟨name, among, rfl⟩ := List.mem_map.mp listed
        obtain ⟨s, member, bound⟩ := List.mem_filterMap.mp among
        obtain ⟨c, clause, member⟩ := List.mem_flatMap.mp member
        obtain ⟨n, named, same⟩ := text_binding bound
        exact ⟨d, n, .top part, .listed clause member named, same, rfl⟩
      · obtain ⟨v, -, rfl⟩ := List.mem_map.mp value
        cases explicit

theorem sited_file (placed : p ∈ (file source root).places) : Sited source root p := by
  obtain ⟨d, part, placed⟩ := Findings.mem_places_concat.mp placed
  unfold statement at placed
  split at placed
  · rw [places_imported] at placed
    cases placed
  · exact sited_exported part placed
  · obtain ⟨n, named, same, here⟩ := says_declared placed
    exact ⟨d, n, .top part, named, same, here⟩

end TypeScript

theorem sited_reading (language : Language) (placed : p ∈ ((reading language).findings source root).places) :
    Sited source root p := by
  cases language with
  | python => exact Python.sited_file placed
  | rust => exact Rust.sited_file placed
  | go => exact Go.sited_file placed
  | _ => exact TypeScript.sited_file placed

/- Where a name is written -/

/-- The span is on the row that it says, on one line, and no word character is next to it. -/
structure Apart (content : List Char) (s : Span) : Prop where
  row : s.row = (content.take s.start).count '\n'
  single : '\n' ∉ (content.drop s.start).take (s.stop - s.start)
  before : Text.inWord (content.take s.start).getLast? = false
  after : Text.inWord (content.drop s.stop).head? = false

theorem toList_text (content : String) (n : Node) : ((Source.ofString content).text n).toList =
    (content.toList.drop n.span.start).take (n.span.stop - n.span.start) := by
  simp [Source.text, Source.slice, Source.ofString]

theorem take_slice_drop (cs : List Char) {start stop : Nat} (forward : start ≤ stop) :
    cs.take start ++ (cs.drop start).take (stop - start) ++ cs.drop stop = cs := by
  have behind : (cs.drop start).drop (stop - start) = cs.drop stop := by
    rw [List.drop_drop, Nat.add_sub_cancel' forward]
  rw [← behind, List.append_assoc, List.take_append_drop, List.take_append_drop]

/-- A name that stands apart is a word of its line, if it starts and ends like one. -/
theorem holds_name {content : String} {n : Node} {name : String}
    (text : (Source.ofString content).text n = name) (apart : Apart content.toList n.span)
    (first : Text.inWord name.toList.head? = true) (last : Text.inWord name.toList.getLast? = true) :
    ∃ line, (Text.lines content)[n.span.row]? = some line ∧ Text.HoldsWord name.toList line.toList := by
  have slice := toList_text content n
  rw [text] at slice
  have forward : n.span.start ≤ n.span.stop := by
    by_contra backward
    rw [Nat.sub_eq_zero_of_le (Nat.le_of_not_le backward), List.take_zero] at slice
    rw [slice] at first
    cases first
  have alone := Text.alone_of_inWord first last apart.before apart.after
  obtain ⟨line, place, held⟩ := Text.exists_line (slice ▸ apart.single) alone
  rw [slice, take_slice_drop _ forward, ← apart.row] at place
  refine ⟨String.ofList line, ?_, ?_⟩
  · rw [Text.lines, Text.splitOn, List.getElem?_map, place]
    rfl
  · rwa [String.toList_ofList]

end Outline

end CodeAgent
