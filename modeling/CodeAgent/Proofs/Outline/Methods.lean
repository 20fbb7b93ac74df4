import CodeAgent.Proofs.Outline.Siting
import CodeAgent.Proofs.Text.Spacing
import Mathlib.Data.List.TakeWhile

/-! Methods that are written apart from their type.
They are gathered first, each with the name of a type, and go to the first class of that name. So a method
of a structure is in the outline once, under its name and on its lines; one of a type that is no structure
has no class to go to. -/
namespace CodeAgent

namespace Text

/-- The text is the name of a type, with nothing or the arguments of the type behind it. -/
structure Spells (type text : String) : Prop where
  neat : Neat type
  plain : '<' ∉ type.toList
  shape : ∃ before behind rest : String, text = before ++ type ++ behind ++ rest ∧
    (∀ c ∈ before.toList ++ behind.toList, isBlank c = true) ∧ ∀ c ∈ rest.toList.head?, c = '<'

theorem headD_pieces (sep : Char) (cs : List Char) :
    (pieces sep cs).headD [] = cs.takeWhile (· ≠ sep) := by
  induction cs with
  | nil => rfl
  | cons c cs ih =>
    rw [pieces]
    split
    · rename_i same
      simp [same]
    · rename_i other
      obtain ⟨p, ps, shape⟩ := List.exists_cons_of_ne_nil (pieces_ne_nil sep cs)
      rw [shape] at ih ⊢
      simp only [List.headD_cons] at ih ⊢
      rw [List.takeWhile_cons_of_pos (by simpa using other), ih]

theorem headD_splitOn (sep : Char) (s : String) :
    (splitOn sep s).headD "" = String.ofList (s.toList.takeWhile (· ≠ sep)) := by
  obtain ⟨p, ps, shape⟩ := List.exists_cons_of_ne_nil (pieces_ne_nil sep s.toList)
  have first := headD_pieces sep s.toList
  rw [shape, List.headD_cons] at first
  rw [splitOn, shape, List.map_cons, List.headD_cons, first]

/-- A text is its trimmed one with blanks around. -/
theorem exists_trim (s : String) : ∃ front back : String, s = front ++ trim s ++ back ∧
    ∀ c ∈ front.toList ++ back.toList, isBlank c = true := by
  refine ⟨String.ofList (s.toList.takeWhile isBlank),
    String.ofList ((trimStartChars s.toList).reverse.takeWhile isBlank).reverse, ?_, ?_⟩
  · apply String.ext
    have back : trimChars s.toList ++ ((trimStartChars s.toList).reverse.takeWhile isBlank).reverse =
        trimStartChars s.toList := by
      rw [trimChars, trimEndChars, dropEndWhile, ← List.reverse_append, List.takeWhile_append_dropWhile,
        List.reverse_reverse]
    simp only [String.toList_append, String.toList_ofList, trim, List.append_assoc, back]
    exact List.takeWhile_append_dropWhile.symm
  · intro c member
    simp only [String.toList_ofList, List.mem_append, List.mem_reverse] at member
    rcases member with front | back
    · exact List.mem_takeWhile_imp front
    · exact List.mem_takeWhile_imp back

/-- A type counts by its text as far as the bracket that opens its arguments, without the blanks around. -/
theorem spells_iff {type text : String} :
    Spells type text ↔ type ≠ "" ∧ trim ((splitOn '<' text).headD "") = type := by
  rw [headD_splitOn]
  constructor
  · rintro ⟨neat, plain, before, behind, rest, rfl, blank, opens⟩
    refine ⟨neat.some, ?_⟩
    have free : ∀ c ∈ (before ++ type ++ behind).toList, decide (c ≠ '<') = true := by
      intro c member
      rw [decide_eq_true_eq]
      rintro rfl
      simp only [String.toList_append, List.mem_append] at member blank
      rcases member with (front | within) | back
      · exact absurd (blank _ (Or.inl front)) (by decide)
      · exact plain within
      · exact absurd (blank _ (Or.inr back)) (by decide)
    have stops : rest.toList.takeWhile (· ≠ '<') = [] := by
      cases shape : rest.toList with
      | nil => rfl
      | cons c cs =>
        have bracket : c = '<' := opens c (by simp [shape])
        simp [bracket]
    rw [String.toList_append, List.takeWhile_append_of_pos free, stops, List.append_nil,
      String.ofList_toList, trim_surrounded, neat.trim]
    · exact fun c member => blank c (List.mem_append_left _ member)
    · exact fun c member => blank c (List.mem_append_right _ member)
  · rintro ⟨some, rfl⟩
    obtain ⟨before, behind, whole, blank⟩ := exists_trim (String.ofList (text.toList.takeWhile (· ≠ '<')))
    refine ⟨neat_trim some, ?_, before, behind, String.ofList (text.toList.dropWhile (· ≠ '<')), ?_,
      blank, ?_⟩
    · intro bracket
      have within : '<' ∈ text.toList.takeWhile (· ≠ '<') := by
        rw [← @String.toList_ofList (text.toList.takeWhile _), whole]
        simp only [String.toList_append, List.mem_append]
        exact Or.inl (Or.inr bracket)
      have other := List.mem_takeWhile_imp within
      simp at other
    · rw [← whole, ← String.ofList_append, List.takeWhile_append_dropWhile, String.ofList_toList]
    · intro c first
      rw [String.toList_ofList] at first
      have stops := List.head?_dropWhile_not (· ≠ '<') text.toList
      rw [Option.mem_def.mp first] at stops
      simpa using stops

instance (type text : String) : Decidable (Spells type text) := decidable_of_iff _ spells_iff.symm

end Text

namespace Findings

theorem functions_concat (fs : List Findings) : (concat fs).functions = fs.flatMap (·.functions) := by
  induction fs with
  | nil => rfl
  | cons f fs ih =>
    rw [List.flatMap_cons, ← ih]
    rfl

theorem classes_concat (fs : List Findings) : (concat fs).classes = fs.flatMap (·.classes) := by
  induction fs with
  | nil => rfl
  | cons f fs ih =>
    rw [List.flatMap_cons, ← ih]
    rfl

@[simp] theorem functions_append (a b : Findings) : (a ++ b).functions = a.functions ++ b.functions := rfl
@[simp] theorem classes_append (a b : Findings) : (a ++ b).classes = a.classes ++ b.classes := rfl

@[simp] theorem functions_exportIf (exported : Bool) (name : String) (line : Nat) :
    (exportIf exported name line).functions = [] := by cases exported <;> rfl

@[simp] theorem classes_exportIf (exported : Bool) (name : String) (line : Nat) :
    (exportIf exported name line).classes = [] := by cases exported <;> rfl

/- Methods in their classes -/

variable {type name : String} {methods : List Function} {cs : List Class}

/-- Gathers methods, one group after the other. -/
def attachAll (owned : List (String × List Function)) (cs : List Class) : List Class :=
  owned.foldl (fun cs o => attach o.1 o.2 cs) cs

/-- The methods that were gathered under one of the names. -/
def methodsFor (owned : List (String × List Function)) (types : List String) : List Function :=
  (owned.filter (·.1 ∈ types)).flatMap (·.2)

/-- What methods have no part in stays as it is. -/
theorem map_attach {α : Type} {g : Class → α} (blind : ∀ c ms, g { c with methods := ms } = g c)
    (name : String) (methods : List Function) (cs : List Class) :
    (attach name methods cs).map g = cs.map g := by
  induction cs with
  | nil => rfl
  | cons c cs ih =>
    rw [attach]
    split
    · rw [List.map_cons, List.map_cons, blind]
    · rw [List.map_cons, List.map_cons, ih]

theorem map_attachAll {α : Type} {g : Class → α} (blind : ∀ c ms, g { c with methods := ms } = g c)
    (owned : List (String × List Function)) (cs : List Class) :
    (attachAll owned cs).map g = cs.map g := by
  induction owned generalizing cs with
  | nil => rfl
  | cons o owned ih => exact (ih _).trans (map_attach blind o.1 o.2 cs)

theorem find?_attach (name type : String) (methods : List Function) (cs : List Class) :
    (attach name methods cs).find? (·.name = type) = (cs.find? (·.name = type)).map fun c =>
      if name = type then { c with methods := c.methods ++ methods } else c := by
  induction cs with
  | nil => rfl
  | cons c cs ih =>
    rw [attach]
    by_cases here : c.name = name
    · by_cases wanted : c.name = type
      · simp [here, here.symm.trans wanted]
      · have other : ¬ name = type := fun same => wanted (here.trans same)
        simp [here, other]
    · rw [if_neg here]
      by_cases wanted : c.name = type
      · have other : ¬ name = type := fun same => here (wanted.trans same.symm)
        simp [wanted, other]
      · simp [wanted, ih]

/-- The first class of a name gets all that is gathered under the name. -/
theorem find?_attachAll (owned : List (String × List Function)) (type : String) (cs : List Class) :
    (attachAll owned cs).find? (·.name = type) = (cs.find? (·.name = type)).map fun c =>
      { c with methods := c.methods ++ methodsFor owned [type] } := by
  induction owned generalizing cs with
  | nil => simp [attachAll, methodsFor]
  | cons o owned ih =>
    have rest := ih (attach o.1 o.2 cs)
    rw [attachAll, List.foldl_cons, ← attachAll, rest, find?_attach, Option.map_map]
    congr 1
    funext c
    by_cases same : o.1 = type <;> simp [methodsFor, same]

theorem perm_attach (name : String) (methods : List Function) (cs : List Class) :
    ((attach name methods cs).flatMap (·.methods)).Perm
      (cs.flatMap (·.methods) ++ if name ∈ cs.map (·.name) then methods else []) := by
  induction cs with
  | nil => simp [attach]
  | cons c cs ih =>
    rw [attach]
    by_cases here : c.name = name
    · simp only [here, List.flatMap_cons, List.map_cons, List.mem_cons_self, if_true, List.append_assoc]
      exact (List.perm_append_comm).append_left _
    · have elsewhere : name ∈ (c :: cs).map (·.name) ↔ name ∈ cs.map (·.name) := by
        simp [Ne.symm here]
      simp only [if_neg here, List.flatMap_cons, elsewhere, List.append_assoc]
      exact ih.append_left _

/-- No class gets more, and nothing is lost under a name that some class has. -/
theorem perm_attachAll (owned : List (String × List Function)) (cs : List Class) :
    ((attachAll owned cs).flatMap (·.methods)).Perm
      (cs.flatMap (·.methods) ++ methodsFor owned (cs.map (·.name))) := by
  induction owned generalizing cs with
  | nil => simp [attachAll, methodsFor]
  | cons o owned ih =>
    have rest := ih (attach o.1 o.2 cs)
    rw [map_attach fun _ _ => rfl] at rest
    have step := (perm_attach o.1 o.2 cs).append_right (methodsFor owned (cs.map (·.name)))
    refine (rest.trans step).trans (List.Perm.of_eq ?_)
    rw [methodsFor, methodsFor]
    by_cases known : o.1 ∈ cs.map (·.name)
    · rw [if_pos known, List.filter_cons_of_pos (by simpa using known), List.flatMap_cons,
        List.append_assoc]
    · rw [if_neg known, List.filter_cons_of_neg (by simpa using known), List.append_nil]

end Findings

namespace Outline

open Syntax

/-- How a language writes structures, and the methods apart from them. -/
structure MethodStyle where
  /-- The constructs of a file that define structures. -/
  structures : Node → List Node
  /-- Whether a construct is there for the type with this name. -/
  isFor : Source → String → Node → Bool
  /-- The functions that such a construct has as methods. -/
  members : Node → List Node

def isNamed (source : Source) (n : Node) : Bool := (source.textAs? n .name).isSome

namespace MethodStyle

variable (style : MethodStyle) (source : Source)

def structureNames (root : Node) : List String :=
  (style.structures root).filterMap (source.textAs? · .name)

def isForAny (types : List String) (n : Node) : Bool := types.any (style.isFor source · n)

/-- The methods of these types, those without a name apart, in the order of the file. -/
def methodsOf (types : List String) (ns : List Node) : List Node :=
  ((ns.filter (style.isForAny source types)).flatMap style.members).filter (isNamed source)

end MethodStyle

/-- The outline says the name of the construct, and its lines. -/
structure Writes (source : Source) (n : Node) (f : Function) : Prop where
  name : source.textAs? n .name = some f.name
  first : f.lineStart = n.line
  last : f.lineEnd = n.lastLine

/-- The functions of an outline are those of the file. Its classes are the structures, the first one of a
name with all methods of the name, in order. Each method of a structure is there once, and can be found. -/
structure KeepsMethods (style : MethodStyle) (source : Source) (root : Node) (o : Outline) : Prop where
  functions : List.Forall₂ (Writes source)
    ((root.partsOf .functionDeclaration).filter (isNamed source)) o.functions
  classes : o.classes.map (·.name) = style.structureNames source root
  placed : ∀ type ∈ style.structureNames source root, ∃ c, o.classes.find? (·.name = type) = some c ∧
    List.Forall₂ (Writes source) (style.methodsOf source [type] root.parts) c.methods
  once : ∃ fs,
    List.Forall₂ (Writes source) (style.methodsOf source (style.structureNames source root) root.parts) fs ∧
      fs.Perm (o.classes.flatMap (·.methods))
  found : ∀ n ∈ style.methodsOf source (style.structureNames source root) root.parts,
    ∃ f, source.textAs? n .name = some f.name ∧ o.findFunction? f.name = some f

/-- What is gathered from a construct: its members, under the name of the type that it is for. -/
structure Gathers (style : MethodStyle) (source : Source) (n : Node)
    (group : Option (String × List Function)) : Prop where
  some : ∀ g ∈ group, (∀ type ≠ "", style.isFor source type n = true ↔ g.1 = type) ∧
    List.Forall₂ (Writes source) ((style.members n).filter (isNamed source)) g.2
  none : group = none → ∀ type, style.isFor source type n = true →
    (style.members n).filter (isNamed source) = []

section

variable {source : Source} {root : Node} {style : MethodStyle} {gather : Node → Option (String × List Function)}

theorem ne_empty_of_textAs {n : Node} {role : Syntax.Role} {name : String}
    (text : source.textAs? n role = some name) : name ≠ "" := by
  rw [Source.textAs?] at text
  split at text
  · dsimp only at text
    split at text
    · cases text
    · rename_i filled
      rw [← Option.some.inj text]
      simpa using filled
  · cases text

theorem MethodStyle.empty_not_mem_structureNames : "" ∉ style.structureNames source root := by
  intro member
  obtain ⟨n, -, text⟩ := List.mem_filterMap.mp member
  exact ne_empty_of_textAs text rfl

theorem forall₂_methodsOf {types : List String} (filled : "" ∉ types) (ns : List Node)
    (gathers : ∀ n ∈ ns, Gathers style source n (gather n)) :
    List.Forall₂ (Writes source) (style.methodsOf source types ns)
      (Findings.methodsFor (ns.filterMap gather) types) := by
  induction ns with
  | nil => exact List.Forall₂.nil
  | cons n ns ih =>
    have rest := ih fun x member => gathers x (List.mem_cons_of_mem n member)
    have here := gathers n List.mem_cons_self
    rw [MethodStyle.methodsOf, Findings.methodsFor] at rest ⊢
    cases group : gather n with
    | none =>
      rw [List.filterMap_cons_none group]
      by_cases wanted : style.isForAny source types n = true
      · obtain ⟨type, -, isFor⟩ := List.any_eq_true.mp wanted
        rw [List.filter_cons_of_pos wanted, List.flatMap_cons, List.filter_append,
          here.none group type isFor, List.nil_append]
        exact rest
      · rw [List.filter_cons_of_neg wanted]
        exact rest
    | some g =>
      obtain ⟨isFor, same⟩ := here.some g group
      have wanted : style.isForAny source types n = true ↔ g.1 ∈ types := by
        rw [MethodStyle.isForAny, List.any_eq_true]
        constructor
        · rintro ⟨type, member, yes⟩
          have filled : type ≠ "" := fun none => filled (none ▸ member)
          rwa [(isFor type filled).mp yes]
        · intro member
          have filled : g.1 ≠ "" := fun none => filled (none ▸ member)
          exact ⟨g.1, member, (isFor g.1 filled).mpr rfl⟩
      rw [List.filterMap_cons_some group]
      by_cases member : g.1 ∈ types
      · rw [List.filter_cons_of_pos (wanted.mpr member), List.flatMap_cons, List.filter_append,
          List.filter_cons_of_pos (by simpa using member), List.flatMap_cons]
        exact List.rel_append same rest
      · rw [List.filter_cons_of_neg (mt wanted.mp member), List.filter_cons_of_neg (by simpa using member)]
        exact rest

theorem exists_of_forall₂ {α β : Type} {r : α → β → Prop} {as : List α} {bs : List β} {a : α}
    (related : List.Forall₂ r as bs) (member : a ∈ as) : ∃ b ∈ bs, r a b := by
  induction related with
  | nil => cases member
  | @cons x y _ _ first _ ih =>
    rcases List.mem_cons.mp member with rfl | later
    · exact ⟨y, List.mem_cons_self, first⟩
    · obtain ⟨b, among, second⟩ := ih later
      exact ⟨b, List.mem_cons_of_mem y among, second⟩

theorem exists_findFunction? {o : Outline} {c : Class} {f : Function} (inside : c ∈ o.classes)
    (member : f ∈ c.methods) : ∃ g, g.name = f.name ∧ o.findFunction? f.name = some g := by
  rw [findFunction?]
  split
  · rename_i g top
    exact ⟨g, by simpa using List.find?_some top, rfl⟩
  · have among : f ∈ o.classes.flatMap (·.methods) := List.mem_flatMap.mpr ⟨c, inside, member⟩
    obtain ⟨g, first⟩ := Option.isSome_iff_exists.mp
      (List.find?_isSome.mpr ⟨f, among, by simp⟩ :
        ((o.classes.flatMap (·.methods)).find? (·.name = f.name)).isSome = true)
    exact ⟨g, by simpa using List.find?_some first, first⟩

variable {found : Findings} {owned : List (String × List Function)} {language : String}
  {problem : Option Nat}

theorem keepsMethods (bare : ∀ c ∈ found.classes, c.methods = [])
    (functions : List.Forall₂ (Writes source)
      ((root.partsOf .functionDeclaration).filter (isNamed source)) found.functions)
    (classes : found.classes.map (·.name) = style.structureNames source root)
    (gathers : ∀ n ∈ root.parts, Gathers style source n (gather n)) :
    KeepsMethods style source root (.of language
      { found with classes := Findings.attachAll (root.parts.filterMap gather) found.classes } problem) := by
  set owned := root.parts.filterMap gather with gathered
  have names : (Findings.attachAll owned found.classes).map (·.name) = style.structureNames source root := by
    rw [Findings.map_attachAll fun _ _ => rfl, classes]
  have none : found.classes.flatMap (·.methods) = [] := by
    rw [List.flatMap_eq_nil_iff]
    exact bare
  have placed : ∀ type ∈ style.structureNames source root, ∃ c,
      (Findings.attachAll owned found.classes).find? (·.name = type) = some c ∧
      List.Forall₂ (Writes source) (style.methodsOf source [type] root.parts) c.methods := by
    intro type member
    have filled : "" ∉ [type] := by
      rintro one
      exact MethodStyle.empty_not_mem_structureNames (List.mem_singleton.mp one ▸ member)
    obtain ⟨c, inside, named⟩ := List.mem_map.mp (classes ▸ member)
    obtain ⟨d, first⟩ := Option.isSome_iff_exists.mp
      (List.find?_isSome.mpr ⟨c, inside, by simpa using named⟩ :
        (found.classes.find? (·.name = type)).isSome = true)
    refine ⟨_, by rw [Findings.find?_attachAll, first, Option.map_some], ?_⟩
    rw [bare d (List.mem_of_find?_eq_some first), List.nil_append]
    exact forall₂_methodsOf filled root.parts gathers
  have methods : List.Forall₂ (Writes source)
      (style.methodsOf source (style.structureNames source root) root.parts)
      (Findings.methodsFor owned (style.structureNames source root)) :=
    forall₂_methodsOf MethodStyle.empty_not_mem_structureNames root.parts gathers
  have all := Findings.perm_attachAll owned found.classes
  rw [none, List.nil_append, classes] at all
  refine ⟨functions, names, placed, ⟨_, methods, all.symm⟩, ?_⟩
  · intro n member
    obtain ⟨f, among, written⟩ := exists_of_forall₂ methods member
    obtain ⟨c, inside, method⟩ := List.mem_flatMap.mp ((all.mem_iff).mpr among)
    obtain ⟨g, same, first⟩ := @exists_findFunction?
      (.of language { found with classes := Findings.attachAll owned found.classes } problem) c f inside method
    rw [← same] at first
    exact ⟨g, by rw [same, written.name], first⟩

end

/- Two languages -/

section

variable {source : Source} {root n : Node} {f : Function}

/-- A way to read functions off constructs: each that has a name is one, with its name and its lines. -/
structure Reads (source : Source) (read : Node → Option Function) : Prop where
  some : ∀ n f, read n = some f → Writes source n f
  none : ∀ n, read n = none → isNamed source n = false

variable {read : Node → Option Function}

theorem Reads.forall₂ (reads : Reads source read) (ns : List Node) :
    List.Forall₂ (Writes source) (ns.filter (isNamed source)) (ns.filterMap read) := by
  induction ns with
  | nil => exact List.Forall₂.nil
  | cons n ns ih =>
    cases made : read n with
    | none =>
      rw [List.filterMap_cons_none made, List.filter_cons_of_neg (by simp [reads.none n made])]
      exact ih
    | some f =>
      have written := reads.some n f made
      have named : isNamed source n = true := by rw [isNamed, written.name, Option.isSome_some]
      rw [List.filterMap_cons_some made, List.filter_cons_of_pos named]
      exact List.Forall₂.cons written ih

theorem flatMap_filter {α β : Type} (p : α → Bool) (f : α → List β) (as : List α) :
    (as.filter p).flatMap f = as.flatMap fun a => if p a then f a else [] := by
  induction as with
  | nil => rfl
  | cons a as ih =>
    rw [List.flatMap_cons, ← ih]
    by_cases pass : p a = true <;> simp [pass]

/-- Functions that are read off the function declarations alone. -/
theorem Reads.forall₂_functions (reads : Reads source read) {item : Node → Findings}
    (functions : ∀ n, (item n).functions = if n.kind = .functionDeclaration then (read n).toList else []) :
    List.Forall₂ (Writes source) ((root.partsOf .functionDeclaration).filter (isNamed source))
      (Findings.concat (root.parts.map item)).functions := by
  have read : (Findings.concat (root.parts.map item)).functions =
      (root.partsOf .functionDeclaration).filterMap read := by
    rw [Findings.functions_concat, List.flatMap_map, Node.partsOf, List.filterMap_eq_flatMap_toList,
      flatMap_filter]
    simp only [functions, decide_eq_true_eq]
  rw [read]
  exact reads.forall₂ _

end

namespace Rust

variable {source : Source} {root : Node}

/-- Structures and unions; the functions in the body of an implementation belong to the type that it
names, whatever arguments it gives it. -/
def methodStyle : MethodStyle where
  structures root := root.partsOf .structItem
  isFor source type n :=
    n.kind = .implItem && (n.child? .type).any fun t => Text.Spells type (source.text t)
  members n := ((n.child? .body).map (·.partsOf .functionDeclaration)).getD []

theorem reads_functionOf : Reads source (functionOf? source) where
  some n f made := by
    obtain ⟨text, first⟩ := named_functionOf made
    obtain ⟨name, -, made⟩ := Option.bind_eq_some_iff.mp made
    obtain rfl := Option.some.inj made
    exact ⟨text, first, rfl⟩
  none n made := by
    rw [isNamed]
    cases text : source.textAs? n .name with
    | none => rfl
    | some name => simp [functionOf?, text] at made

theorem functions_named {n : Node} {f : String → Bool → Findings}
    (bare : ∀ name exported, (f name exported).functions = []) : (named source n f).functions = [] := by
  rw [named]
  split
  · simp [bare]
  · rfl

theorem classes_named {n : Node} {f : String → Bool → Findings}
    (bare : ∀ name exported, (f name exported).classes = []) : (named source n f).classes = [] := by
  rw [named]
  split
  · simp [bare]
  · rfl

theorem functions_item (n : Node) : (item source n).functions =
    if n.kind = .functionDeclaration then (functionOf? source n).toList else [] := by
  unfold item
  split <;> rename_i kind
  · simp [kind, Findings.ofImports, Findings.empty]
  · simp only [kind, reduceCtorEq, if_false]
    split <;> rfl
  · rw [if_pos kind]
    split <;> rename_i made <;> simp [made, Findings.ofFunction, Findings.empty]
  · simp only [kind, reduceCtorEq, if_false]
    exact functions_named fun _ _ => rfl
  · simp only [kind, reduceCtorEq, if_false]
    exact functions_named fun _ _ => rfl
  · simp only [kind, reduceCtorEq, if_false]
    exact functions_named fun _ _ => rfl
  · rename_i other _ _
    rw [if_neg other]
    rfl

/-- A class comes from a structure, and has no methods yet. -/
theorem classes_item (n : Node) : (item source n).classes =
    if n.kind = .structItem then
      ((source.textAs? n .name).map fun name => ⟨name, n.line, n.lastLine, [], none, isExported n⟩).toList
    else [] := by
  unfold item
  split <;> rename_i kind
  · simp [kind, Findings.ofImports, Findings.empty]
  · simp only [kind, reduceCtorEq, if_false]
    split <;> rfl
  · simp only [kind, reduceCtorEq, if_false]
    split <;> simp [Findings.ofFunction, Findings.empty]
  · rw [if_pos kind, named]
    split <;> rename_i text <;> simp [text, Findings.ofClass, Findings.empty]
  · simp only [kind, reduceCtorEq, if_false]
    exact classes_named fun _ _ => rfl
  · simp only [kind, reduceCtorEq, if_false]
    exact classes_named fun _ _ => rfl
  · rename_i other _
    rw [if_neg other]
    rfl

theorem names_classes (root : Node) :
    (Findings.concat (root.parts.map (item source))).classes.map (·.name) =
      methodStyle.structureNames source root := by
  change _ = (root.partsOf .structItem).filterMap (source.textAs? · .name)
  rw [Findings.classes_concat, List.flatMap_map, List.map_flatMap, Node.partsOf,
    List.filterMap_eq_flatMap_toList, flatMap_filter]
  apply List.flatMap_congr
  intro n _
  rw [classes_item]
  by_cases kind : n.kind = .structItem
  · cases source.textAs? n .name <;> simp [kind]
  · simp [kind]

/-- The implementation is gathered if it is one. -/
def gather (source : Source) (n : Node) : Option (String × List Function) :=
  if n.kind = .implItem then implemented? source n else none

theorem gathers (n : Node) : Gathers methodStyle source n (gather source n) where
  some g made := by
    rw [gather] at made
    split at made
    · rename_i kind
      obtain ⟨type, typed, made⟩ := Option.bind_eq_some_iff.mp made
      obtain ⟨body, held, made⟩ := Option.bind_eq_some_iff.mp made
      obtain rfl := Option.some.inj made
      constructor
      · intro name filled
        simp [methodStyle, kind, typed, Text.spells_iff, filled]
      · simp only [methodStyle, held, Option.map_some, Option.getD_some]
        exact reads_functionOf.forall₂ _
    · cases made
  none made type isFor := by
    simp only [methodStyle, Bool.and_eq_true, decide_eq_true_eq, Option.any_eq_true] at isFor
    obtain ⟨kind, t, typed, -⟩ := isFor
    rw [gather, if_pos kind, implemented?, typed] at made
    cases held : n.child? .body with
    | none => simp [methodStyle, held]
    | some body => simp [held] at made

theorem file_eq (source : Source) (root : Node) :
    file source root = { Findings.concat (root.parts.map (item source)) with
      classes := Findings.attachAll (root.parts.filterMap (gather source))
        (Findings.concat (root.parts.map (item source))).classes } := by
  rw [file, Node.partsOf, List.filterMap_filter]
  simp only [decide_eq_true_eq]
  rfl

theorem keeps_methods (root : Node) (problem : Option Nat) :
    KeepsMethods methodStyle source root (.of Language.rust.name (file source root) problem) := by
  rw [file_eq]
  refine keepsMethods ?_ (reads_functionOf.forall₂_functions functions_item) (names_classes root)
    fun n _ => gathers n
  intro c member
  rw [Findings.classes_concat, List.flatMap_map] at member
  obtain ⟨n, -, inside⟩ := List.mem_flatMap.mp member
  rw [classes_item] at inside
  split at inside
  · obtain ⟨name, -, rfl⟩ := by simpa using inside
    rfl
  · cases inside

end Rust

namespace Go

variable {source : Source} {root : Node}

def isStructure (spec : Node) : Bool :=
  spec.kind = .typeSpec && (spec.child? .type).any (·.kind = .structType)

/-- A method belongs to the type that its receiver names first. -/
def methodStyle : MethodStyle where
  structures root := (root.partsOf .typeDeclaration).flatMap (·.parts.filter isStructure)
  isFor source type n :=
    n.kind = .methodDeclaration &&
      ((n.child? .receiver).bind (·.find? .typeIdentifier)).any (source.text · = type)
  members n := [n]

theorem reads_functionOf : Reads source (functionOf? source) where
  some n f made := by
    obtain ⟨text, first⟩ := named_functionOf made
    obtain ⟨name, -, made⟩ := Option.bind_eq_some_iff.mp made
    obtain rfl := Option.some.inj made
    exact ⟨text, first, rfl⟩
  none n made := by
    rw [isNamed]
    cases text : source.textAs? n .name with
    | none => rfl
    | some name => simp [functionOf?, text] at made

theorem functions_type (spec : Node) : (typeFindings source spec).functions = [] := by
  rw [typeFindings]
  split
  · rfl
  · rw [Findings.functions_append, exportOf, Findings.functions_exportIf, List.nil_append]
    split <;> rfl

theorem classes_type (spec : Node) : (typeFindings source spec).classes =
    if isStructure spec then
      ((source.textAs? spec .name).map fun name =>
        ⟨name, spec.line, spec.lastLine, [], none, isExported name⟩).toList
    else [] := by
  rw [typeFindings]
  split
  · rename_i none
    simp [none, Findings.empty]
  · rename_i name text
    rw [Findings.classes_append, exportOf, Findings.classes_exportIf, List.nil_append, text, isStructure]
    by_cases kind : spec.kind = .typeSpec
    · cases type : spec.child? .type with
      | none => simp [Findings.ofType, Findings.empty]
      | some t =>
        simp only [kind, if_true, Option.map_some, Option.any_some, decide_true, Bool.true_and,
          decide_eq_true_eq]
        split <;> rename_i same
        · simp [Option.some.inj same, Findings.ofClass]
        · simp [Option.some.inj same, Findings.ofInterface, Findings.empty]
        · rename_i other
          rw [if_neg fun struct => other (congrArg some struct)]
          rfl
    · simp [kind, Findings.ofType, Findings.empty]

theorem functions_item (n : Node) : (item source n).functions =
    if n.kind = .functionDeclaration then (functionOf? source n).toList else [] := by
  unfold item
  split <;> rename_i kind
  · simp [kind, Findings.ofImports, Findings.empty]
  · rw [if_pos kind]
    split <;> rename_i made <;> simp [made, exportOf, Findings.ofFunction, Findings.empty]
  · simp [kind, Findings.functions_concat, functions_type]
  · rename_i other
    rw [if_neg other]
    rfl

theorem classes_item (n : Node) : (item source n).classes =
    if n.kind = .typeDeclaration then n.parts.flatMap fun spec => (typeFindings source spec).classes
    else [] := by
  unfold item
  split <;> rename_i kind
  · simp [kind, Findings.ofImports, Findings.empty]
  · simp only [kind, reduceCtorEq, if_false]
    split <;> simp [exportOf, Findings.ofFunction, Findings.empty]
  · rw [if_pos kind, Findings.classes_concat, List.flatMap_map]
  · rw [if_neg kind]
    rfl

theorem names_classes (root : Node) :
    (Findings.concat (root.parts.map (item source))).classes.map (·.name) =
      methodStyle.structureNames source root := by
  change _ = ((root.partsOf .typeDeclaration).flatMap (·.parts.filter isStructure)).filterMap
    (source.textAs? · .name)
  rw [Findings.classes_concat, List.flatMap_map, List.map_flatMap, Node.partsOf, List.filterMap_flatMap,
    flatMap_filter]
  apply List.flatMap_congr
  intro n _
  rw [classes_item]
  by_cases kind : n.kind = .typeDeclaration
  · rw [if_pos kind, if_pos (by simpa using kind), List.map_flatMap, List.filterMap_eq_flatMap_toList,
      flatMap_filter]
    apply List.flatMap_congr
    intro spec _
    rw [classes_type]
    by_cases struct : isStructure spec = true
    · cases source.textAs? spec .name <;> simp [struct]
    · simp [struct]
  · simp [kind]

/-- The method is gathered if it is one, alone. -/
def gather (source : Source) (n : Node) : Option (String × List Function) :=
  if n.kind = .methodDeclaration then (method? source n).map fun m => (m.1, [m.2]) else none

theorem gathers (n : Node) : Gathers methodStyle source n (gather source n) where
  some g made := by
    rw [gather] at made
    split at made
    · rename_i kind
      obtain ⟨m, method, rfl⟩ := Option.map_eq_some_iff.mp made
      obtain ⟨receiver, received, method⟩ := Option.bind_eq_some_iff.mp method
      obtain ⟨type, typed, method⟩ := Option.bind_eq_some_iff.mp method
      obtain ⟨f, read, same⟩ := Option.bind_eq_some_iff.mp method
      obtain rfl := Option.some.inj same
      constructor
      · intro name filled
        simp [methodStyle, kind, received, typed]
      · change List.Forall₂ (Writes source) ([n].filter (isNamed source)) [f]
        have alone : [n].filterMap (functionOf? source) = [f] := List.filterMap_cons_some read
        rw [← alone]
        exact reads_functionOf.forall₂ [n]
    · cases made
  none made type isFor := by
    simp only [methodStyle, Bool.and_eq_true, decide_eq_true_eq, Option.any_eq_true,
      Option.bind_eq_some_iff] at isFor
    obtain ⟨kind, t, ⟨receiver, received, typed⟩, -⟩ := isFor
    rw [gather, if_pos kind, method?, received] at made
    cases read : functionOf? source n with
    | none => simp [methodStyle, reads_functionOf.none n read]
    | some f => simp [typed, read] at made

theorem file_eq (source : Source) (root : Node) :
    file source root = { Findings.concat (root.parts.map (item source)) with
      classes := Findings.attachAll (root.parts.filterMap (gather source))
        (Findings.concat (root.parts.map (item source))).classes } := by
  have gathered : root.parts.filterMap (gather source) =
      ((root.partsOf .methodDeclaration).filterMap (method? source)).map fun m => (m.1, [m.2]) := by
    rw [Node.partsOf, List.map_filterMap, List.filterMap_filter]
    simp only [decide_eq_true_eq]
    rfl
  rw [file, gathered, Findings.attachAll, List.foldl_map]

theorem keeps_methods (root : Node) (problem : Option Nat) :
    KeepsMethods methodStyle source root (.of Language.go.name (file source root) problem) := by
  rw [file_eq]
  refine keepsMethods ?_ (reads_functionOf.forall₂_functions functions_item) (names_classes root)
    fun n _ => gathers n
  intro c member
  rw [Findings.classes_concat, List.flatMap_map] at member
  obtain ⟨n, -, inside⟩ := List.mem_flatMap.mp member
  rw [classes_item] at inside
  split at inside
  · obtain ⟨spec, -, inside⟩ := List.mem_flatMap.mp inside
    rw [classes_type] at inside
    split at inside
    · obtain ⟨name, -, rfl⟩ := by simpa using inside
      rfl
    · cases inside
  · cases inside

end Go

/-- Whatever a file is, each method of a structure of it is in its outline once, among the methods of the
first class with the name of the structure, with its name and its lines, and can be found there. -/
theorem keeps_every_method (source : Source) (root : Node) (problem : Option Nat) :
    KeepsMethods Rust.methodStyle source root
      (.of Language.rust.name ((reading .rust).findings source root) problem) ∧
    KeepsMethods Go.methodStyle source root
      (.of Language.go.name ((reading .go).findings source root) problem) :=
  ⟨Rust.keeps_methods root problem, Go.keeps_methods root problem⟩

/-- An enumeration with a method. -/
def enumeration : String := "enum E \x7b A \x7d\nimpl E \x7b\n    fn f(&self) \x7b\x7d\n\x7d\n"

/-- A type with a method that is another name for whole numbers. -/
def numeric : String := "package p\n\ntype T int\n\nfunc (t T) M() \x7b\x7d\n"

/-- The type is defined in the file and the method is one of it, but the type is no structure. -/
theorem method_lost :
    ((Rust.tree enumeration).root.partsOf .aliasItem).map ((Source.ofString enumeration).textAs? · .name) =
        [some "E"] ∧
      (Rust.methodStyle.methodsOf (.ofString enumeration) ["E"] (Rust.tree enumeration).root.parts).map
        ((Source.ofString enumeration).textAs? · .name) = [some "f"] ∧
      (ofFile .rust enumeration).types = [⟨"E", 1, false⟩] ∧
      (ofFile .rust enumeration).findFunction? "f" = none ∧
    (Go.methodStyle.methodsOf (.ofString numeric) ["T"] (Go.tree numeric).root.parts).map
        ((Source.ofString numeric).textAs? · .name) = [some "M"] ∧
      (ofFile .go numeric).types = [⟨"T", 3, true⟩] ∧
      (ofFile .go numeric).findFunction? "M" = none := by
  decide +kernel

end Outline

end CodeAgent
