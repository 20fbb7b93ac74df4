import CodeAgent.Proofs.Act.Trace
import CodeAgent.Proofs.Path.Settling
import CodeAgent.Tool.Analysis
import CodeAgent.Tool.Search

/-! Tools that survey the files of the index under a path.
A path selects the records at its names and below them, whatever its spelling, and a directory's records
are those of its members, each of one member. The root has no names: behind it a slash is looked for, and
so a path that leads there selects nothing of a project, where no path selects everything. -/
namespace CodeAgent

namespace Path

/-- A path at these names, or below them. -/
def AtOrBelow (names : List String) (path : String) : Prop := names <+: Text.splitOn '/' path

instance (names : List String) (path : String) : Decidable (AtOrBelow names path) :=
  inferInstanceAs (Decidable (names <+: Text.splitOn '/' path))

/-- No name at all, or nothing in front of the first slash; a file of a project has a name. -/
def Nameless (path : String) : Prop := path = "" ∨ Text.startsWith path "/" = true

instance (path : String) : Decidable (Nameless path) :=
  inferInstanceAs (Decidable (path = "" ∨ Text.startsWith path "/" = true))

theorem splitOn_slashed {names : List String} (named : ∀ n ∈ names, Named n) (some : names ≠ []) :
    Text.splitOn '/' (slashed names) = names := by
  rw [Text.splitOn, toList_slashed, pieces_names named some, List.map_map]
  simp

theorem atOrBelow_iff {names : List String} (named : ∀ n ∈ names, Named n) (some : names ≠ [])
    (path : String) :
    AtOrBelow names path ↔
      path = slashed names ∨ Text.startsWith path (slashed names ++ "/") = true := by
  have own := splitOn_slashed named some
  rw [Text.splitOn] at own
  rw [AtOrBelow, Text.splitOn, Text.startsWith, List.isPrefixOf_iff_prefix]
  constructor
  · rintro ⟨rest, whole⟩
    have pieces : names.map String.toList ++ rest.map String.toList = Text.pieces '/' path.toList := by
      have letters := congrArg (List.map String.toList) whole
      rw [List.map_map, List.map_append] at letters
      simpa using letters
    have text := Text.join_pieces '/' path.toList
    rw [← pieces] at text
    by_cases last : rest = []
    · left
      rw [last, List.map_nil, List.append_nil, ← toList_slashed] at text
      exact String.toList_inj.mp text.symm
    · right
      rw [Text.join_append '/' (by simpa using some) (by simpa using last), ← toList_slashed] at text
      exact ⟨Text.join '/' (rest.map String.toList), by simpa using text⟩
  · rintro (rfl | ⟨rest, text⟩)
    · exact own.symm ▸ List.prefix_refl names
    · have behind : path.toList = (slashed names).toList ++ '/' :: rest := by simpa using text.symm
      rw [behind, Text.pieces_append_cons, List.map_append, own]
      exact List.prefix_append _ _

theorem atOrBelow_slashed {names file : List String} (named : ∀ n ∈ file, Named n) (some : file ≠ []) :
    AtOrBelow names (slashed file) ↔ names <+: file := by
  rw [AtOrBelow, splitOn_slashed named some]

/-- Below a directory a path is the directory's own, or it belongs to just one of its members. -/
theorem atOrBelow_split (names : List String) (path : String) :
    AtOrBelow names path ↔
      Text.splitOn '/' path = names ∨ ∃! n, AtOrBelow (names ++ [n]) path := by
  unfold AtOrBelow
  constructor
  · rintro ⟨rest, whole⟩
    cases rest with
    | nil => exact Or.inl (by rw [← whole, List.append_nil])
    | cons n rest =>
      refine Or.inr ⟨n, ⟨rest, by rw [← whole, List.append_assoc, List.singleton_append]⟩, ?_⟩
      rintro m ⟨rest', other⟩
      rw [← whole, List.append_assoc] at other
      exact (List.cons.inj (List.append_cancel_left other)).1
  · rintro (same | ⟨n, below, -⟩)
    · exact same.symm ▸ List.prefix_refl names
    · exact (List.prefix_append names [n]).trans below

theorem not_nameless {names : List String} (named : ∀ n ∈ names, Named n) (some : names ≠ []) :
    ¬ Nameless (slashed names) := by
  obtain ⟨n, rest, rfl⟩ := List.exists_cons_of_ne_nil some
  have first := head_slashed (named n List.mem_cons_self) rest
  rintro (empty | slash)
  · have letters := congrArg String.toList empty
    obtain ⟨c, cs, shape⟩ := List.exists_cons_of_ne_nil (named n List.mem_cons_self).nonempty
    rw [toList_slashed] at letters
    cases rest <;> simp [Text.join, shape] at letters
  · rw [Text.startsWith, List.isPrefixOf_iff_prefix] at slash
    obtain ⟨rest', text⟩ := slash
    rw [← text] at first
    exact first rfl

end Path

namespace Tool

open CodeAgent.Path

/-- A tool that goes through the files of the index: what it is asked besides a path, in which order it
takes the files, and what it reports of those that it considers. -/
structure Survey where
  tool : String → Tool Act
  Options : Type
  options : Json → Outcome Options
  order : List FileRecord → List FileRecord
  report : Options → List FileRecord → Attempt ToolOutput

namespace Survey

def byPath (files : List FileRecord) : List FileRecord := files.mergeSort fun a b => a.path ≤ b.path

def complexity : Survey where
  tool := getComplexity
  Options := Nat
  options := fun arguments => .ok (max ((arguments.countArgument? "limit").getD defaultRanking) 1)
  order := id
  report := ranking

def todos : Survey where
  tool := getTodos
  Options := Option String
  options := fun arguments => .ok ((arguments.textArgument? "type").map String.toUpper)
  order := byPath
  report := fun wanted files => return reminders wanted files

def occurrences : Survey where
  tool := findReferences
  Options := String
  options := symbolArgument
  order := byPath
  report := references

def all : List Survey := [complexity, todos, occurrences]

/-- The survey over the files of the index whose paths are considered. -/
def run (s : Survey) (arguments : Json) (considered : String → Prop) [DecidablePred considered] :
    Attempt ToolOutput := do
  let options ← ofOutcome (s.options arguments)
  let files ← indexedFiles
  s.report options ((s.order files).filter fun r => considered r.path)

/-- What comes of a survey over the files whose paths are considered. -/
def answer (s : Survey) (arguments : Json) (considered : String → Prop) [DecidablePred considered] :
    Act BodyEnd := BodyEnd.ofOutcome <$> (s.run arguments considered).run

end Survey

theorem body_ofProgram (name description : String) (parameters : Schema) (category : ToolCategory)
    (body : Json → Attempt ToolOutput) (arguments : Json) :
    (ofProgram name description parameters category body).body arguments =
      BodyEnd.ofOutcome <$> (body arguments).run := rfl

/-- Which records a survey considers is for its scope alone to say. -/
theorem body_of_scope {root : String} {arguments : Json} {scope : Option String}
    (leads : scope? root arguments = pure scope) {s : Survey} (one : s ∈ Survey.all)
    {considered : String → Prop} [DecidablePred considered]
    (exact : ∀ path, considered path ↔ inScope scope path = true) :
    (s.tool root).body arguments = s.answer arguments considered := by
  have known {α : Type} (a : α) (next : α → Attempt ToolOutput) :
      (ofOutcome (.ok a) >>= next) = next a := pure_bind a next
  rw [Survey.answer, Survey.run]
  simp only [exact, Bool.decide_eq_true]
  simp only [Survey.all, List.mem_cons, List.not_mem_nil, or_false] at one
  rcases one with rfl | rfl | rfl
  · simp only [Survey.complexity, getComplexity, body_ofProgram, leads, pure_bind, known, id]
  · simp only [Survey.todos, getTodos, body_ofProgram, leads, pure_bind, known, filesInScope,
      bind_assoc, Survey.byPath]
  · simp only [Survey.occurrences, findReferences, body_ofProgram, leads, pure_bind, filesInScope,
      bind_assoc, Survey.byPath]

theorem scope_of_standsFor {root given : String} {names : List String} {arguments : Json}
    (canonical : Canonical root) (asked : arguments.textArgument? "path" = some given)
    (stands : StandsFor root given names) : scope? root arguments = pure (some (slashed names)) := by
  have found := (below_ok_iff canonical).mpr stands
  have inside := (inside_of_names canonical (named_of_below found)).2
  have resolved : resolve root given = pure (join root (slashed names)) := by
    rw [resolve, Path.resolve, found]
    rfl
  rw [scope?, asked]
  simp only [resolved, pure_bind, inside]

theorem nameless_iff (path : String) : Nameless path ↔ inScope (some (slashed [])) path = true := by
  simp [inScope, Nameless, slashed, Text.joinWith, Text.join]

theorem scope_of_none {arguments : Json} (asked : arguments.textArgument? "path" = none) (root : String) :
    scope? root arguments = pure none := by
  rw [scope?, asked]

theorem canonical_p : Canonical "/p" := by
  refine ⟨["p"], fun n member => ?_, by decide +kernel⟩
  obtain rfl := List.mem_singleton.mp member
  exact ⟨by decide, by decide, by decide, by decide⟩

/-- A survey considers all records without a path, and with one those at the names that it stands for and
below them; but with a path that stands for the root it considers none of a project's files. -/
theorem survey_considers {root : String} (canonical : Canonical root) {s : Survey} (one : s ∈ Survey.all)
    (arguments : Json) :
    (arguments.textArgument? "path" = none →
      (s.tool root).body arguments = s.answer arguments fun _ => True) ∧
    ∀ given names, arguments.textArgument? "path" = some given → StandsFor root given names →
      (names ≠ [] → (s.tool root).body arguments = s.answer arguments (AtOrBelow names)) ∧
      (names = [] → (s.tool root).body arguments = s.answer arguments Nameless) ∧
      (∀ path, AtOrBelow names path ↔
        Text.splitOn '/' path = names ∨ ∃! n, AtOrBelow (names ++ [n]) path) ∧
      ∀ file, file ≠ [] → (∀ n ∈ file, Named n) →
        (AtOrBelow names (slashed file) ↔ names <+: file) ∧ ¬ Nameless (slashed file) := by
  refine ⟨fun none => ?_, fun given names asked stands => ?_⟩
  · exact body_of_scope (scope_of_none none root) one fun _ => (iff_true_right rfl).mpr trivial
  have named : ∀ n ∈ names, Named n := named_of_below ((below_ok_iff canonical).mpr stands)
  have leads := scope_of_standsFor canonical asked stands
  refine ⟨fun some => ?_, ?_, atOrBelow_split names, fun file some isName => ⟨?_, ?_⟩⟩
  · exact body_of_scope leads one fun path => by simpa [inScope] using atOrBelow_iff named some path
  · rintro rfl
    exact body_of_scope leads one nameless_iff
  · rw [atOrBelow_slashed isName some]
  · exact not_nameless isName some

theorem survey_considers_spelled :
    Canonical "/p" ∧ Survey.todos ∈ Survey.all ∧
    (Json.obj [("path", .str "./lib/../src//")]).textArgument? "path" = some "./lib/../src//" ∧
    StandsFor "/p" "./lib/../src//" ["src"] ∧
    (getTodos "/p").body (.obj [("path", .str "./lib/../src//")]) =
      Survey.todos.answer (.obj [("path", .str "./lib/../src//")]) (AtOrBelow ["src"]) ∧
    (Json.obj []).textArgument? "path" = none ∧
    (getTodos "/p").body (.obj []) = Survey.todos.answer (.obj []) fun _ => True := by
  have one : Survey.todos ∈ Survey.all := List.mem_cons_of_mem _ List.mem_cons_self
  have asked : (Json.obj [("path", .str "./lib/../src//")]).textArgument? "path" =
      some "./lib/../src//" := by decide +kernel
  have stands : StandsFor "/p" "./lib/../src//" ["src"] :=
    (below_ok_iff canonical_p).mp (by decide +kernel)
  have considers := survey_considers canonical_p one
  exact ⟨canonical_p, one, asked, stands, ((considers _).2 _ _ asked stands).1 (by decide), rfl,
    (considers _).1 rfl⟩

def reminding : FileRecord := ⟨"a.ts", ["// TODO: one"], "", 0, 0⟩

theorem trace_todos (arguments : Json) (considered : String → Prop) [DecidablePred considered] :
    Act.Trace (Survey.todos.answer arguments considered) [⟨.index .files, .ok [reminding]⟩]
      (.done (reminders ((arguments.textArgument? "type").map String.toUpper)
        ([reminding].filter fun r => considered r.path))) := by
  have sorted : Survey.byPath [reminding] = [reminding] := List.mergeSort_singleton _
  have shown : Act.Trace (Survey.todos.answer arguments considered) [⟨.index .files, .ok [reminding]⟩]
      (.done (reminders ((arguments.textArgument? "type").map String.toUpper)
        ((Survey.byPath [reminding]).filter fun r => considered r.path))) := by
    change Act.Trace (.ask (.index .files) _) _ _
    exact .ask _ _ _ (.done _)
  rwa [sorted] at shown

/-- A path that stands for the root hides what there is to show. -/
theorem trace_root {given : String}
    (asked : (Json.obj [("path", .str given)]).textArgument? "path" = some given)
    (untyped : (Json.obj [("path", .str given)]).textArgument? "type" = none)
    (stands : StandsFor "/p" given []) :
    Act.Trace ((getTodos "/p").body (.obj [("path", .str given)])) [⟨.index .files, .ok [reminding]⟩]
      (.done (reminders none [])) := by
  have hidden := trace_todos (.obj [("path", .str given)]) Nameless
  have one : Survey.todos ∈ Survey.all := List.mem_cons_of_mem _ List.mem_cons_self
  have nothing : [reminding].filter (fun r => Nameless r.path) = [] := by decide +kernel
  rw [untyped, nothing, ← body_of_scope (scope_of_standsFor canonical_p asked stands) one nameless_iff]
    at hidden
  exact hidden

/-- Every spelling of the root hides what is shown without a path. -/
theorem root_hides :
    (StandsFor "/p" "." [] ∧ StandsFor "/p" "./" [] ∧ StandsFor "/p" "/p" []) ∧
    Act.Trace ((getTodos "/p").body (.obj [("path", .str ".")]))
      [⟨.index .files, .ok [reminding]⟩] (.done (reminders none [])) ∧
    Act.Trace ((getTodos "/p").body (.obj [("path", .str "./")]))
      [⟨.index .files, .ok [reminding]⟩] (.done (reminders none [])) ∧
    Act.Trace ((getTodos "/p").body (.obj [("path", .str "/p")]))
      [⟨.index .files, .ok [reminding]⟩] (.done (reminders none [])) ∧
    Act.Trace ((getTodos "/p").body (.obj []))
      [⟨.index .files, .ok [reminding]⟩] (.done (reminders none [reminding])) ∧
    reminders none [] ≠ reminders none [reminding] := by
  have here : StandsFor "/p" "." [] := (below_ok_iff canonical_p).mp (by decide +kernel)
  have slashed : StandsFor "/p" "./" [] := (below_ok_iff canonical_p).mp (by decide +kernel)
  have absolute : StandsFor "/p" "/p" [] := (below_ok_iff canonical_p).mp (by decide +kernel)
  have one : Survey.todos ∈ Survey.all := List.mem_cons_of_mem _ List.mem_cons_self
  have everywhere : (getTodos "/p").body (.obj []) = Survey.todos.answer (.obj []) fun _ => True :=
    body_of_scope rfl one fun _ => (iff_true_right rfl).mpr trivial
  refine ⟨⟨here, slashed, absolute⟩, ?_, ?_, ?_, ?_, by decide +kernel⟩
  · exact trace_root (by decide +kernel) (by decide +kernel) here
  · exact trace_root (by decide +kernel) (by decide +kernel) slashed
  · exact trace_root (by decide +kernel) (by decide +kernel) absolute
  · rw [everywhere]
    exact trace_todos (.obj []) fun _ => True

end Tool

end CodeAgent
