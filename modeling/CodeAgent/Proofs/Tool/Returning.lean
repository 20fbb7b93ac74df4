import CodeAgent.Proofs.Path.Settling
import CodeAgent.Proofs.Tool.Naming

/-! What a path below a root is named by leads back to it.
The root may be any path, relative or spelled with dots. A name within the project is read like every given
path: blanks at its ends do not count, and the root's own parts in front of it are taken off. Where it has
neither, it leads to the path that it names. -/
namespace CodeAgent.Path

variable {root given path : String} {names : List String}

/- Parts of a path behind another -/

theorem bodyParts_append (front : Bool) {ps : List (List Char)} (some : ps ≠ []) (qs : List (List Char)) :
    bodyParts front (ps ++ qs) = bodyParts front ps ++ bodyParts false qs := by
  induction ps generalizing front with
  | nil => exact absurd rfl some
  | cons p ps ih =>
    have later : bodyParts false (ps ++ qs) = bodyParts false ps ++ bodyParts false qs := by
      cases ps with
      | nil => rfl
      | cons p' ps => exact ih false (List.cons_ne_nil p' ps)
    rw [List.cons_append, bodyParts, bodyParts, later]
    split
    · rfl
    · split
      · split <;> rfl
      · split <;> rfl

theorem parts_behind {dir : String} {cs : List Char} (closed : dir.toList = cs ++ ['/']) (path : String) :
    parts (dir ++ path) = parts dir ++ bodyParts false (Text.pieces '/' path.toList) := by
  have text : (dir ++ path).toList = cs ++ '/' :: path.toList := by simp [closed]
  have top : isAbsolute (cs ++ '/' :: path.toList) = isAbsolute (cs ++ ['/']) := by
    cases cs <;> rfl
  have first (front : Bool) : bodyParts front (Text.pieces '/' (cs ++ '/' :: path.toList)) =
      bodyParts front (Text.pieces '/' (cs ++ ['/'])) ++
        bodyParts false (Text.pieces '/' path.toList) := by
    have whole := Text.pieces_ne_nil '/' cs
    rw [Text.pieces_append_cons, Text.pieces_append_cons, bodyParts_append front whole,
      bodyParts_append front whole]
    simp [Text.pieces, bodyParts]
  rw [parts, parts, text, closed, top, first, first]
  split <;> rfl

theorem parts_edge (dir : String) : parts (edge dir) = parts dir := by
  rw [edge]
  split
  · rfl
  · rename_i opened
    obtain ⟨c, cs, letters⟩ : ∃ c cs, dir.toList = c :: cs := by
      apply List.exists_cons_of_ne_nil
      intro none
      simp [String.toList_eq_nil_iff.mp none] at opened
    have text : (dir ++ "/").toList = c :: cs ++ ['/'] := by simp [letters]
    have first (front : Bool) : bodyParts front (Text.pieces '/' (c :: cs ++ ['/'])) =
        bodyParts front (Text.pieces '/' (c :: cs)) := by
      rw [Text.pieces_append_cons, Text.pieces, bodyParts_ends]
    have top : isAbsolute (c :: cs ++ ['/']) = isAbsolute (c :: cs) := rfl
    rw [parts, parts, text, letters, top, first, first]

theorem isAbsolute_slashed (named : ∀ n ∈ names, Named n) : isAbsolute (slashed names).toList = false := by
  cases names with
  | nil => rfl
  | cons n names => simpa [isAbsolute] using head_slashed (named n List.mem_cons_self) names

theorem pieces_parts (named : ∀ n ∈ names, Named n) (front : Bool) :
    bodyParts front (Text.pieces '/' (slashed names).toList) = names.map .name := by
  rw [toList_slashed]
  cases names with
  | nil => rfl
  | cons n names => rw [pieces_names named (List.cons_ne_nil n names), bodyParts_names named]

theorem parts_slashed (named : ∀ n ∈ names, Named n) : parts (slashed names) = names.map .name := by
  rw [parts, isAbsolute_slashed named]
  exact pieces_parts named true

/-- Below any root a path is the root's parts and the names behind them. -/
theorem parts_join (root : String) (named : ∀ n ∈ names, Named n) :
    parts (join root (slashed names)) = parts root ++ names.map .name := by
  rw [join_eq (isAbsolute_slashed named), ← parts_edge root]
  by_cases top : root = ""
  · subst top
    exact parts_slashed named
  · obtain ⟨cs, closed⟩ : ∃ cs, (edge root).toList = cs ++ ['/'] := by
      rw [edge]
      split
      · rename_i ends
        have last : root.toList.getLast? = some '/' := by simpa [top] using ends
        exact ⟨root.toList.dropLast, (List.dropLast_append_getLast? '/' last).symm⟩
      · exact ⟨root.toList, by simp⟩
    rw [parts_behind closed, pieces_parts named]

theorem relative_join (root : String) (named : ∀ n ∈ names, Named n) :
    relative root (join root (slashed names)) = slashed names := by
  have texts : Part.text ∘ Part.name = id := rfl
  rw [relative, parts_join root named, dropParts_append]
  simp [texts]

/- Names that are given back -/

/-- The root's own parts stand in front of a path; no relative path has those of an absolute root. -/
def Repeats (root path : String) : Prop := parts root ≠ [] ∧ parts root <+: parts path

theorem below_slashed (named : ∀ n ∈ names, Named n) (some : slashed names ≠ "")
    (neat : Text.trim (slashed names) = slashed names) (apart : ¬ Repeats root (slashed names)) :
    below root (slashed names) = .ok names := by
  have rest : (dropParts? (parts root) (names.map .name)).getD (names.map .name) = names.map .name := by
    cases dropped : dropParts? (parts root) (names.map .name) with
    | none => rfl
    | some rest =>
      have whole := append_of_dropParts dropped
      have top : parts root = [] := by
        by_contra filled
        exact apart ⟨filled, by rw [parts_slashed named, whole]; exact List.prefix_append _ _⟩
      rw [whole, top]
      rfl
  have plain : names.map Part.name = names.map Part.ofSegment := by
    apply List.map_congr_left
    rintro n member
    refine (ofSegment_of_ne ?_).symm
    rintro rfl
    exact (named _ member).notUp rfl
  have walked : walk [] (names.map .name) = .some names := by
    rw [plain, walk_names (not_up_of_named named)]
    rfl
  have letters : (slashed names).isEmpty = false := by simpa using some
  unfold below
  simp only [neat, letters, parts_slashed named, rest, walked]
  rfl

/-- The name of what a given path leads to leads there again. -/
theorem resolve_relative (resolved : resolve root given = .ok path) (inside : relative root path ≠ "")
    (neat : Text.trim (relative root path) = relative root path)
    (apart : ¬ Repeats root (relative root path)) :
    resolve root (relative root path) = .ok path ∧ join root (relative root path) = path := by
  obtain ⟨names, named, rfl⟩ := resolve_eq resolved
  rw [relative_join root named] at inside neat apart ⊢
  rw [resolve, below_slashed named inside neat apart]
  exact ⟨rfl, rfl⟩

theorem not_repeats (absolute : isAbsolute root.toList = true) (resolved : resolve root given = .ok path) :
    ¬ Repeats root (relative root path) := by
  obtain ⟨names, named, rfl⟩ := resolve_eq resolved
  rw [relative_join root named]
  rintro ⟨-, rest, whole⟩
  rw [parts_slashed named, parts_of_absolute absolute] at whole
  have first : Part.root ∈ names.map Part.name := by
    rw [← whole]
    exact List.mem_cons_self
  simp at first

end CodeAgent.Path

/-! A path that one tool reports, given to another.
The report names what the given path leads to. A tool that is given this name finds the same file and does
what it does for the first spelling, unless the name is not read as it stands: blanks at its ends do not
count, and below a relative root the root's own parts are taken off. -/

namespace CodeAgent

namespace Json

variable {a b : Json} {given again : String}

/-- The same arguments but for the spelling of their path. -/
structure Respelled (a b : Json) (given again : String) : Prop where
  before : a.member? "path" = some (.str given)
  after : b.member? "path" = some (.str again)
  others : ∀ name, name ≠ "path" → a.member? name = b.member? name

theorem Respelled.symm (spelled : Respelled a b given again) : Respelled b a again given :=
  ⟨spelled.after, spelled.before, fun name other => (spelled.others name other).symm⟩

section

variable (spelled : Respelled a b given again) (name : String) (other : name ≠ "path")
include spelled other

theorem Respelled.text : a.textArgument name = b.textArgument name := by
  rw [textArgument, textArgument, spelled.others name other]

theorem Respelled.text? : a.textArgument? name = b.textArgument? name := by
  rw [textArgument?, textArgument?, spelled.others name other]

theorem Respelled.count? : a.countArgument? name = b.countArgument? name := by
  rw [countArgument?, countArgument?, spelled.others name other]

theorem Respelled.flag? : a.flagArgument? name = b.flagArgument? name := by
  rw [flagArgument?, flagArgument?, spelled.others name other]

end

theorem textArgument_of_member {name : String} (held : a.member? name = some (.str given)) :
    a.textArgument name = .ok given := by
  simp [textArgument, held, str?]

theorem textArgument?_of_member {name : String} (held : a.member? name = some (.str given)) (some : given ≠ "") :
    a.textArgument? name = .some given := by
  simp [textArgument?, held, str?, some]

end Json

namespace Tool

open Attempt

section

variable {root given again path : String} {a b : Json} {l : List Heard} {o : ToolOutput}

/-- Two spellings that lead to one path. -/
structure Alike (root given again : String) : Prop where
  same : Path.resolve root given = Path.resolve root again
  letters : given ≠ ""
  letters' : again ≠ ""

theorem Alike.symm (alike : Alike root given again) : Alike root again given :=
  ⟨alike.same.symm, alike.letters', alike.letters⟩

theorem ofOutcome_bind (value : α) (f : α → Attempt β) : ofOutcome (.ok value) >>= f = f value := rfl

theorem letters_of_resolve (resolved : Path.resolve root given = .ok path) : given ≠ "" := by
  rintro rfl
  rw [Path.resolve, Path.below_empty (by decide)] at resolved
  cases resolved

theorem resolve_alike (alike : Alike root given again) : resolve root given = resolve root again := by
  rw [resolve, resolve, alike.same]

theorem observe_alike (alike : Alike root given again) : observe root given = observe root again := by
  rw [observe, observe, resolve_alike alike]

theorem unchanged_alike (alike : Alike root given again) :
    unchanged? root given = unchanged? root again := by
  rw [unchanged?, unchanged?, resolve_alike alike]

variable (alike : Alike root given again) (spelled : a.Respelled b given again)
include alike spelled

theorem scope_alike : scope? root a = scope? root b := by
  rw [scope?, scope?, Json.textArgument?_of_member spelled.before alike.letters,
    Json.textArgument?_of_member spelled.after alike.letters']
  simp only [resolve_alike alike]

theorem indexedMeta_alike : indexedMeta root a = indexedMeta root b := by
  rw [indexedMeta, indexedMeta, Json.textArgument_of_member spelled.before,
    Json.textArgument_of_member spelled.after, ofOutcome_bind, ofOutcome_bind, resolve_alike alike]

theorem plan_alike {p : PlannedEdit} (run : Act.Trace (PlannedEdit.of root a).run l (.ok p)) :
    Act.Trace (PlannedEdit.of root b).run l (.ok p) := by
  have count (name : String) (other : name ≠ "path") : a.countArgument name = b.countArgument name := by
    rw [Json.countArgument, Json.countArgument, spelled.count? name other]
  cases trace_plan run with
  | @planned given' absolute text current start last l path first final content found fits =>
    rw [Json.textArgument_of_member spelled.before] at path
    obtain rfl := Except.ok.inj path
    rw [unchanged_alike alike] at found
    rw [PlannedEdit.of, Json.textArgument_of_member spelled.after, ← count "start" (by decide),
      first, ← count "end" (by decide), final, ← spelled.text "content" (by decide), content, ofOutcome_bind,
      ofOutcome_bind, ofOutcome_bind, ofOutcome_bind]
    refine trace_bind.mpr (Or.inr ⟨_, l, [], by simp, found, ?_⟩)
    simp only [fits]
    exact trace_pure.mpr ⟨rfl, rfl⟩

/-- An edit of lines that is done does not show how its path was spelled. -/
theorem editLines_alike {autoApply : Bool}
    (run : Act.Trace ((editLines root autoApply).body a) l (.done o)) :
    Act.Trace ((editLines root autoApply).body b) l (.done o) := by
  obtain ⟨r, ran, same⟩ := Act.trace_map.mp run
  obtain rfl := of_done same
  refine Act.trace_map.mpr ⟨.ok o, ?_, rfl⟩
  rcases trace_bind.mp ran with ⟨_, -, wrong⟩ | ⟨p, l₁, l₂, rfl, planned, rest⟩
  · cases wrong
  · exact trace_bind.mpr (Or.inr ⟨p, l₁, l₂, rfl, plan_alike alike spelled planned, rest⟩)

theorem body_alike {settings : Settings} {t : Tool Act} (member : t ∈ standardTools root settings)
    (noEdit : t.name ≠ "edit_lines") (noTests : t.name ≠ "run_tests") : t.body a = t.body b := by
  have path := Json.textArgument_of_member spelled.before
  have path' := Json.textArgument_of_member spelled.after
  have path? := Json.textArgument?_of_member spelled.before alike.letters
  have path?' := Json.textArgument?_of_member spelled.after alike.letters'
  simp only [standardTools, List.mem_cons, List.not_mem_nil, or_false] at member
  rcases member with rfl | rfl | rfl | rfl | rfl | rfl | rfl | rfl | rfl | rfl | rfl | rfl | rfl | rfl | rfl
  · simp only [getLines, ofProgram, ungated, path, path', ofOutcome_bind, observe_alike alike,
      spelled.count? "start" (by decide), spelled.count? "end" (by decide)]
  · simp only [getFunction, ofProgram, ungated, path, path', ofOutcome_bind, observe_alike alike,
      spelled.text "name" (by decide)]
  · simp only [getStructure, ofProgram, ungated, path?, path?', resolve_alike alike,
      spelled.count? "depth" (by decide)]
  · exact absurd rfl noEdit
  · simp only [createFile, editing, ofProgram, ungated, path, path', ofOutcome_bind, unchanged_alike alike,
      spelled.text "content" (by decide)]
  · simp only [findReferences, ofProgram, ungated, symbolArgument, scope_alike alike spelled,
      spelled.text "symbol" (by decide)]
  · simp only [findDefinition, ofProgram, ungated, symbolArgument, spelled.text "symbol" (by decide)]
  · simp only [getDependencies, ofProgram, ungated, indexedMeta_alike alike spelled]
  · simp only [getDependents, ofProgram, ungated, indexedMeta_alike alike spelled]
  · simp only [getComplexity, ofProgram, ungated, scope_alike alike spelled,
      spelled.count? "limit" (by decide)]
  · simp only [getTodos, ofProgram, ungated, scope_alike alike spelled, 
      spelled.text? "type" (by decide)]
  · rfl
  · simp only [gitDiff, ofProgram, ungated, scope_alike alike spelled, 
      spelled.flag? "staged" (by decide)]
  · simp only [runCommand, ofProgram, ungated, spelled.text "command" (by decide),
      spelled.count? "timeout" (by decide)]
  · exact absurd rfl noTests

theorem done_alike {settings : Settings} {t : Tool Act} (member : t ∈ standardTools root settings)
    (noTests : t.name ≠ "run_tests") :
    Act.Trace (t.body a) l (.done o) ↔ Act.Trace (t.body b) l (.done o) := by
  by_cases edit : t.name = "edit_lines"
  · obtain rfl := eq_editLines member edit
    exact ⟨editLines_alike alike spelled, editLines_alike alike.symm spelled.symm⟩
  · rw [body_alike alike spelled member edit noTests]

end

/-- A tool whose report or change names one path names what the given path leads to. -/
theorem reports_relative {root given path : String} {arguments : Json} {settings : Settings} {t : Tool Act}
    {l : List Heard} {o : ToolOutput} (resolved : Path.resolve root given = .ok path)
    (inside : Path.relative root path ≠ "") (member : t ∈ standardTools root settings)
    (names : t.name ∈ namers) (asked : arguments.member? "path" = some (.str given))
    (run : Act.Trace (t.body arguments) l (.done o)) :
    Turn.viewed? arguments o = some (Path.relative root path) := by
  obtain ⟨e, seen⟩ : ∃ e, Turn.viewed? arguments o = some e := by
    rw [Turn.viewed?, asked]
    cases o.change with
    | none => exact ⟨_, rfl⟩
    | some c => exact ⟨_, rfl⟩
  obtain ⟨given', again, view⟩ := inView_standard member run seen
  rw [asked] at again
  cases again
  have apart : ∀ tool ∈ namers, tool ∉ mutes := by decide
  generalize t.name = name at view names
  rw [seen]
  cases view with
  | named _ resolved' =>
    rw [resolved] at resolved'
    cases resolved'
    rfl
  | whole top =>
    rcases top with empty | top
    · exact absurd empty (letters_of_resolve resolved)
    · rw [resolved] at top
      exact absurd (Except.ok.inj top) inside
  | nowhere => exact absurd rfl (letters_of_resolve resolved)
  | spelled _ mute => exact absurd mute (apart name names)

/-- What a path below the root is named by leads to it again. So a tool that is given the name that another
one reports does what it does with the first spelling, and a program that runs in the root finds the file by
that name. -/
theorem reported_leads_back {root given path : String} (resolved : Path.resolve root given = .ok path)
    (inside : Path.relative root path ≠ "")
    (neat : Text.trim (Path.relative root path) = Path.relative root path)
    (apart : Path.isAbsolute root.toList = false → ¬ Path.Repeats root (Path.relative root path)) :
    Path.resolve root (Path.relative root path) = .ok path ∧
      Path.Normal root (Path.relative root path) ∧ Path.join root (Path.relative root path) = path ∧
      ∀ (settings : Settings), ∀ t ∈ standardTools root settings, ∀ a : Json,
        a.member? "path" = some (.str given) →
        (t.name ∈ namers → ∀ l o, Act.Trace (t.body a) l (.done o) →
          Turn.viewed? a o = some (Path.relative root path)) ∧
        (t.name ≠ "run_tests" → ∀ b, a.Respelled b given (Path.relative root path) → ∀ l o,
          Act.Trace (t.body a) l (.done o) ↔ Act.Trace (t.body b) l (.done o)) := by
  have other : ¬ Path.Repeats root (Path.relative root path) := by
    cases top : Path.isAbsolute root.toList with
    | true => exact Path.not_repeats top resolved
    | false => exact apart top
  obtain ⟨again, place⟩ := Path.resolve_relative resolved inside neat other
  refine ⟨again, by rw [Path.Normal, again]; rfl, place, fun settings t member a asked => ⟨?_, ?_⟩⟩
  · intro names l o run
    exact reports_relative resolved inside member names asked run
  · intro noTests b spelled l o
    have alike : Alike root given (Path.relative root path) :=
      ⟨resolved.trans again.symm, letters_of_resolve resolved, inside⟩
    exact done_alike alike spelled member noTests

/-- A read of a file, spelled with steps down and up. -/
def roundabout : Json := Json.object [("path", .str "/work/project/src//../lib/./a.ts"), ("start", .nat 2)]

def straight : Json := Json.object [("path", .str "lib/a.ts"), ("start", .nat 2)]

theorem reported_leads_back_roundabout :
    Path.resolve "/work/project" "/work/project/src//../lib/./a.ts" = .ok "/work/project/lib/a.ts" ∧
      Path.relative "/work/project" "/work/project/lib/a.ts" = "lib/a.ts" ∧
      Text.trim "lib/a.ts" = "lib/a.ts" ∧
      Path.resolve "/work/project" "lib/a.ts" = .ok "/work/project/lib/a.ts" ∧
      ∀ l o, Act.Trace ((getLines "/work/project").body roundabout) l (.done o) ↔
        Act.Trace ((getLines "/work/project").body straight) l (.done o) := by
  have resolved : Path.resolve "/work/project" "/work/project/src//../lib/./a.ts" =
      .ok "/work/project/lib/a.ts" := by decide +kernel
  have name : Path.relative "/work/project" "/work/project/lib/a.ts" = "lib/a.ts" := by decide +kernel
  have spelled : roundabout.Respelled straight "/work/project/src//../lib/./a.ts" "lib/a.ts" := by
    refine ⟨by decide +kernel, by decide +kernel, fun key other => ?_⟩
    rw [roundabout, straight, Json.member?_object, Json.member?_object]
    simp [Table.ofList, Table.get?_insert, other]
  obtain ⟨again, -, -, alike⟩ := reported_leads_back resolved (by rw [name]; decide) (by rw [name]; decide +kernel)
    (fun relative => absurd relative (by decide))
  rw [name] at again alike
  have asked : roundabout.member? "path" = some (.str "/work/project/src//../lib/./a.ts") := spelled.before
  exact ⟨resolved, name, by decide +kernel, again,
    (alike {} (getLines "/work/project") (by simp [standardTools]) roundabout asked).2 (by decide) straight spelled⟩

/-- A step in front of a blank shows a name that starts with it, and so does a dot behind one that ends
with it; such a name leads elsewhere. Below a relative root so does one that repeats the root. -/
theorem reported_leads_astray :
    (Path.resolve "/work/project" "./ a.ts" = .ok "/work/project/ a.ts" ∧
      Path.relative "/work/project" "/work/project/ a.ts" = " a.ts" ∧
      Path.resolve "/work/project" " a.ts" = .ok "/work/project/a.ts") ∧
    (Path.resolve "/work/project" "a.ts /." = .ok "/work/project/a.ts " ∧
      Path.relative "/work/project" "/work/project/a.ts " = "a.ts " ∧
      Path.resolve "/work/project" "a.ts " = .ok "/work/project/a.ts") ∧
    Path.resolve "src" "src/src/a.ts" = .ok "src/src/a.ts" ∧
      Path.relative "src" "src/src/a.ts" = "src/a.ts" ∧ Path.resolve "src" "src/a.ts" = .ok "src/a.ts" := by
  decide +kernel

end Tool

end CodeAgent
