import CodeAgent.Proofs.Tool.Counting
import CodeAgent.Proofs.Tool.FileTool
import CodeAgent.Proofs.Tool.Scoping
import CodeAgent.Turn.Run

/-! How a call that succeeds names the file that comes into view.
A change names its file, and so does the report of a tool that is about one path, by the names that the path
stands for. Other reports name no path; then the spelling of the call is taken as it is. -/
namespace CodeAgent

namespace Path

/-- The path is spelled as the project spells what it stands for. -/
def Normal (root path : String) : Prop := (resolve root path).map (relative root) = .ok path

instance (root path : String) : Decidable (Normal root path) := inferInstanceAs (Decidable (_ = _))

section

variable {root given path : String} {names : List String}

theorem standsFor_slashed (named : ∀ n ∈ names, Named n) (some : names ≠ [])
    (neat : Text.trim (slashed names) = slashed names) : StandsFor root (slashed names) names := by
  have nonempty : slashed names ≠ "" := fun empty => not_nameless named some (Or.inl empty)
  have relative : isAbsolute (slashed names).toList = false := by
    obtain ⟨n, rest, rfl⟩ := List.exists_cons_of_ne_nil some
    simpa [isAbsolute] using head_slashed (named n List.mem_cons_self) rest
  refine ⟨by rwa [neat], names, ?_, .refl names, not_up_of_named named⟩
  rw [neat]
  exact ⟨fun top => by simp [relative] at top, fun _ => (segments_slashed named).symm⟩

/-- The name of a path within the project is its own, unless there are blanks at its ends. -/
theorem normal_relative (canonical : Canonical root) (resolved : resolve root given = .ok path)
    (some : relative root path ≠ "") (neat : Text.trim (relative root path) = relative root path) :
    Normal root (relative root path) := by
  obtain ⟨-, leads, reads, -⟩ := resolve_contained canonical given
  obtain ⟨names, stands, rfl⟩ := (leads path).mp resolved
  obtain ⟨named, -, key, -⟩ := reads _ names stands rfl
  rw [key] at some neat ⊢
  have nonempty : names ≠ [] := by
    rintro rfl
    exact some rfl
  have found : resolve root (slashed names) = .ok (join root (slashed names)) :=
    ((resolve_contained canonical _).2.1 _).mpr ⟨names, standsFor_slashed named nonempty neat, rfl⟩
  rw [Normal, found]
  exact congrArg Except.ok key

end

end Path

namespace Json

theorem member?_none {members : List (String × Json)} {key : String} (absent : key ∉ members.map (·.1)) :
    (object members).member? key = none := by
  rw [member?_object]
  exact Table.get?_inserts_of_not_mem absent

variable {arguments : Json} {name given : String}

theorem member?_of_textArgument (read : arguments.textArgument name = .ok given) :
    arguments.member? name = some (.str given) := by
  rw [textArgument] at read
  split at read
  · rename_i found
    cases read
    obtain ⟨v, held, text⟩ := Option.bind_eq_some_iff.mp found
    cases v <;> simp_all [str?]
  · cases read

theorem member?_of_textArgument? (read : arguments.textArgument? name = some given) :
    arguments.member? name = some (.str given) := by
  obtain ⟨found, -⟩ := Option.filter_eq_some_iff.mp read
  obtain ⟨v, held, text⟩ := Option.bind_eq_some_iff.mp found
  cases v <;> simp_all [str?]

end Json

namespace Turn

/-- The file that a call brings into view when it succeeds. -/
def viewed? (arguments : Json) (o : ToolOutput) : Option String :=
  match o.change with
  | some c => some c.path
  | none => ((arguments.member? "path").bind Json.str?).map fun given =>
      ((o.data.member? "path").bind Json.str?).getD given

end Turn

namespace Tool

open Attempt

/-- Tools whose report or change is about one path. -/
def namers : List String :=
  ["get_lines", "get_function", "get_structure", "edit_lines", "create_file", "get_dependencies",
    "get_dependents", "git_diff"]

/-- Tools whose report names no path. -/
def mutes : List String :=
  ["find_references", "find_definition", "get_complexity", "get_todos", "git_status", "run_command",
    "run_tests"]

/-- What a call comes to be called in view, by its tool and the path that it gives. -/
inductive InView (root : String) : (tool given name : String) → Prop where
  | named {tool given absolute : String} (names : tool ∈ namers)
      (resolved : Path.resolve root given = .ok absolute) :
      InView root tool given (Path.relative root absolute)
  /-- The whole project has no name. -/
  | whole {given : String} (top : given = "" ∨
      (Path.resolve root given).map (Path.relative root) = .ok "") : InView root "get_structure" given "."
  | nowhere : InView root "git_diff" "" ""
  | spelled {tool : String} (given : String) (mute : tool ∈ mutes) : InView root tool given given

section

variable {root given : String} {arguments : Json} {l : List Heard} {o : ToolOutput} {e : String}

theorem within_leads (root given : String) :
    Within (fun _ => True) (fun absolute => Path.resolve root given = .ok absolute) (resolve root given) := by
  rw [resolve]
  split
  · rename_i resolved
    exact within_pure resolved
  · exact within_throw

theorem within_named_observe (root given : String) : Within (fun _ => True)
    (fun r => ∃ absolute, Path.resolve root given = .ok absolute ∧ r.path = Path.relative root absolute)
    (observe root given) := by
  refine within_bind (within_leads root given) fun absolute resolved => ?_
  refine within_next (within_any _) fun there => ?_
  split
  · exact within_throw_bind
  · have loads : Within (fun _ => True) (fun r => r.path = Path.relative root absolute)
        (Files.loadRecord absolute (Path.relative root absolute)) :=
      within_next (within_any _) fun text => within_next (within_any _) fun status => within_pure rfl
    refine within_bind loads fun record named => within_next (within_any _) fun stored => ?_
    split
    · exact within_next (within_any _) fun _ => within_pure ⟨absolute, resolved, named⟩
    · exact within_pure ⟨absolute, resolved, named⟩

/-- The report is about the path that is given, and names it. -/
structure About (root : String) (arguments : Json) (o : ToolOutput) : Prop where
  unchanged : o.change = none
  about : ∃ given absolute, arguments.member? "path" = some (.str given) ∧
    Path.resolve root given = .ok absolute ∧
    o.data.member? "path" = some (.str (Path.relative root absolute))

/-- The report names no path, and there is no change. -/
structure Mute (o : ToolOutput) : Prop where
  unchanged : o.change = none
  unnamed : o.data.member? "path" = none

theorem viewed_of_report (unchanged : o.change = none) (seen : Turn.viewed? arguments o = some e) :
    ∃ given, arguments.member? "path" = some (.str given) ∧
      e = ((o.data.member? "path").bind Json.str?).getD given := by
  rw [Turn.viewed?, unchanged] at seen
  obtain ⟨given, read, rfl⟩ := Option.map_eq_some_iff.mp seen
  obtain ⟨v, held, text⟩ := Option.bind_eq_some_iff.mp read
  cases v with
  | str s =>
    cases text
    exact ⟨given, held, rfl⟩
  | _ => cases text

theorem About.inView {tool : String} (about : About root arguments o) (names : tool ∈ namers)
    (seen : Turn.viewed? arguments o = some e) :
    ∃ given, arguments.member? "path" = some (.str given) ∧ InView root tool given e := by
  obtain ⟨unchanged, given, absolute, asked, resolved, named⟩ := about
  obtain ⟨_, again, rfl⟩ := viewed_of_report unchanged seen
  rw [named]
  exact ⟨given, asked, .named names resolved⟩

theorem Mute.inView {tool : String} (mute : Mute o) (member : tool ∈ mutes)
    (seen : Turn.viewed? arguments o = some e) :
    ∃ given, arguments.member? "path" = some (.str given) ∧ InView root tool given e := by
  obtain ⟨given, asked, rfl⟩ := viewed_of_report mute.unchanged seen
  rw [mute.unnamed]
  exact ⟨given, asked, .spelled given member⟩

/- Tools whose report is about the file -/

theorem within_path (arguments : Json) : Within (fun _ => True)
    (fun given => arguments.member? "path" = some (.str given)) (ofOutcome (arguments.textArgument "path")) :=
  within_ofOutcome fun _ read => Json.member?_of_textArgument read

theorem about_getLines (run : Act.Trace ((getLines root).body arguments) l (.done o)) :
    About root arguments o := by
  obtain ⟨given, r, path, observed, rfl⟩ := trace_getLines run
  obtain ⟨absolute, resolved, named⟩ := (observed.within (within_named_observe root given)).2 r rfl
  refine ⟨rfl, given, absolute, Json.member?_of_textArgument path, resolved, ?_⟩
  rw [← named]
  exact Json.member?_of_mem (by simp) List.mem_cons_self

theorem about_getFunction (run : Act.Trace ((getFunction root).body arguments) l (.done o)) :
    About root arguments o := by
  refine @done_of_within _ _ _ _ _ _ _ _ (About root arguments) ?_ run
  refine within_next (within_any _) fun name => ?_
  refine within_bind (within_path arguments) fun given asked => ?_
  refine within_bind (within_named_observe root given) fun r named => ?_
  obtain ⟨absolute, resolved, named⟩ := named
  split
  · exact within_throw
  · dsimp only
    split
    · exact within_throw
    · refine within_pure ⟨rfl, given, absolute, asked, resolved, ?_⟩
      rw [← named]
      exact Json.member?_of_mem (by simp) List.mem_cons_self

theorem within_indexedMeta (root : String) (arguments : Json) : Within (fun _ => True)
    (fun found => ∃ given absolute, arguments.member? "path" = some (.str given) ∧
      Path.resolve root given = .ok absolute ∧ found.1 = Path.relative root absolute)
    (indexedMeta root arguments) := by
  refine within_bind (within_path arguments) fun given asked => ?_
  refine within_bind (within_leads root given) fun absolute resolved => ?_
  refine within_next (within_any _) fun derived => ?_
  split
  · exact within_pure ⟨given, absolute, asked, resolved, rfl⟩
  · exact within_throw

theorem about_getDependencies (run : Act.Trace ((getDependencies root).body arguments) l (.done o)) :
    About root arguments o := by
  refine @done_of_within _ _ _ _ _ _ _ _ (About root arguments) ?_ run
  refine within_bind (within_indexedMeta root arguments) fun found named => ?_
  obtain ⟨given, absolute, asked, resolved, named⟩ := named
  refine within_next (within_any _) fun graph => within_next (within_any _) fun ends => within_pure ?_
  refine ⟨rfl, given, absolute, asked, resolved, ?_⟩
  rw [← named]
  exact Json.member?_of_mem (by simp) List.mem_cons_self

theorem about_getDependents (run : Act.Trace ((getDependents root).body arguments) l (.done o)) :
    About root arguments o := by
  refine @done_of_within _ _ _ _ _ _ _ _ (About root arguments) ?_ run
  refine within_bind (within_indexedMeta root arguments) fun found named => ?_
  obtain ⟨given, absolute, asked, resolved, named⟩ := named
  refine within_next (within_any _) fun graph => within_next (within_any _) fun ends => within_pure ?_
  refine ⟨rfl, given, absolute, asked, resolved, ?_⟩
  rw [← named]
  exact Json.member?_of_mem (by simp) List.mem_cons_self

theorem empty_of_unread (unread : arguments.textArgument? "path" = none)
    (asked : arguments.member? "path" = some (.str given)) : given = "" := by
  simpa [Json.textArgument?, asked, Json.str?] using unread

theorem relative_self (root : String) : Path.relative root root = "" := by
  have behind : Path.dropParts? (Path.parts root) (Path.parts root) = some [] := by
    simpa using Path.dropParts_append (Path.parts root) []
  simp only [Path.relative, behind]
  rfl

/-- The report is about a directory, the whole project if none is given. -/
structure Charts (root : String) (arguments : Json) (o : ToolOutput) : Prop where
  unchanged : o.change = none
  about : ∃ base, o.data.member? "path" =
      some (.str (if (Path.relative root base).isEmpty then "." else Path.relative root base)) ∧
    (arguments.textArgument? "path" = none ∧ base = root ∨
      ∃ given, arguments.textArgument? "path" = some given ∧ Path.resolve root given = .ok base)

theorem charts_getStructure (run : Act.Trace ((getStructure root).body arguments) l (.done o)) :
    Charts root arguments o := by
  refine @done_of_within _ _ _ _ _ _ _ _ (Charts root arguments) ?_ run
  extract_lets depth reported
  have reports (base : String) (origin : arguments.textArgument? "path" = none ∧ base = root ∨
      ∃ given, arguments.textArgument? "path" = some given ∧ Path.resolve root given = .ok base) :
      Within (fun _ => True) (Charts root arguments) (reported base) := by
    refine within_next (within_any _) fun kind => ?_
    extract_lets listed
    split
    · exact within_throw_bind
    · refine within_next (within_any _) fun files => within_pure ⟨rfl, base, ?_, origin⟩
      exact Json.member?_of_mem (by simp) List.mem_cons_self
  split
  · rename_i given read
    exact within_bind (within_leads root given) fun base resolved =>
      reports base (Or.inr ⟨given, read, resolved⟩)
  · rename_i unread
    exact reports root (Or.inl ⟨unread, rfl⟩)

theorem inView_getStructure (run : Act.Trace ((getStructure root).body arguments) l (.done o))
    (seen : Turn.viewed? arguments o = some e) :
    ∃ given, arguments.member? "path" = some (.str given) ∧ InView root "get_structure" given e := by
  obtain ⟨unchanged, base, named, about⟩ := charts_getStructure run
  obtain ⟨given, asked, rfl⟩ := viewed_of_report unchanged seen
  refine ⟨given, asked, ?_⟩
  rw [named]
  rcases about with ⟨unread, rfl⟩ | ⟨_, read, resolved⟩
  · rw [relative_self]
    exact .whole (Or.inl (empty_of_unread unread asked))
  · cases asked.symm.trans (Json.member?_of_textArgument? read)
    simp only [Option.bind_some, Json.str?, Option.getD_some]
    split
    · rename_i top
      refine .whole (Or.inr ?_)
      rw [resolved]
      exact congrArg Except.ok (by simpa using top)
    · exact .named (by decide) resolved

/-- The path that a search is restricted to, as the project names it. -/
inductive Scoped (root : String) (arguments : Json) : Option String → Prop where
  | whole (unread : arguments.textArgument? "path" = none) : Scoped root arguments none
  | below {given absolute : String} (read : arguments.textArgument? "path" = some given)
      (resolved : Path.resolve root given = .ok absolute) :
      Scoped root arguments (some (Path.relative root absolute))

theorem within_scoped (root : String) (arguments : Json) :
    Within (fun _ => True) (Scoped root arguments) (scope? root arguments) := by
  rw [scope?]
  split
  · rename_i unread
    exact within_pure (.whole unread)
  · rename_i given read
    exact within_bind (within_leads root given) fun absolute resolved => within_pure (.below read resolved)

/-- The report names the path that it is restricted to. -/
structure Restricts (root : String) (arguments : Json) (o : ToolOutput) : Prop where
  unchanged : o.change = none
  about : ∃ scope, Scoped root arguments scope ∧ o.data.member? "path" = some (Json.ofOption .str scope)

theorem restricts_gitDiff (run : Act.Trace ((gitDiff root).body arguments) l (.done o)) :
    Restricts root arguments o := by
  refine @done_of_within _ _ _ _ _ _ _ _ (Restricts root arguments) ?_ run
  refine within_bind (within_scoped root arguments) fun scope known => ?_
  refine within_next (within_any _) fun report => within_pure ⟨rfl, scope, known, ?_⟩
  exact Json.member?_of_mem (by simp) (by simp)

theorem inView_gitDiff (run : Act.Trace ((gitDiff root).body arguments) l (.done o))
    (seen : Turn.viewed? arguments o = some e) :
    ∃ given, arguments.member? "path" = some (.str given) ∧ InView root "git_diff" given e := by
  obtain ⟨unchanged, scope, known, named⟩ := restricts_gitDiff run
  obtain ⟨given, asked, rfl⟩ := viewed_of_report unchanged seen
  refine ⟨given, asked, ?_⟩
  rw [named]
  cases known with
  | whole unread =>
    obtain rfl := empty_of_unread unread asked
    exact .nowhere
  | below read resolved =>
    cases asked.symm.trans (Json.member?_of_textArgument? read)
    exact .named (by decide) resolved

/-- An edit names the file that it changed. -/
theorem inView_edit (k : FileTool) (edits : k.edits = true)
    (run : Act.Trace ((k.tool root).body arguments) l (.done o)) (seen : Turn.viewed? arguments o = some e) :
    ∃ given, arguments.member? "path" = some (.str given) ∧ InView root (k.tool root).name given e := by
  have names : (k.tool root).name ∈ namers := by
    cases k with
    | editLines => exact (by decide : "edit_lines" ∈ namers)
    | createFile => exact (by decide : "create_file" ∈ namers)
    | _ => cases edits
  rcases FileTool.trace_edit edits run with ⟨-, ⟨_, wrong⟩, -⟩ | ⟨given, path, tried⟩
  · cases wrong
  cases tried with
  | changed planned drafted changed declares =>
    cases declares with
    | done change =>
      cases changed with
      | written recorded =>
        cases trace_recordChange.mp recorded with
        | recorded id time loaded =>
          rw [Turn.viewed?, change] at seen
          cases seen
          exact ⟨given, Json.member?_of_textArgument path, .named names (resolve_of_unchanged planned)⟩

/- Tools whose report is about more -/

theorem mute_findReferences (run : Act.Trace ((findReferences root).body arguments) l (.done o)) : Mute o := by
  refine @done_of_within _ _ _ _ _ _ _ _ Mute ?_ run
  refine within_next (within_any _) fun symbol => within_next (within_any _) fun scope => ?_
  refine within_next (within_any _) fun files => within_next (within_any _) fun sites => ?_
  exact within_pure ⟨rfl, Json.member?_none (by simp)⟩

theorem mute_findDefinition (run : Act.Trace (findDefinition.body arguments) l (.done o)) : Mute o := by
  refine @done_of_within _ _ _ _ _ _ _ _ Mute ?_ run
  refine within_next (within_any _) fun symbol => within_next (within_any _) fun files => ?_
  refine within_next (within_any _) fun index => ?_
  split
  · exact within_pure ⟨rfl, Json.member?_none (by simp)⟩
  · exact within_next (within_any _) fun found => within_pure ⟨rfl, Json.member?_none (by simp)⟩

theorem mute_getComplexity (run : Act.Trace ((getComplexity root).body arguments) l (.done o)) : Mute o := by
  obtain ⟨ranked, rfl⟩ := reports_getComplexity run
  exact ⟨rfl, Json.member?_none (by simp)⟩

theorem mute_getTodos (run : Act.Trace ((getTodos root).body arguments) l (.done o)) : Mute o := by
  refine @done_of_within _ _ _ _ _ _ _ _ Mute ?_ run
  refine within_next (within_any _) fun scope => within_next (within_any _) fun files => ?_
  exact within_pure ⟨rfl, Json.member?_none (by simp)⟩

theorem mute_gitStatus (run : Act.Trace ((gitStatus root).body arguments) l (.done o)) : Mute o := by
  obtain ⟨r, l₁, l₂, rfl, -, rest⟩ := Act.trace_bind.mp run
  cases r with
  | error f => cases (Act.trace_pure.mp rest).2
  | ok report =>
    cases read : RepositoryStatus.ofText report.output with
    | ok s =>
      simp only [read] at rest
      cases (Act.trace_pure.mp rest).2
      exact ⟨rfl, Json.member?_none (by simp)⟩
    | error crash =>
      simp only [read] at rest
      cases (Act.trace_pure.mp rest).2

theorem mute_runCommand {policy : CommandPolicy}
    (run : Act.Trace ((runCommand root policy).body arguments) l (.done o)) : Mute o := by
  refine @done_of_within _ _ _ _ _ _ _ _ Mute ?_ run
  refine within_next (within_any _) fun command => within_next (within_any _) fun _ => ?_
  refine within_next (within_any _) fun report => within_pure ⟨rfl, Json.member?_none ?_⟩
  simp [ProcessReport.members]

theorem mute_runTests (run : Act.Trace ((runTests root).body arguments) l (.done o)) : Mute o := by
  refine @done_of_within _ _ _ _ _ _ _ _ Mute ?_ run
  extract_lets path tested
  have mute (u : Unit) : Within (fun _ => True) Mute (tested u) := by
    refine within_next (within_any _) fun runner => ?_
    cases runner with
    | none => exact within_throw
    | some runner =>
      refine within_next (within_any _) fun report => within_pure ⟨rfl, Json.member?_none ?_⟩
      simp [ProcessReport.members]
  clear_value tested path
  split
  · exact within_next (within_any _) mute
  · exact mute ()

/-- However a tool is called, what comes into view is what the call's path is named by, or spelled. -/
theorem inView_standard {settings : Settings} {t : Tool Act} (member : t ∈ standardTools root settings)
    (run : Act.Trace (t.body arguments) l (.done o)) (seen : Turn.viewed? arguments o = some e) :
    ∃ given, arguments.member? "path" = some (.str given) ∧ InView root t.name given e := by
  simp only [standardTools, List.mem_cons, List.not_mem_nil, or_false] at member
  rcases member with rfl | rfl | rfl | rfl | rfl | rfl | rfl | rfl | rfl | rfl | rfl | rfl | rfl | rfl | rfl
  · exact (about_getLines run).inView (by decide : "get_lines" ∈ namers) seen
  · exact (about_getFunction run).inView (by decide : "get_function" ∈ namers) seen
  · exact inView_getStructure run seen
  · exact inView_edit (.editLines _) rfl run seen
  · exact inView_edit (.createFile _) rfl run seen
  · exact (mute_findReferences run).inView (by decide : "find_references" ∈ mutes) seen
  · exact (mute_findDefinition run).inView (by decide : "find_definition" ∈ mutes) seen
  · exact (about_getDependencies run).inView (by decide : "get_dependencies" ∈ namers) seen
  · exact (about_getDependents run).inView (by decide : "get_dependents" ∈ namers) seen
  · exact (mute_getComplexity run).inView (by decide : "get_complexity" ∈ mutes) seen
  · exact (mute_getTodos run).inView (by decide : "get_todos" ∈ mutes) seen
  · exact (mute_gitStatus run).inView (by decide : "git_status" ∈ mutes) seen
  · exact inView_gitDiff run seen
  · exact (mute_runCommand run).inView (by decide : "run_command" ∈ mutes) seen
  · exact (mute_runTests run).inView (by decide : "run_tests" ∈ mutes) seen

end

end Tool

end CodeAgent
