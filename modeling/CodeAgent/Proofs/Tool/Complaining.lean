import CodeAgent.Proofs.Tool.Accepting
import CodeAgent.Proofs.Tool.Planning

/-! Programs that do not complain about missing parameters.
A tool reports a parameter as missing in words that begin like no other report of its own. So it fails in
these words only where it looks for a parameter, or where an answer that it heard had them. -/
namespace CodeAgent

/-- The report says that a parameter is missing. -/
def Complains (why : String) : Prop := Text.startsWith why "Missing required parameter" = true

/-- The text begins unlike such a report. -/
def Plain (why : String) : Prop := why.toList.head?.any (· ≠ 'M') = true

instance (why : String) : Decidable (Complains why) := inferInstanceAs (Decidable (_ = true))
instance (why : String) : Decidable (Plain why) := inferInstanceAs (Decidable (_ = true))

theorem Plain.append {s : String} (plain : Plain s) (t : String) : Plain (s ++ t) := by
  rw [Plain, String.toList_append]
  rw [Plain] at plain
  cases shape : s.toList with
  | nil => simp [shape] at plain
  | cons c cs =>
    rw [shape] at plain
    exact plain

theorem Plain.not_complains {why : String} (plain : Plain why) : ¬ Complains why := by
  intro complains
  obtain ⟨rest, same⟩ := List.isPrefixOf_iff_prefix.mp complains
  have first : why.toList.head? = some 'M' := by
    rw [← same]
    rfl
  rw [Plain, first] at plain
  revert plain
  decide

theorem Plain.told {why : String} (plain : Plain why) (kind : FaultKind) : Plain (Fault.of kind why).message :=
  plain

theorem Plain.hinted {f : Fault} (plain : Plain f.message) (hint : String) :
    Plain (f.withHint hint).message := plain

namespace Attempt

/-- If the program fails with such a complaint, an answer of the index was that failure. -/
def Clean (p : Attempt α) : Prop :=
  ∀ l f, Act.Trace p.run l (.error f) → Complains f.message →
    ∃ c : IndexCall, (⟨.index c, (.error f : Outcome c.Result)⟩ : Heard) ∈ l

theorem clean_pure (a : α) : Clean (pure a : Attempt α) := by
  intro l f run
  obtain ⟨-, wrong⟩ := trace_pure.mp run
  cases wrong

theorem clean_throw {f : Fault} (plain : Plain f.message) : Clean (throw f : Attempt α) := by
  intro l g run complains
  obtain ⟨-, same⟩ := trace_throw.mp run
  cases same
  exact absurd complains plain.not_complains

theorem clean_bind {p : Attempt α} {f : α → Attempt β} (first : Clean p) (second : ∀ a, Clean (f a)) :
    Clean (p >>= f) := by
  intro l e run complains
  rcases trace_bind.mp run with ⟨_, ran, same⟩ | ⟨a, l₁, l₂, rfl, -, rest⟩
  · cases same
    exact first l e ran complains
  · obtain ⟨c, heard⟩ := second a l₂ e rest complains
    exact ⟨c, List.mem_append_right l₁ heard⟩

theorem clean_lift (p : Act α) : Clean (liftM p : Attempt α) := by
  intro l f run
  have lifted : (liftM p : Attempt α).run = Except.ok <$> p := rfl
  rw [lifted, Act.trace_map] at run
  obtain ⟨_, -, wrong⟩ := run
  cases wrong

theorem clean_index (c : IndexCall) : Clean (index c) := by
  intro l f run _
  rw [trace_index.mp run]
  exact ⟨c, List.mem_cons_self⟩

theorem clean_ofOutcome {o : Outcome α} (plain : ∀ f, o = .error f → Plain f.message) :
    Clean (Tool.ofOutcome o) := by
  cases o with
  | ok a => exact clean_pure a
  | error f => exact clean_throw (plain f rfl)

theorem clean_mapM {f : α → Attempt β} (each : ∀ a, Clean (f a)) (as : List α) : Clean (as.mapM f) := by
  induction as with
  | nil => exact clean_pure []
  | cons a as ih =>
    rw [List.mapM_cons]
    exact clean_bind (each a) fun b => clean_bind ih fun bs => clean_pure _

end Attempt

open Attempt

namespace Files

theorem plain_refused (what path why : String) : Plain (refused what path why).message := by
  have front : Plain "Failed to " := by simp [Plain]
  exact ((((front.append what).append " ").append path).append ": ").append why

theorem clean_call (what path : String) (c : FileCall) : Clean (call what path c) := by
  refine clean_bind (clean_lift _) fun answer => ?_
  cases answer with
  | ok a => exact clean_pure a
  | error e => exact clean_throw (plain_refused what path e.message)

theorem clean_readText (path : String) : Clean (readText path) := by
  refine clean_bind (clean_call _ _ _) fun bytes => ?_
  split
  · exact clean_pure _
  · exact clean_throw (plain_refused "read" path notText)

theorem clean_loadRecord (path name : String) : Clean (loadRecord path name) :=
  clean_bind (clean_readText path) fun _ => clean_bind (clean_call _ _ _) fun _ => clean_pure _

theorem clean_writeText (path content : String) : Clean (writeText path content) :=
  clean_bind (clean_call _ _ _) fun _ => clean_call _ _ _

end Files

namespace Tool

theorem clean_resolve (root given : String) : Clean (resolve root given) := by
  rw [resolve]
  split
  · exact clean_pure _
  · rename_i r _
    apply clean_throw
    cases r with
    | empty => decide
    | outside path =>
      have front : Plain "Path '" := by simp [Plain]
      exact (front.append path).append "' is outside the project root"

theorem clean_scope (root : String) (arguments : Json) : Clean (scope? root arguments) := by
  rw [scope?]
  split
  · exact clean_pure _
  · exact clean_bind (clean_resolve root _) fun _ => clean_pure _

theorem clean_throw_bind {f : Fault} (plain : Plain f.message) (g : α → Attempt β) :
    Clean (throw f >>= g) := by
  have ends : (throw f >>= g : Attempt β) = throw f := rfl
  rw [ends]
  exact clean_throw plain

theorem clean_observe (root given : String) : Clean (observe root given) := by
  unfold observe
  refine clean_bind (clean_resolve root given) fun absolute => ?_
  refine clean_bind (clean_lift _) fun there => ?_
  dsimp only
  split
  · have front : Plain "File not found: " := by simp [Plain]
    exact clean_throw_bind (((front.append _).told _).hinted _) _
  · refine clean_bind (Files.clean_loadRecord _ _) fun record => ?_
    refine clean_bind (clean_index _) fun stored => ?_
    split
    · exact clean_bind (clean_index _) fun _ => clean_pure record
    · exact clean_pure record

theorem clean_indexedFiles : Clean indexedFiles := by
  unfold indexedFiles
  refine clean_bind (clean_index _) fun files => ?_
  split
  · have plain : Plain "Project is not indexed" := by simp [Plain]
    exact clean_throw_bind ((plain.told _).hinted _) _
  · exact clean_pure files

theorem clean_filesInScope (scope : Option String) : Clean (filesInScope scope) :=
  clean_bind clean_indexedFiles fun _ => clean_pure _

theorem clean_unchanged (root given : String) : Clean (unchanged? root given) := by
  unfold unchanged?
  refine clean_bind (clean_resolve root given) fun absolute => ?_
  refine clean_bind (clean_lift _) fun kind => ?_
  split
  · exact clean_pure _
  · dsimp only
    split
    · have front : Plain "Not a file: " := by simp [Plain]
      exact clean_throw_bind ((front.append _).told _) _
    · refine clean_bind (Files.clean_loadRecord _ _) fun current => ?_
      refine clean_bind (clean_index _) fun stored => ?_
      split
      · exact clean_pure _
      · split
        · have front : Plain "File has been modified since it was last read: " := by simp [Plain]
          exact clean_throw_bind (((front.append _).told _).hinted _) _
        · exact clean_pure _

theorem clean_writeChange (root absolute content description : String) (previous : Option FileRecord) :
    Clean (writeChange root absolute previous content description) := by
  unfold writeChange
  refine clean_bind (clean_lift _) fun cancelled => ?_
  split
  · have front : Plain "Cancelled before writing " := by simp [Plain]
    exact clean_throw_bind ((front.append _).told _) _
  · refine clean_bind (Files.clean_writeText _ _) fun _ => ?_
    refine clean_bind (Files.clean_loadRecord _ _) fun record => ?_
    refine clean_bind (clean_index _) fun _ => ?_
    refine clean_bind (clean_lift _) fun id => ?_
    exact clean_bind (clean_lift _) fun time => clean_pure _

theorem clean_runProgram (root program : String) (arguments : List String) (timeoutMs : Nat) :
    Clean (runProgram root program arguments timeoutMs) := by
  unfold runProgram
  refine clean_bind (clean_lift _) fun ended => ?_
  cases ended with
  | notStarted why =>
    have front : Plain "Failed to spawn command: " := by simp [Plain]
    exact clean_throw ((front.append why).told _)
  | lost why =>
    have front : Plain "Failed to execute command: " := by simp [Plain]
    exact clean_throw ((front.append why).told _)
  | finished exit output errors => exact clean_pure _
  | timedOut =>
    have front : Plain "Command timed out after " := by simp [Plain]
    exact clean_throw (((front.append _).append " ms").told _)
  | cancelled =>
    have plain : Plain "Command cancelled" := by simp [Plain]
    exact clean_throw (plain.told _)

theorem clean_git (root command : String) (arguments : List String) : Clean (git root command arguments) := by
  unfold git
  refine clean_bind (clean_runProgram _ _ _ _) fun report => ?_
  dsimp only
  split
  · exact clean_pure _
  · have front : Plain "git " := by simp [Plain]
    have plain := (((front.append command).append " failed: ").append (Text.trim report.errors)).told .command
    split
    · exact clean_throw (plain.hinted _)
    · exact clean_throw plain

theorem clean_indexedMeta (root : String) {arguments : Json} {given : String}
    (text : arguments.textArgument "path" = .ok given) : Clean (indexedMeta root arguments) := by
  unfold indexedMeta
  refine clean_bind (clean_ofOutcome (by simp [text])) fun given => ?_
  refine clean_bind (clean_resolve root given) fun absolute => ?_
  refine clean_bind (clean_index _) fun derived => ?_
  cases derived with
  | some m => exact clean_pure _
  | none =>
    have front : Plain "File not indexed: " := by simp [Plain]
    exact clean_throw (((front.append _).told _).hinted _)

theorem clean_describeNeighbour (path : String) : Clean (describeNeighbour path) :=
  clean_bind (clean_index _) fun _ => clean_pure _

theorem clean_ranking (limit : Nat) (files : List FileRecord) : Clean (ranking limit files) := by
  unfold ranking
  exact clean_bind (clean_mapM (fun r => clean_bind (clean_index _) fun _ => clean_pure _) files)
    fun _ => clean_pure _

theorem clean_symbolArgument {arguments : Json} {given : String}
    (text : arguments.textArgument "symbol" = .ok given) : Clean (ofOutcome (symbolArgument arguments)) := by
  apply clean_ofOutcome
  intro f failed
  rw [symbolArgument, text] at failed
  dsimp only at failed
  split at failed
  · cases failed
    decide
  · cases failed

theorem clean_admitCommand (policy : CommandPolicy) (command : String) : Clean (admitCommand policy command) := by
  unfold admitCommand
  dsimp only
  split
  · exact clean_pure _
  · have front : Plain "Command blocked: " := by simp [Plain]
    exact clean_throw (((front.append _).told _).hinted _)
  · refine clean_bind (clean_lift _) fun approved => ?_
    split
    · have plain : Plain "Command rejected by user" := by simp [Plain]
      exact clean_throw (plain.told _)
    · exact clean_pure _

theorem clean_project (root : String) (maxSize : Nat) : Clean (Scan.project root [] maxSize) := by
  unfold Scan.project
  refine clean_bind (clean_ofOutcome (by simp [Ignore.PathFilter.ofPatterns])) fun filter => ?_
  exact clean_bind (clean_lift _) fun found => clean_pure _

/- Tools -/

/-- If the tool fails with such a complaint, an answer of the index had the words. -/
def Clean (t : Tool Act) (arguments : Json) : Prop :=
  ∀ l e why, Act.Trace (t.body arguments) l e → e.outcome = .error why → Complains why →
    ∃ (c : IndexCall) (f : Fault), (⟨.index c, (.error f : Outcome c.Result)⟩ : Heard) ∈ l ∧ f.message = why

theorem clean_ofProgram {name description : String} {parameters : Schema} {category : ToolCategory}
    {body : Json → Attempt ToolOutput} {arguments : Json} (clean : Attempt.Clean (body arguments)) :
    (ofProgram name description parameters category body).Clean arguments := by
  intro l e why run failed complains
  obtain ⟨r, ran, rfl⟩ := Act.trace_map.mp run
  cases r with
  | ok o => cases failed
  | error f =>
    cases failed
    obtain ⟨c, heard⟩ := clean l f ran complains
    exact ⟨c, f, heard, rfl⟩

section

variable {root : String} {arguments : Json} {given name content : String}

theorem clean_getLines (path : arguments.textArgument "path" = .ok given) :
    (getLines root).Clean arguments := by
  apply clean_ofProgram
  refine clean_bind (clean_ofOutcome (by simp [path])) fun path => ?_
  refine clean_bind (clean_observe root path) fun record => ?_
  dsimp only
  split
  · have front : Plain "start (" := by simp [Plain]
    exact clean_throw_bind ((((((((front.append _).append _).append _).append _).append _).append _)).told _) _
  · split
    · have front : Plain "end (" := by simp [Plain]
      exact clean_throw_bind (((((front.append _).append _).append _).append _).told _) _
    · exact clean_pure _

theorem clean_getFunction (named : arguments.textArgument "name" = .ok name)
    (path : arguments.textArgument "path" = .ok given) : (getFunction root).Clean arguments := by
  apply clean_ofProgram
  refine clean_bind (clean_ofOutcome (by simp [named])) fun name => ?_
  refine clean_bind (clean_ofOutcome (by simp [path])) fun path => ?_
  refine clean_bind (clean_observe root path) fun record => ?_
  split
  · have front : Plain "Unsupported file type: " := by simp [Plain]
    exact clean_throw ((front.append _).told _)
  · dsimp only
    split
    · have front : Plain "Function '" := by simp [Plain]
      exact clean_throw (((((front.append _).append _).append _).told _).hinted _)
    · exact clean_pure _

theorem clean_getStructure (root : String) (arguments : Json) : (getStructure root).Clean arguments := by
  apply clean_ofProgram
  extract_lets depth shown
  have clean (base : String) : Attempt.Clean (shown base) := by
    refine clean_bind (clean_lift _) fun kind => ?_
    extract_lets listed
    split
    · have front : Plain "Not a directory: " := by simp [Plain]
      exact clean_throw_bind ((front.append _).told _) _
    · exact clean_bind (clean_project _ _) fun files => clean_pure _
  split
  · exact clean_bind (clean_resolve root _) clean
  · exact clean root

theorem clean_plan {start last : Nat} (path : arguments.textArgument "path" = .ok given)
    (first : arguments.countArgument "start" = .ok start) (final : arguments.countArgument "end" = .ok last)
    (text : arguments.textArgument "content" = .ok content) :
    Attempt.Clean (PlannedEdit.of root arguments) := by
  refine clean_bind (clean_ofOutcome (by simp [path])) fun path => ?_
  refine clean_bind (clean_ofOutcome (by simp [first])) fun start => ?_
  refine clean_bind (clean_ofOutcome (by simp [final])) fun last => ?_
  refine clean_bind (clean_ofOutcome (by simp [text])) fun content => ?_
  refine clean_bind (clean_unchanged root path) fun found => ?_
  obtain ⟨absolute, existing⟩ := found
  cases existing with
  | none =>
    have front : Plain "File not found: " := by simp [Plain]
    exact clean_throw (((front.append _).told _).hinted _)
  | some current =>
    dsimp only
    split
    · rename_i why misfit
      refine clean_throw (Plain.told ?_ _)
      rw [LineEdit.misfit?] at misfit
      split at misfit
      · obtain rfl := Option.some.inj misfit
        have front : Plain "start must be between 1 and " := by simp [Plain]
        exact ((front.append _).append _).append _
      · split at misfit
        · obtain rfl := Option.some.inj misfit
          have front : Plain "end must be between " := by simp [Plain]
          exact ((((front.append _).append _).append _).append _).append _
        · cases misfit
    · exact clean_pure _

theorem clean_editing {t : Tool Act} (clean : t.Clean arguments) (autoApply : Bool)
    (summary : Json → Act String) : (editing autoApply t summary).Clean arguments := clean

theorem clean_editLines {start last : Nat} (autoApply : Bool) (path : arguments.textArgument "path" = .ok given)
    (first : arguments.countArgument "start" = .ok start) (final : arguments.countArgument "end" = .ok last)
    (text : arguments.textArgument "content" = .ok content) :
    (editLines root autoApply).Clean arguments := by
  apply clean_editing
  apply clean_ofProgram
  refine clean_bind (clean_plan path first final text) fun p => ?_
  exact clean_bind (clean_writeChange _ _ _ _ _) fun _ => clean_pure _

theorem clean_createFile (autoApply : Bool) (path : arguments.textArgument "path" = .ok given)
    (text : arguments.textArgument "content" = .ok content) :
    (createFile root autoApply).Clean arguments := by
  apply clean_editing
  apply clean_ofProgram
  refine clean_bind (clean_ofOutcome (by simp [path])) fun path => ?_
  refine clean_bind (clean_ofOutcome (by simp [text])) fun content => ?_
  refine clean_bind (clean_unchanged root path) fun found => ?_
  exact clean_bind (clean_writeChange _ _ _ _ _) fun _ => clean_pure _

theorem clean_findReferences (symbol : arguments.textArgument "symbol" = .ok given) :
    (findReferences root).Clean arguments := by
  apply clean_ofProgram
  refine clean_bind (clean_symbolArgument symbol) fun symbol => ?_
  refine clean_bind (clean_scope root arguments) fun scope => ?_
  refine clean_bind (clean_filesInScope scope) fun files => ?_
  exact clean_bind (clean_index _) fun sites => clean_pure _

theorem clean_findDefinition (symbol : arguments.textArgument "symbol" = .ok given) :
    findDefinition.Clean arguments := by
  apply clean_ofProgram
  refine clean_bind (clean_symbolArgument symbol) fun symbol => ?_
  refine clean_bind clean_indexedFiles fun _ => ?_
  refine clean_bind (clean_index _) fun index => ?_
  split
  · exact clean_pure _
  · exact clean_bind (clean_mapM (fun site => clean_bind (clean_index _) fun _ => clean_pure _) _)
      fun _ => clean_pure _

theorem clean_getDependencies (path : arguments.textArgument "path" = .ok given) :
    (getDependencies root).Clean arguments := by
  apply clean_ofProgram
  refine clean_bind (clean_indexedMeta root path) fun found => ?_
  refine clean_bind (clean_index _) fun graph => ?_
  exact clean_bind (clean_mapM clean_describeNeighbour _) fun _ => clean_pure _

theorem clean_getDependents (path : arguments.textArgument "path" = .ok given) :
    (getDependents root).Clean arguments := by
  apply clean_ofProgram
  refine clean_bind (clean_indexedMeta root path) fun found => ?_
  refine clean_bind (clean_index _) fun graph => ?_
  exact clean_bind (clean_mapM clean_describeNeighbour _) fun _ => clean_pure _

theorem clean_getComplexity (root : String) (arguments : Json) : (getComplexity root).Clean arguments := by
  apply clean_ofProgram
  refine clean_bind (clean_scope root arguments) fun scope => ?_
  exact clean_bind clean_indexedFiles fun files => clean_ranking _ _

theorem clean_getTodos (root : String) (arguments : Json) : (getTodos root).Clean arguments := by
  apply clean_ofProgram
  refine clean_bind (clean_scope root arguments) fun scope => ?_
  exact clean_bind (clean_filesInScope scope) fun files => clean_pure _

theorem clean_gitDiff (root : String) (arguments : Json) : (gitDiff root).Clean arguments := by
  apply clean_ofProgram
  refine clean_bind (clean_scope root arguments) fun scope => ?_
  exact clean_bind (clean_git _ _ _) fun report => clean_pure _

theorem clean_runCommand (policy : CommandPolicy) (command : arguments.textArgument "command" = .ok given) :
    (runCommand root policy).Clean arguments := by
  apply clean_ofProgram
  refine clean_bind (clean_ofOutcome (by simp [command])) fun command => ?_
  refine clean_bind (clean_admitCommand policy command) fun _ => ?_
  exact clean_bind (clean_runProgram _ _ _ _) fun report => clean_pure _

theorem clean_runTests (root : String) (arguments : Json) : (runTests root).Clean arguments := by
  apply clean_ofProgram
  extract_lets path tested
  have clean (u : Unit) : Attempt.Clean (tested u) := by
    refine clean_bind (clean_lift _) fun runner => ?_
    cases runner with
    | none =>
      have plain : Plain "No test runner detected" := by simp [Plain]
      exact clean_throw ((plain.told _).hinted _)
    | some runner => exact clean_bind (clean_runProgram _ _ _ _) fun report => clean_pure _
  clear_value tested path
  split
  · exact clean_bind (clean_bind (clean_resolve root _) fun _ => clean_pure _) clean
  · exact clean ()

theorem plain_withinCharacter (line : String) (c : Char) (start : Nat) :
    Plain (RepositoryStatus.withinCharacter line c start) := by
  have front : Plain "byte index 2 is not a char boundary; it is inside '" := by simp [Plain]
  unfold RepositoryStatus.withinCharacter
  exact (((((((((front.append _).append _).append _).append _).append _).append _).append _).append _).append
    _).append _

theorem plain_readLine {s : RepositoryStatus} {line crash : String}
    (crashed : s.readLine line = .error crash) : Plain crash := by
  unfold RepositoryStatus.readLine at crashed
  split at crashed
  · cases crashed
  · extract_lets add at crashed
    split at crashed
    · cases crashed
    · split at crashed
      · cases crashed
      · split at crashed
        · cases crashed
        · split at crashed
          · cases crashed
            exact plain_withinCharacter line _ 0
          · split at crashed
            · cases crashed
            · split at crashed
              · cases crashed
                exact plain_withinCharacter line _ 1
              · cases crashed

/-- The text with which reading a status crashes is about bytes. -/
theorem plain_crash {output crash : String} (crashed : RepositoryStatus.ofText output = .error crash) :
    Plain crash := by
  have reads (lines : List String) (s : RepositoryStatus)
      (failed : lines.foldlM RepositoryStatus.readLine s = .error crash) : Plain crash := by
    induction lines generalizing s with
    | nil => cases failed
    | cons line lines ih =>
      rw [List.foldlM_cons] at failed
      cases first : s.readLine line with
      | ok t =>
        rw [first] at failed
        exact ih t failed
      | error why =>
        rw [first] at failed
        cases failed
        exact plain_readLine first
  exact reads _ _ crashed

theorem clean_gitStatus (root : String) (arguments : Json) : (gitStatus root).Clean arguments := by
  intro l e why run failed complains
  obtain ⟨r, l₁, l₂, rfl, ran, rest⟩ := Act.trace_bind.mp run
  cases r with
  | error f =>
    obtain ⟨rfl, rfl⟩ := Act.trace_pure.mp rest
    cases failed
    obtain ⟨c, heard⟩ := clean_git root "status" _ l₁ f ran complains
    exact ⟨c, f, List.mem_append_left _ heard, rfl⟩
  | ok report =>
    cases read : RepositoryStatus.ofText report.output with
    | ok s =>
      simp only [read] at rest
      obtain ⟨rfl, rfl⟩ := Act.trace_pure.mp rest
      cases failed
    | error crash =>
      simp only [read] at rest
      obtain ⟨rfl, rfl⟩ := Act.trace_pure.mp rest
      cases failed
      exact absurd complains (plain_crash read).not_complains

/-- Of tools with accepted arguments only an edit of lines ever misses a parameter, and only if one of its
numbers cannot be read. -/
theorem clean_standard {settings : Settings} {t : Tool Act} (member : t ∈ standardTools root settings)
    (accepts : t.definition.parameters.Accepts arguments)
    (readable : t.name = "edit_lines" → ∀ name ∈ ["start", "end"],
      ∃ n, arguments.countArgument name = .ok n) :
    t.Clean arguments := by
  simp only [standardTools, List.mem_cons, List.not_mem_nil, or_false] at member
  rcases member with rfl | rfl | rfl | rfl | rfl | rfl | rfl | rfl | rfl | rfl | rfl | rfl | rfl | rfl | rfl
  · obtain ⟨_, path⟩ := @Schema.Accepts.text _ _ "path" accepts rfl rfl
    exact clean_getLines path
  · obtain ⟨_, path⟩ := @Schema.Accepts.text _ _ "path" accepts rfl rfl
    obtain ⟨_, name⟩ := @Schema.Accepts.text _ _ "name" accepts rfl rfl
    exact clean_getFunction name path
  · exact clean_getStructure root arguments
  · obtain ⟨_, path⟩ := @Schema.Accepts.text _ _ "path" accepts rfl rfl
    obtain ⟨_, content⟩ := @Schema.Accepts.text _ _ "content" accepts rfl rfl
    obtain ⟨_, first⟩ := readable rfl "start" (by decide)
    obtain ⟨_, final⟩ := readable rfl "end" (by decide)
    exact clean_editLines _ path first final content
  · obtain ⟨_, path⟩ := @Schema.Accepts.text _ _ "path" accepts rfl rfl
    obtain ⟨_, content⟩ := @Schema.Accepts.text _ _ "content" accepts rfl rfl
    exact clean_createFile _ path content
  · obtain ⟨_, symbol⟩ := @Schema.Accepts.text _ _ "symbol" accepts rfl rfl
    exact clean_findReferences symbol
  · obtain ⟨_, symbol⟩ := @Schema.Accepts.text _ _ "symbol" accepts rfl rfl
    exact clean_findDefinition symbol
  · obtain ⟨_, path⟩ := @Schema.Accepts.text _ _ "path" accepts rfl rfl
    exact clean_getDependencies path
  · obtain ⟨_, path⟩ := @Schema.Accepts.text _ _ "path" accepts rfl rfl
    exact clean_getDependents path
  · exact clean_getComplexity root arguments
  · exact clean_getTodos root arguments
  · exact clean_gitStatus root arguments
  · exact clean_gitDiff root arguments
  · obtain ⟨_, command⟩ := @Schema.Accepts.text _ _ "command" accepts rfl rfl
    exact clean_runCommand _ command
  · exact clean_runTests root arguments

end

end Tool

end CodeAgent
