import CodeAgent.Proofs.Turn.Approval
import CodeAgent.Tool.Standard

/-! Tools that look and leave the project's files as they are.
They ask the index, read the file system and run programs of their own, and declare no change. -/
namespace CodeAgent

/-- Questions that leave the files of a project alone and that nobody has to approve. -/
def Ask.looks : Ask → Prop
  | .index _ | .process _ => True
  | .file (.read _) | .file (.status _) | .file (.list _) | .file (.canonical _) => True
  | _ => False

theorem Ask.ofTool_of_looks {q : Ask} (looks : q.looks) : q.ofTool := by
  cases q with
  | index | process | file => trivial
  | _ => exact looks.elim

/-- The change that a tool's body declares. -/
def BodyEnd.change? : BodyEnd → Option Change
  | .done o => o.change
  | _ => none

namespace Act

/-- A program that only looks. -/
abbrev Looks (p : Act α) : Prop := Within Ask.looks (fun _ => True) p

theorem looks_pure (a : α) : Looks (pure a) := .done trivial

theorem looks_process (c : ProcessCall) : Looks (process c) :=
  within_query (q := .process c) trivial fun _ => trivial

theorem within_mapM {allowed : Ask → Prop} {f : α → Act β}
    (each : ∀ a, Within allowed (fun _ => True) (f a)) (l : List α) :
    Within allowed (fun _ => True) (l.mapM f) := by
  induction l with
  | nil => exact within_pure trivial
  | cons a l ih =>
    rw [List.mapM_cons]
    exact within_next (each a) fun b => within_next ih fun bs => within_pure trivial

end Act

namespace Attempt

/-- A program that only looks, whether it fails or not. -/
abbrev Looks (p : Attempt α) : Prop := Within Ask.looks (fun _ => True) p

theorem looks_lift {p : Act α} (looks : Act.Looks p) : Looks (liftM p : Attempt α) :=
  within_lift looks

theorem looks_index (c : IndexCall) : Looks (index c) :=
  within_of (Act.within_query (q := .index c) trivial fun _ _ _ => trivial)

theorem looks_pure (a : α) : Looks (pure a) := within_pure trivial

theorem looks_throw (f : Fault) : Looks (throw f : Attempt α) := within_throw

theorem looks_ofOutcome (o : Outcome α) : Looks (Tool.ofOutcome o) :=
  within_ofOutcome fun _ _ => trivial

theorem looks_mapM {f : α → Attempt β} (looks : ∀ a, Looks (f a)) (l : List α) :
    Looks (l.mapM f) := by
  induction l with
  | nil => exact looks_pure []
  | cons a l ih =>
    rw [List.mapM_cons]
    exact within_next (looks a) fun b => within_next ih fun bs => looks_pure _

end Attempt

/- Programs that read files, where reading files is allowed -/

section

variable {allowed : Ask → Prop} (files : ∀ c, (Ask.file c).looks → allowed (.file c))
include files

namespace Files

open Attempt

theorem within_file {c : FileCall} (looks : (Ask.file c).looks) :
    Act.Within allowed (fun _ => True) (Act.file c) :=
  Act.within_query (files c looks) fun _ => trivial

theorem within_call {what path : String} {c : FileCall} (looks : (Ask.file c).looks) :
    Within allowed (fun _ => True) (call what path c) := by
  refine within_next (within_lift (within_file files looks)) fun answer => ?_
  cases answer with
  | ok a => exact within_pure trivial
  | error e => exact within_throw

theorem within_readText (path : String) : Within allowed (fun _ => True) (readText path) := by
  refine within_next (within_call files trivial) fun bytes => ?_
  split
  · exact within_pure trivial
  · exact within_throw

theorem within_loadRecord (path name : String) :
    Within allowed (fun _ => True) (loadRecord path name) :=
  within_next (within_readText files path) fun _ =>
    within_next (within_call files trivial) fun _ => within_pure trivial

theorem within_kind (path : String) : Act.Within allowed (fun _ => True) (kind? path) := by
  refine Act.within_next (within_file files trivial) fun answer => ?_
  cases answer <;> exact Act.within_pure trivial

theorem within_isFile (path : String) : Act.Within allowed (fun _ => True) (isFile path) :=
  Act.within_next (within_kind files path) fun _ => Act.within_pure trivial

end Files

namespace Scan

open Act Files

theorem within_rulesIn (path : String) : Within allowed (fun _ => True) (rulesIn path) := by
  refine within_next (within_file files trivial) fun answer => ?_
  cases answer <;> exact within_pure trivial

theorem within_rulesOf (directory : String) :
    Within allowed (fun _ => True) (rulesOf directory) :=
  within_next (within_rulesIn files _) fun _ => within_next (within_rulesIn files _) fun _ =>
    within_next (within_rulesIn files _) fun _ => within_pure trivial

theorem within_walk (chain : List Ignore.DirectoryRules) (directory inside : String) (depth : Nat) :
    Within allowed (fun _ => True) (walk chain directory inside depth) := by
  induction depth generalizing chain directory inside with
  | zero => exact within_pure trivial
  | succ depth ih =>
    unfold walk
    refine within_next (within_rulesOf files directory) fun rules => ?_
    refine within_next (within_file files trivial) fun answer => ?_
    cases answer with
    | error e => exact within_pure trivial
    | ok entries =>
      refine within_next (within_mapM (fun entry => ?_) entries) fun found => within_pure trivial
      obtain ⟨name, kind⟩ := entry
      dsimp only
      split
      · exact within_pure trivial
      · split
        · exact ih _ _ _
        · split
          · refine within_next (within_file files trivial) fun answer => ?_
            cases answer <;> exact within_pure trivial
          · exact within_pure trivial

theorem within_project (root : String) (ignored : List String) (maxSize : Nat) :
    Attempt.Within allowed (fun _ => True) (project root ignored maxSize) := by
  refine Attempt.within_next (Attempt.within_ofOutcome fun _ _ => trivial) fun filter => ?_
  refine Attempt.within_next (Attempt.within_lift ?_) fun found => Attempt.within_pure trivial
  refine within_next (within_file files trivial) fun answer => ?_
  cases answer with
  | error e => exact within_pure trivial
  | ok status =>
    dsimp only
    split
    · exact within_next (within_mapM (within_rulesOf files) _) fun chain => within_walk files ..
    · exact within_pure trivial

end Scan

end

namespace Files

theorem looks_loadRecord (path name : String) : Attempt.Looks (loadRecord path name) :=
  within_loadRecord (fun _ => id) path name

end Files

namespace Tool

open Attempt

theorem within_resolve {allowed : Ask → Prop} (root given : String) :
    Within allowed (fun _ => True) (resolve root given) := by
  unfold resolve
  split
  · exact within_pure trivial
  · exact within_throw

theorem looks_resolve (root given : String) : Looks (resolve root given) := within_resolve root given

theorem looks_scope (root : String) (arguments : Json) : Looks (scope? root arguments) := by
  unfold scope?
  split
  · exact looks_pure _
  · exact within_next (looks_resolve ..) fun _ => looks_pure _

theorem looks_observe (root given : String) : Looks (observe root given) := by
  refine within_next (looks_resolve root given) fun absolute => ?_
  refine within_next (looks_lift (Files.within_isFile (fun _ => id) absolute)) fun isFile => ?_
  split
  · exact looks_throw _
  · refine within_next (Files.looks_loadRecord ..) fun record => ?_
    refine within_next (looks_index _) fun stored => ?_
    split
    · exact within_next (looks_index (.setFile record)) fun _ => looks_pure record
    · exact looks_pure record

theorem looks_indexedFiles : Looks indexedFiles := by
  refine within_next (looks_index _) fun files => ?_
  split
  · exact looks_throw _
  · exact looks_pure files

theorem looks_filesInScope (scope : Option String) : Looks (filesInScope scope) :=
  within_next looks_indexedFiles fun _ => looks_pure _

theorem looks_runProgram (root program : String) (arguments : List String) (timeoutMs : Nat) :
    Looks (runProgram root program arguments timeoutMs) := by
  refine within_next (looks_lift (Act.looks_process _)) fun ended => ?_
  cases ended with
  | finished exit output errors => exact looks_pure _
  | _ => exact looks_throw _

theorem looks_git (root command : String) (arguments : List String) :
    Looks (git root command arguments) := by
  refine within_next (looks_runProgram ..) fun report => ?_
  split
  · exact looks_pure report
  · exact looks_throw _

theorem looks_indexedMeta (root : String) (arguments : Json) :
    Looks (indexedMeta root arguments) := by
  refine within_next (looks_ofOutcome _) fun given => ?_
  refine within_next (looks_resolve ..) fun path => ?_
  refine within_next (looks_index _) fun found => ?_
  cases found with
  | some m => exact looks_pure _
  | none => exact looks_throw _

theorem looks_describeNeighbour (path : String) : Looks (describeNeighbour path) := by
  refine within_next (looks_index _) fun found => ?_
  cases found <;> exact looks_pure _

theorem looks_rank (r : FileRecord) : Looks (rank? r) :=
  within_next (looks_index _) fun _ => looks_pure _

theorem looks_describeSite (s : Site) : Looks (describeSite s) :=
  within_next (looks_index _) fun _ => looks_pure _

/- The tools -/

/-- A tool that only looks. -/
structure Looking (t : Tool Act) : Prop where
  summary : ∀ arguments, Act.Looks (t.summary arguments)
  body : ∀ arguments, Act.Within Ask.looks (fun e => e.change? = none) (t.body arguments)

theorem looking_ofProgram {name description : String} {parameters : Schema}
    {category : ToolCategory} {program : Json → Attempt ToolOutput}
    (looks : ∀ arguments, Within Ask.looks (fun o => o.change = none) (program arguments)) :
    Looking (ofProgram name description parameters category program) where
  summary := fun _ => Act.looks_pure _
  body := fun arguments => by
    apply Act.within_map
    apply Act.Within.mono (looks arguments) fun _ h => h
    intro r h
    cases r with
    | ok o => exact h o rfl
    | error f => rfl

theorem looks_output (data : Json) :
    Within Ask.looks (fun o => o.change = none) (pure (ToolOutput.of data)) := within_pure rfl

variable (root : String)

theorem looking_getLines : Looking (getLines root) := by
  refine looking_ofProgram fun arguments => ?_
  refine within_next (looks_ofOutcome _) fun path => ?_
  refine within_next (looks_observe root path) fun record => ?_
  extract_lets total start last shown bounded
  have looks : ∀ u, Within Ask.looks (fun o => o.change = none) (bounded u) := by
    intro u
    unfold bounded
    split
    · exact within_throw_bind
    · exact looks_output _
  split
  · exact within_throw_bind
  · exact looks ()

theorem looking_getFunction : Looking (getFunction root) := by
  refine looking_ofProgram fun arguments => ?_
  refine within_next (looks_ofOutcome _) fun name => ?_
  refine within_next (looks_ofOutcome _) fun path => ?_
  refine within_next (looks_observe root path) fun record => ?_
  split
  · exact within_throw
  · dsimp only
    split
    · exact within_throw
    · exact looks_output _

theorem looking_getStructure : Looking (getStructure root) := by
  refine looking_ofProgram fun arguments => ?_
  extract_lets depth shown
  have looks : ∀ base, Within Ask.looks (fun o => o.change = none) (shown base) := by
    intro base
    refine within_next (looks_lift (Files.within_kind (fun _ => id) base)) fun kind => ?_
    extract_lets listed
    split
    · exact within_throw_bind
    · exact within_next (Scan.within_project (fun _ => id) ..) fun files => looks_output _
  split
  · exact within_next (looks_resolve ..) looks
  · exact looks root

theorem looking_findReferences : Looking (findReferences root) := by
  refine looking_ofProgram fun arguments => ?_
  refine within_next (looks_ofOutcome _) fun symbol => ?_
  refine within_next (looks_scope root arguments) fun scope => ?_
  refine within_next (looks_filesInScope scope) fun files => ?_
  exact within_next (looks_index _) fun index => looks_output _

theorem looking_findDefinition : Looking findDefinition := by
  refine looking_ofProgram fun arguments => ?_
  refine within_next (looks_ofOutcome _) fun symbol => ?_
  refine within_next looks_indexedFiles fun _ => ?_
  refine within_next (looks_index _) fun index => ?_
  split
  · exact looks_output _
  · exact within_next (looks_mapM looks_describeSite _) fun found => looks_output _

theorem looking_getDependencies : Looking (getDependencies root) := by
  refine looking_ofProgram fun arguments => ?_
  refine within_next (looks_indexedMeta root arguments) fun named => ?_
  refine within_next (looks_index _) fun graph => ?_
  exact within_next (looks_mapM looks_describeNeighbour _) fun found => looks_output _

theorem looking_getDependents : Looking (getDependents root) := by
  refine looking_ofProgram fun arguments => ?_
  refine within_next (looks_indexedMeta root arguments) fun named => ?_
  refine within_next (looks_index _) fun graph => ?_
  exact within_next (looks_mapM looks_describeNeighbour _) fun found => looks_output _

theorem looking_getComplexity : Looking (getComplexity root) := by
  refine looking_ofProgram fun arguments => ?_
  refine within_next (looks_scope root arguments) fun scope => ?_
  refine within_next looks_indexedFiles fun files => ?_
  exact within_next (looks_mapM looks_rank _) fun found => looks_output _

theorem looking_getTodos : Looking (getTodos root) := by
  refine looking_ofProgram fun arguments => ?_
  refine within_next (looks_scope root arguments) fun scope => ?_
  exact within_next (looks_filesInScope scope) fun files => looks_output _

theorem looking_gitStatus : Looking (gitStatus root) where
  summary := fun _ => Act.looks_pure _
  body := fun arguments => by
    refine Act.within_next ?_ fun report => ?_
    · exact Act.Within.asks (looks_git root _ _)
    · cases report with
      | error f => exact Act.within_pure rfl
      | ok report =>
        dsimp only
        split <;> exact Act.within_pure rfl

theorem looking_gitDiff : Looking (gitDiff root) := by
  refine looking_ofProgram fun arguments => ?_
  refine within_next (looks_scope root arguments) fun path => ?_
  exact within_next (looks_git root _ _) fun report => looks_output _

theorem looks_hasFile (names : List String) : Act.Looks (TestRunner.hasFile root names) := by
  induction names with
  | nil => exact Act.looks_pure _
  | cons name rest ih =>
    refine Act.within_next (Files.within_isFile (fun _ => id) _) fun found => ?_
    cases found with
    | true => exact Act.looks_pure _
    | false => exact ih

theorem looks_detect (path filter : Option String) :
    Act.Looks (TestRunner.detect? root path filter) := by
  refine Act.within_next (Files.within_isFile (fun _ => id) _) fun cargo => ?_
  split
  · exact Act.looks_pure _
  · refine Act.within_next ?_ fun manifest => ?_
    · exact Act.Within.asks (Files.within_readText (fun _ => id) _)
    · cases manifest with
      | ok manifest => exact Act.looks_pure _
      | error f =>
        refine Act.within_next (looks_hasFile root _) fun marked => ?_
        split
        · exact Act.looks_pure _
        · refine Act.within_next (Files.within_isFile (fun _ => id) _) fun go => ?_
          split <;> exact Act.looks_pure _

theorem looking_runTests : Looking (runTests root) := by
  refine looking_ofProgram fun arguments => ?_
  extract_lets path tested
  have looks : ∀ u, Within Ask.looks (fun o => o.change = none) (tested u) := by
    intro u
    refine within_next (looks_lift (looks_detect root _ _)) fun runner => ?_
    cases runner with
    | none => exact within_throw
    | some runner => exact within_next (looks_runProgram ..) fun report => looks_output _
  clear_value tested path
  split
  · refine within_next ?_ looks
    exact within_next (looks_resolve ..) fun _ => looks_pure _
  · exact looks ()

end Tool

end CodeAgent
