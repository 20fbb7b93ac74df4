import CodeAgent.Proofs.Tool.Complaining
import CodeAgent.Proofs.Tool.Editing
import CodeAgent.Proofs.Tool.Registry

/-! What the whole numbers do that a tool is given.
A number that is not negative shows in what a run that is done reports, writes or asks for, as it is or as
the nearest one that the tool allows. A negative one passes its schema and is not read: the tool does what
it would do without that argument, and the edit of lines then misses it. -/
namespace CodeAgent

namespace Schema

/-- The name is declared as that of a whole number. -/
def Declares (s : Schema) (name : String) : Prop := (s.property? name).map (·.type) = some "integer"

theorem mem_of_declares {s : Schema} {name : String} (declared : s.Declares name) :
    name ∈ ((s.properties.getD []).filter (·.2.type = "integer")).map (·.1) := by
  obtain ⟨p, property, type⟩ := Option.map_eq_some_iff.mp declared
  obtain ⟨ps, properties, found⟩ := Option.bind_eq_some_iff.mp property
  obtain ⟨m, first, rfl⟩ := Option.map_eq_some_iff.mp found
  have same : m.1 = name := by simpa using List.find?_some first
  have member := List.mem_reverse.mp (List.mem_of_find?_eq_some first)
  rw [properties]
  exact List.mem_map.mpr ⟨m, List.mem_filter.mpr ⟨member, decide_eq_true type⟩, same⟩

end Schema

namespace Tool

open Attempt

/- What tools report and ask for -/

def linesReport (r : FileRecord) (start last : Nat) : Json :=
  Json.object [("path", .str r.path), ("start", .nat start), ("end", .nat last),
    ("total_lines", .nat r.lines.length), ("content", .str (numbered start (linesFromTo r start last)))]

def treeReport (name : String) (files : List ScannedFile) (depth : Nat) : Json :=
  Json.object [("path", .str name), ("total_files", .nat files.length),
    ("tree", .str (Text.trimEnd (Text.unlines ((Listing.ofPaths (files.map (·.path))).lines depth))))]

def rankingReport (ranked : List Ranked) (limit : Nat) : Json :=
  Json.object [("files", .arr ((ranked.take limit).map Ranked.toJson)),
    ("summary", Json.object [("total_files", .nat ranked.length),
      ("average_score",
        .float (.meanToTenth ((ranked.map (·.complexity.score)).foldl (· + ·) 0) ranked.length)),
      ("high_complexity", .nat ((ranked.map (·.complexity.score)).countP (· ≥ highScore)))])]

section

variable {root : String} {arguments : Json} {l : List Heard} {o : ToolOutput}

theorem of_done {r : Outcome ToolOutput} (same : BodyEnd.done o = .ofOutcome r) : r = .ok o := by
  cases r with
  | ok a =>
    cases same
    rfl
  | error f => cases same

theorem trace_getLines (run : Act.Trace ((getLines root).body arguments) l (.done o)) :
    ∃ given r, arguments.textArgument "path" = .ok given ∧ Act.Trace (observe root given).run l (.ok r) ∧
      o = .of (linesReport r (max ((arguments.countArgument? "start").getD 1) 1)
        (min ((arguments.countArgument? "end").getD r.lines.length) r.lines.length)) := by
  obtain ⟨_, ran, same⟩ := Act.trace_map.mp run
  obtain rfl := of_done same
  rcases trace_ofOutcome_bind ran with ⟨_, -, -, wrong⟩ | ⟨given, path, run₁⟩
  · cases wrong
  rcases trace_bind.mp run₁ with ⟨_, -, wrong⟩ | ⟨record, l₁, l₂, rfl, observed, run₂⟩
  · cases wrong
  refine ⟨given, record, path, ?_⟩
  dsimp only at run₂
  split at run₂
  · cases (trace_throw.mp run₂).2
  split at run₂
  · cases (trace_throw.mp run₂).2
  obtain ⟨rfl, same⟩ := trace_pure.mp run₂
  rw [List.append_nil]
  exact ⟨observed, Except.ok.inj same⟩

theorem done_of_within {name description : String} {parameters : Schema} {category : ToolCategory}
    {body : Json → Attempt ToolOutput} {expected : ToolOutput → Prop}
    (within : Attempt.Within (fun _ => True) expected (body arguments))
    (run : Act.Trace ((ofProgram name description parameters category body).body arguments) l (.done o)) :
    expected o := by
  obtain ⟨_, ran, same⟩ := Act.trace_map.mp run
  obtain rfl := of_done same
  exact (ran.within within).2 o rfl

theorem reports_getStructure (run : Act.Trace ((getStructure root).body arguments) l (.done o)) :
    ∃ name files,
      o = .of (treeReport name files (max ((arguments.countArgument? "depth").getD defaultDepth) 1)) := by
  refine @done_of_within _ _ _ _ _ _ _ _ (fun o => ∃ name files, o = .of (treeReport name files _)) ?_ run
  extract_lets depth reported
  have reports (base : String) : Within (fun _ => True)
      (fun o => ∃ name files, o = ToolOutput.of (treeReport name files depth)) (reported base) := by
    refine within_next (within_any _) fun kind => ?_
    extract_lets listed
    split
    · exact within_throw_bind
    · exact within_next (within_any _) fun files => within_pure ⟨_, files, rfl⟩
  split
  · exact within_next (within_any _) reports
  · exact reports root

theorem reports_getComplexity (run : Act.Trace ((getComplexity root).body arguments) l (.done o)) :
    ∃ ranked, o = .of (rankingReport ranked
      (max ((arguments.countArgument? "limit").getD defaultRanking) 1)) := by
  refine @done_of_within _ _ _ _ _ _ _ _ (fun o => ∃ ranked, o = .of (rankingReport ranked _)) ?_ run
  refine within_next (within_any _) fun scope => within_next (within_any _) fun files => ?_
  exact within_next (within_any _) fun found => within_pure ⟨_, rfl⟩

theorem asks_runCommand {policy : CommandPolicy}
    (run : Act.Trace ((runCommand root policy).body arguments) l (.done o)) :
    ∃ command ended, (⟨.process ⟨"sh", ["-c", command], root,
      min ((arguments.countArgument? "timeout").getD commandTimeoutMs) maxCommandTimeoutMs⟩, ended⟩ :
        Heard) ∈ l := by
  obtain ⟨_, ran, same⟩ := Act.trace_map.mp run
  obtain rfl := of_done same
  rcases trace_ofOutcome_bind ran with ⟨_, -, -, wrong⟩ | ⟨command, given, run₁⟩
  · cases wrong
  rcases trace_bind.mp run₁ with ⟨_, -, wrong⟩ | ⟨_, l₁, l₂, rfl, -, run₂⟩
  · cases wrong
  rcases trace_bind.mp run₂ with ⟨_, -, wrong⟩ | ⟨_, l₃, l₄, rfl, started, -⟩
  · cases wrong
  obtain ⟨ended, rfl⟩ := trace_runProgram started
  exact ⟨command, ended, by simp⟩

/-- An edit that is done wrote the lines that were planned, in place of the lines that it declares. -/
theorem trace_editLines {autoApply : Bool}
    (run : Act.Trace ((editLines root autoApply).body arguments) l (.done o)) :
    ∃ (e : LineEdit) (c : Change) (absolute : String), arguments.countArgument "start" = .ok e.start ∧
      arguments.countArgument "end" = .ok e.last ∧ o.change = some c ∧
      (⟨.file (.write absolute (Text.unlines (e.apply c.previousLines))), .ok ()⟩ : Heard) ∈ l := by
  obtain ⟨_, ran, same⟩ := Act.trace_map.mp run
  obtain rfl := of_done same
  rcases trace_bind.mp ran with ⟨_, -, wrong⟩ | ⟨p, l₁, l₂, rfl, planned, run₁⟩
  · cases wrong
  rcases trace_bind.mp run₁ with ⟨_, -, wrong⟩ | ⟨⟨record, change⟩, l₃, l₄, rfl, wrote, ending⟩
  · cases wrong
  obtain ⟨rfl, same⟩ := trace_pure.mp ending
  cases same
  cases trace_plan planned with
  | @planned given absolute text current start last l path first final content found fits =>
    cases trace_writeChange wrote with
    | written recorded =>
      cases trace_recordChange.mp recorded with
      | recorded id time loaded =>
        refine ⟨⟨start, last, LineEdit.replacementOf text⟩, _, absolute, first, final, rfl, ?_⟩
        refine List.mem_append_right l₁ (List.mem_append_left [] ?_)
        exact List.mem_cons_of_mem _ (List.mem_cons_of_mem _ List.mem_cons_self)

/-- How a number that a tool is given shows in a run that is done: in its report, in what it asked another
program, or in the text that it wrote. -/
inductive Applied (root : String) (n : Nat) (l : List Heard) : (tool name : String) → ToolOutput → Prop where
  | firstLine {given : String} {r : FileRecord} (last : Nat)
      (observed : Act.Trace (observe root given).run l (.ok r)) :
      Applied root n l "get_lines" "start" (.of (linesReport r (max n 1) last))
  | lastLine {given : String} {r : FileRecord} (start : Nat)
      (observed : Act.Trace (observe root given).run l (.ok r)) :
      Applied root n l "get_lines" "end" (.of (linesReport r start (min n r.lines.length)))
  | depth (name : String) (files : List ScannedFile) :
      Applied root n l "get_structure" "depth" (.of (treeReport name files (max n 1)))
  | limit (ranked : List Ranked) :
      Applied root n l "get_complexity" "limit" (.of (rankingReport ranked (max n 1)))
  | timeout {command : String} {ended : ProcessEnd} (o : ToolOutput)
      (asked : ⟨.process ⟨"sh", ["-c", command], root, min n maxCommandTimeoutMs⟩, ended⟩ ∈ l) :
      Applied root n l "run_command" "timeout" o
  | firstReplaced {e : LineEdit} {c : Change} {absolute : String} {o : ToolOutput} (change : o.change = some c)
      (start : e.start = n)
      (written : ⟨.file (.write absolute (Text.unlines (e.apply c.previousLines))), .ok ()⟩ ∈ l) :
      Applied root n l "edit_lines" "start" o
  | lastReplaced {e : LineEdit} {c : Change} {absolute : String} {o : ToolOutput} (change : o.change = some c)
      (last : e.last = n)
      (written : ⟨.file (.write absolute (Text.unlines (e.apply c.previousLines))), .ok ()⟩ ∈ l) :
      Applied root n l "edit_lines" "end" o

theorem applied_of_done {settings : Settings} {t : Tool Act} {name : String} {n : Nat}
    (member : t ∈ standardTools root settings) (declared : t.definition.parameters.Declares name)
    (given : arguments.countArgument? name = some n) (run : Act.Trace (t.body arguments) l (.done o)) :
    Applied root n l t.name name o := by
  have listed := Schema.mem_of_declares declared
  simp only [standardTools, List.mem_cons, List.not_mem_nil, or_false] at member
  rcases member with rfl | rfl | rfl | rfl | rfl | rfl | rfl | rfl | rfl | rfl | rfl | rfl | rfl | rfl | rfl
  · obtain ⟨_, r, -, observed, rfl⟩ := trace_getLines run
    rcases List.mem_pair.mp (listed : name ∈ ["start", "end"]) with rfl | rfl
    · rw [given]
      exact .firstLine _ observed
    · rw [given]
      exact .lastLine _ observed
  · cases (listed : name ∈ [])
  · obtain rfl := List.mem_singleton.mp (listed : name ∈ ["depth"])
    obtain ⟨_, files, rfl⟩ := reports_getStructure run
    rw [given]
    exact .depth _ files
  · obtain ⟨e, c, absolute, first, final, change, written⟩ := trace_editLines run
    rcases List.mem_pair.mp (listed : name ∈ ["start", "end"]) with rfl | rfl
    · rw [Json.countArgument, given] at first
      exact .firstReplaced change (Except.ok.inj first).symm written
    · rw [Json.countArgument, given] at final
      exact .lastReplaced change (Except.ok.inj final).symm written
  · cases (listed : name ∈ [])
  · cases (listed : name ∈ [])
  · cases (listed : name ∈ [])
  · cases (listed : name ∈ [])
  · cases (listed : name ∈ [])
  · obtain rfl := List.mem_singleton.mp (listed : name ∈ ["limit"])
    obtain ⟨ranked, rfl⟩ := reports_getComplexity run
    rw [given]
    exact .limit ranked
  · cases (listed : name ∈ [])
  · cases (listed : name ∈ [])
  · cases (listed : name ∈ [])
  · obtain rfl := List.mem_singleton.mp (listed : name ∈ ["timeout"])
    obtain ⟨command, ended, asked⟩ := asks_runCommand run
    rw [given] at asked
    exact .timeout o asked
  · cases (listed : name ∈ [])

/- Negative numbers -/

/-- A tool does the same with arguments that cannot be told apart. -/
theorem body_indistinct {settings : Settings} {t : Tool Act} (member : t ∈ standardTools root settings)
    {a b : Json} (same : Json.Indistinct a b) : t.body a = t.body b := by
  obtain ⟨text, text?, count?, flag?⟩ := same
  simp only [standardTools, List.mem_cons, List.not_mem_nil, or_false] at member
  rcases member with rfl | rfl | rfl | rfl | rfl | rfl | rfl | rfl | rfl | rfl | rfl | rfl | rfl | rfl | rfl
  · simp only [getLines, ofProgram, ungated, text, count?]
  · simp only [getFunction, ofProgram, ungated, text]
  · simp only [getStructure, ofProgram, ungated, text?, count?]
  · simp only [editLines, editing, ofProgram, ungated, PlannedEdit.of, Json.countArgument, text, count?]
  · simp only [createFile, editing, ofProgram, ungated, text]
  · simp only [findReferences, ofProgram, ungated, symbolArgument, scope?, text, text?]
  · simp only [findDefinition, ofProgram, ungated, symbolArgument, text]
  · simp only [getDependencies, ofProgram, ungated, indexedMeta, text]
  · simp only [getDependents, ofProgram, ungated, indexedMeta, text]
  · simp only [getComplexity, ofProgram, ungated, scope?, text?, count?]
  · simp only [getTodos, ofProgram, ungated, scope?, text?]
  · rfl
  · simp only [gitDiff, ofProgram, ungated, scope?, text?, flag?]
  · simp only [runCommand, ofProgram, ungated, text, count?]
  · simp only [runTests, ofProgram, ungated, text?]

/-- An edit of lines with a negative number asks nothing and misses that number. -/
theorem misses_editLines {autoApply : Bool} {name : String} {i : Int}
    (accepts : (editLines root autoApply).definition.parameters.Accepts arguments)
    (listed : name ∈ ["start", "end"]) (given : arguments.member? name = some (.int i)) (negative : i < 0) :
    ∃ missed ∈ ["start", "end"], (∃ i < 0, arguments.member? missed = some (.int i)) ∧
      (editLines root autoApply).body arguments =
        pure (.failed (.validation (ArgumentError.missing missed).message)) := by
  obtain ⟨path, named⟩ := @Schema.Accepts.text _ _ "path" accepts rfl rfl
  rcases @Schema.Accepts.count _ _ "start" accepts rfl rfl with ⟨start, first⟩ | ⟨j, below, there, first⟩
  · rcases @Schema.Accepts.count _ _ "end" accepts rfl rfl with ⟨last, final⟩ | ⟨j, below, there, final⟩
    · rcases List.mem_pair.mp listed with rfl | rfl
      · rw [Json.countArgument, Json.countArgument?_of_neg given negative] at first
        cases first
      · rw [Json.countArgument, Json.countArgument?_of_neg given negative] at final
        cases final
    · refine ⟨"end", by decide, ⟨j, below, there⟩, ?_⟩
      simp only [editLines, editing, ofProgram, ungated, PlannedEdit.of, named, first, final]
      rfl
  · refine ⟨"start", by decide, ⟨j, below, there⟩, ?_⟩
    simp only [editLines, editing, ofProgram, ungated, PlannedEdit.of, named, first]
    rfl

theorem eq_editLines {settings : Settings} {t : Tool Act} (member : t ∈ standardTools root settings)
    (named : t.name = "edit_lines") : t = editLines root settings.edit.autoApply := by
  have unique : (Registry.standard root settings).names.Nodup := standardNames_nodup
  have found := Registry.get?_of_mem unique member
  rw [named] at found
  exact (Option.some.inj found).symm

/-- Arguments that pass their schema are read, but for numbers that are negative. -/
theorem reads_accepted {settings : Settings} {t : Tool Act} (member : t ∈ standardTools root settings)
    (accepted : t.definition.parameters.check arguments = .ok ()) :
    (∀ l e why, Act.Trace (t.body arguments) l e → e.outcome = .error why → Complains why →
      (∃ (c : IndexCall) (f : Fault), (⟨.index c, .error f⟩ : Heard) ∈ l ∧ f.message = why) ∨
      t.name = "edit_lines" ∧ ∃ missed ∈ ["start", "end"],
        (∃ i < 0, arguments.member? missed = some (.int i)) ∧ why = (ArgumentError.missing missed).message) ∧
    ∀ name v, t.definition.parameters.Declares name → arguments.member? name = some v → v ≠ .null →
      ∃ i, v = .int i ∧
        (0 ≤ i → ∀ l o, Act.Trace (t.body arguments) l (.done o) → Applied root i.toNat l t.name name o) ∧
        (i < 0 → t.body arguments = t.body (arguments.without name) ∧
          (t.name = "edit_lines" → ∀ l e, Act.Trace (t.body arguments) l e →
            ∃ why, e.outcome = .error why ∧ Complains why)) := by
  have accepts := Schema.accepts_of_check accepted
  constructor
  · intro l e why run failed complains
    by_cases unread : t.name = "edit_lines" ∧
        ∃ name ∈ ["start", "end"], ∃ i < 0, arguments.member? name = some (.int i)
    · obtain ⟨named, name, listed, i, negative, given⟩ := unread
      obtain rfl := eq_editLines member named
      obtain ⟨missed, listed, negative, body⟩ := misses_editLines accepts listed given negative
      rw [body] at run
      obtain ⟨-, rfl⟩ := Act.trace_pure.mp run
      exact Or.inr ⟨named, missed, listed, negative, (Except.error.inj failed).symm⟩
    · refine Or.inl (clean_standard member accepts (fun named name listed => ?_) l e why run failed complains)
      obtain rfl := eq_editLines member named
      have counted : (∃ n, arguments.countArgument name = .ok n) ∨
          ∃ i < 0, arguments.member? name = some (.int i) ∧
            arguments.countArgument name = .error (.validation (ArgumentError.missing name).message) := by
        rcases List.mem_pair.mp listed with rfl | rfl
        · exact accepts.count rfl rfl
        · exact accepts.count rfl rfl
      rcases counted with readable | ⟨i, negative, given, -⟩
      · exact readable
      · exact absurd ⟨named, name, listed, i, negative, given⟩ unread
  · intro name v declared given filled
    obtain ⟨i, rfl⟩ := accepts.integer declared given filled
    refine ⟨i, rfl, fun natural l o run => ?_, fun negative => ⟨?_, fun named l e run => ?_⟩⟩
    · exact applied_of_done member declared (Json.countArgument?_of_nonneg given natural) run
    · exact body_indistinct member (Json.indistinct_without given negative)
    · obtain rfl := eq_editLines member named
      obtain ⟨missed, listed, -, body⟩ :=
        misses_editLines accepts (Schema.mem_of_declares declared) given negative
      rw [body] at run
      obtain ⟨-, rfl⟩ := Act.trace_pure.mp run
      refine ⟨_, rfl, ?_⟩
      rcases List.mem_pair.mp listed with rfl | rfl <;> decide +kernel

end

/-- A read from the second line on. -/
def fromSecond : Json := Json.object [("path", .str "f"), ("start", .nat 2)]

/-- An edit from before the first line. -/
def beforeFirst : Json :=
  Json.object [("path", .str "f"), ("start", .int (-1)), ("end", .nat 1), ("content", .str "x")]

theorem reads_accepted_both :
    (∀ l o, Act.Trace ((getLines "/p").body fromSecond) l (.done o) →
        Applied "/p" 2 l "get_lines" "start" o) ∧
      (editLines "/p" false).body beforeFirst = (editLines "/p" false).body (beforeFirst.without "start") := by
  constructor
  · have read : getLines "/p" ∈ standardTools "/p" {} := List.mem_cons_self
    have passed : (getLines "/p").definition.parameters.check fromSecond = .ok () := by decide +kernel
    obtain ⟨-, numbers⟩ := reads_accepted read passed
    obtain ⟨i, same, applied, -⟩ := numbers "start" (.int 2) rfl rfl (by simp [Json.int])
    cases same
    exact applied (by decide)
  · have edit : editLines "/p" false ∈ standardTools "/p" {} := by simp [standardTools]
    have passed : (editLines "/p" false).definition.parameters.check beforeFirst = .ok () := by decide +kernel
    obtain ⟨-, numbers⟩ := reads_accepted edit passed
    obtain ⟨i, same, -, absent⟩ := numbers "start" (.int (-1)) rfl rfl (by simp [Json.int])
    cases same
    exact (absent (by decide)).1

/-- An edit from before the first line passes its schema and is told that it names no first line. -/
theorem misses_given :
    (editLines "/p" false).definition.parameters.check beforeFirst = .ok () ∧
      beforeFirst.member? "start" = some (.int (-1)) ∧
      (editLines "/p" false).body beforeFirst =
        pure (.failed (.validation "Missing required parameter: start")) :=
  ⟨by decide +kernel, rfl, rfl⟩

end Tool

end CodeAgent
