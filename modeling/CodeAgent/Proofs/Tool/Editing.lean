import CodeAgent.Proofs.Tool.Planning

/-! Tools that write files or run commands, step by step.
An edit is planned by looking; then the turn is asked about its cancellation, and only then the file
is written. A command runs when it is trusted or a user approved of it. -/
namespace CodeAgent

namespace Files

theorem trace_answered (what path : String) (c : FileCall) (a : c.Result) :
    Act.Trace (call what path c).run [⟨.file c, .ok a⟩] (.ok a) :=
  Attempt.trace_lift_bind.mpr ⟨.ok a, [_], [], rfl, Act.trace_file.mpr rfl, Attempt.trace_pure.mpr ⟨rfl, rfl⟩⟩

theorem trace_call {what path : String} {c : FileCall} {l : List Heard} {r : Outcome c.Result}
    (run : Act.Trace (call what path c).run l r) :
    (∃ a, l = [⟨.file c, .ok a⟩] ∧ r = .ok a) ∨
    ∃ e, l = [⟨.file c, .error e⟩] ∧ r = .error (refused what path e.message) := by
  obtain ⟨answer, _, l₂, rfl, asked, rest⟩ := Attempt.trace_lift_bind.mp run
  obtain rfl := Act.trace_file.mp asked
  cases answer with
  | ok a =>
    obtain ⟨rfl, rfl⟩ := Attempt.trace_pure.mp rest
    exact Or.inl ⟨a, rfl, rfl⟩
  | error e =>
    obtain ⟨rfl, rfl⟩ := Attempt.trace_throw.mp rest
    exact Or.inr ⟨e, rfl, rfl⟩

theorem trace_readText {path text : String} {l : List Heard} :
    Act.Trace (readText path).run l (.ok text) ↔ l = [⟨.file (.read path), .ok text.toUTF8⟩] := by
  constructor
  · intro run
    rcases Attempt.trace_bind.mp run with ⟨f, -, wrong⟩ | ⟨bytes, l₁, l₂, rfl, asked, rest⟩
    · cases wrong
    rcases trace_call asked with ⟨_, rfl, same⟩ | ⟨e, -, wrong⟩
    · cases same
      split at rest
      · rename_i text' decoded
        obtain ⟨rfl, same⟩ := Attempt.trace_pure.mp rest
        cases same
        rw [Text.toUTF8_of_fromUTF8 decoded]
        rfl
      · cases (Attempt.trace_throw.mp rest).2
    · cases wrong
  · rintro rfl
    refine Attempt.trace_bind.mpr (Or.inr ⟨text.toUTF8, [_], [], rfl, trace_answered .., ?_⟩)
    rw [Text.fromUTF8_toUTF8]
    exact Attempt.trace_pure.mpr ⟨rfl, rfl⟩

theorem trace_loadRecord {path name : String} {l : List Heard} {r : FileRecord} :
    Act.Trace (loadRecord path name).run l (.ok r) ↔ ∃ text status,
      l = [⟨.file (.read path), .ok (String.toUTF8 text)⟩, ⟨.file (.status path), .ok status⟩] ∧
      r = .ofContent name text status.modified := by
  constructor
  · intro run
    rcases Attempt.trace_bind.mp run with ⟨_, -, wrong⟩ | ⟨text, l₁, l₂, rfl, read, rest⟩
    · cases wrong
    obtain rfl := trace_readText.mp read
    rcases Attempt.trace_bind.mp rest with ⟨_, -, wrong⟩ | ⟨status, l₃, l₄, rfl, asked, ending⟩
    · cases wrong
    obtain ⟨rfl, same⟩ := Attempt.trace_pure.mp ending
    rcases trace_call asked with ⟨_, rfl, found⟩ | ⟨_, -, wrong⟩
    · cases found
      exact ⟨text, status, rfl, Except.ok.inj same⟩
    · cases wrong
  · rintro ⟨text, status, rfl, rfl⟩
    refine Attempt.trace_bind.mpr (Or.inr ⟨text, [_], [_], rfl, trace_readText.mpr rfl, ?_⟩)
    refine Attempt.trace_bind.mpr (Or.inr ⟨status, [_], [], rfl, trace_answered .., ?_⟩)
    exact Attempt.trace_pure.mpr ⟨rfl, rfl⟩

/-- A directory that cannot be made, a file that cannot be written, or a file that was. -/
inductive WriteRun (path content : String) : List Heard → Outcome Unit → Prop where
  | noDirectory (e : FileError) (f : Fault) :
      WriteRun path content [⟨.file (.makeDirs (Path.parent path)), .error e⟩] (.error f)
  | unwritten (e : FileError) (f : Fault) :
      WriteRun path content [⟨.file (.makeDirs (Path.parent path)), .ok ()⟩,
        ⟨.file (.write path content), .error e⟩] (.error f)
  | written : WriteRun path content [⟨.file (.makeDirs (Path.parent path)), .ok ()⟩,
      ⟨.file (.write path content), .ok ()⟩] (.ok ())

theorem trace_writeText {path content : String} {l : List Heard} {r : Outcome Unit}
    (run : Act.Trace (writeText path content).run l r) : WriteRun path content l r := by
  rcases Attempt.trace_bind.mp run with ⟨f, made, rfl⟩ | ⟨_, l₁, l₂, rfl, made, wrote⟩
  · rcases trace_call made with ⟨_, -, wrong⟩ | ⟨e, rfl, -⟩
    · cases wrong
    · exact .noDirectory e f
  · rcases trace_call made with ⟨_, rfl, -⟩ | ⟨_, -, wrong⟩
    · rcases trace_call wrote with ⟨_, rfl, rfl⟩ | ⟨e, rfl, rfl⟩
      · exact .written
      · exact .unwritten e _
    · cases wrong

end Files

namespace Tool

open Attempt

variable {root : String}

/-- A change is not written, or it is written and then recorded. -/
inductive ChangeRun (absolute name : String) (previous : Option FileRecord)
    (content description : String) : List Heard → Outcome (FileRecord × Change) → Prop where
  | cancelled (f : Fault) :
      ChangeRun absolute name previous content description [.polled true] (.error f)
  | unwritten {l : List Heard} {f : Fault} (tried : Files.WriteRun absolute content l (.error f)) :
      ChangeRun absolute name previous content description (.polled false :: l) (.error f)
  | written {l : List Heard} {r : Outcome (FileRecord × Change)}
      (recorded : Act.Trace (recordChange absolute name previous content description).run l r) :
      ChangeRun absolute name previous content description
        (.polled false :: ⟨.file (.makeDirs (Path.parent absolute)), .ok ()⟩ ::
          ⟨.file (.write absolute content), .ok ()⟩ :: l) r

theorem trace_writeChange {absolute : String} {previous : Option FileRecord}
    {content description : String} {l : List Heard} {r : Outcome (FileRecord × Change)}
    (run : Act.Trace (writeChange root absolute previous content description).run l r) :
    ChangeRun absolute (Path.relative root absolute) previous content description l r := by
  obtain ⟨stop, _, l₂, rfl, polled, rest⟩ := trace_lift_bind.mp run
  obtain rfl := Act.trace_cancelled.mp polled
  cases stop with
  | true =>
    rcases trace_bind.mp rest with ⟨f, thrown, rfl⟩ | ⟨_, _, _, -, thrown, -⟩
    · obtain ⟨rfl, -⟩ := trace_throw.mp thrown
      exact .cancelled f
    · cases (trace_throw.mp thrown).2
  | false =>
    rcases trace_bind.mp rest with ⟨f, tried, rfl⟩ | ⟨_, l₃, l₄, rfl, wrote, recorded⟩
    · exact .unwritten (Files.trace_writeText tried)
    · cases Files.trace_writeText wrote with
      | written => exact .written recorded

/-- What was written is read back and recorded, and then the change of it is declared. -/
inductive RecordRun (absolute name : String) (previous : Option FileRecord)
    (content description : String) : List Heard → Outcome (FileRecord × Change) → Prop where
  | unread {l : List Heard} {f : Fault}
      (loaded : Act.Trace (Files.loadRecord absolute name).run l (.error f)) :
      RecordRun absolute name previous content description l (.error f)
  | unrecorded {l : List Heard} {record : FileRecord} (f : Fault)
      (loaded : Act.Trace (Files.loadRecord absolute name).run l (.ok record)) :
      RecordRun absolute name previous content description
        (l ++ [⟨.index (.setFile record), .error f⟩]) (.error f)
  | recorded {l : List Heard} {record : FileRecord} (id : String) (time : Int)
      (loaded : Act.Trace (Files.loadRecord absolute name).run l (.ok record)) :
      RecordRun absolute name previous content description
        (l ++ [⟨.index (.setFile record), .ok ()⟩, ⟨.newId, id⟩, ⟨.now, time⟩])
        (.ok (record, ⟨id, name, (previous.map (·.lines)).getD [], contentHash content, time,
          description, previous.isNone⟩))

theorem trace_recordChange {absolute name content description : String}
    {previous : Option FileRecord} {l : List Heard} {r : Outcome (FileRecord × Change)} :
    Act.Trace (recordChange absolute name previous content description).run l r ↔
      RecordRun absolute name previous content description l r := by
  constructor
  · intro run
    rcases trace_bind.mp run with ⟨f, loaded, rfl⟩ | ⟨record, l₁, k, rfl, loaded, run₁⟩
    · exact .unread loaded
    rcases trace_bind.mp run₁ with ⟨f, stored, rfl⟩ | ⟨_, l₂, k₁, rfl, stored, run₂⟩
    · rw [trace_index.mp stored]
      exact .unrecorded f loaded
    obtain ⟨id, l₃, k₂, rfl, named, run₃⟩ := trace_lift_bind.mp run₂
    obtain ⟨time, l₄, k₃, rfl, clock, ending⟩ := trace_lift_bind.mp run₃
    obtain rfl := Act.trace_newId.mp named
    obtain rfl := Act.trace_now.mp clock
    obtain ⟨rfl, rfl⟩ := trace_pure.mp ending
    rw [trace_index.mp stored]
    exact .recorded id time loaded
  · intro run
    cases run with
    | unread loaded => exact trace_bind.mpr (Or.inl ⟨_, loaded, rfl⟩)
    | unrecorded f loaded =>
      refine trace_bind.mpr (Or.inr ⟨_, _, _, rfl, loaded, ?_⟩)
      exact trace_bind.mpr (Or.inl ⟨f, trace_index.mpr rfl, rfl⟩)
    | recorded id time loaded =>
      refine trace_bind.mpr (Or.inr ⟨_, _, _, rfl, loaded, ?_⟩)
      refine trace_bind.mpr (Or.inr ⟨(), [_], [_, _], rfl, trace_index.mpr rfl, ?_⟩)
      refine trace_lift_bind.mpr ⟨id, [_], [_], rfl, Act.trace_newId.mpr rfl, ?_⟩
      exact trace_lift_bind.mpr ⟨time, [_], [], rfl, Act.trace_now.mpr rfl, trace_pure.mpr ⟨rfl, rfl⟩⟩

theorem within_recordChange (absolute name : String) (previous : Option FileRecord)
    (content description : String) :
    Within (fun q => q.looks ∨ q = .newId ∨ q = .now) (fun _ => True)
      (recordChange absolute name previous content description) := by
  refine within_next ?_ fun record => ?_
  · exact Within.mono (Files.looks_loadRecord ..) (fun q looks => Or.inl looks) fun _ _ => trivial
  refine within_next ?_ fun _ => ?_
  · exact Within.mono (looks_index (.setFile record)) (fun q looks => Or.inl looks) fun _ _ => trivial
  refine within_next ?_ fun id => ?_
  · exact within_lift (Act.within_query (q := .newId) (Or.inr (Or.inl rfl)) fun _ => trivial)
  refine within_next ?_ fun time => within_pure trivial
  exact within_lift (Act.within_query (q := .now) (Or.inr (Or.inr rfl)) fun _ => trivial)

section

variable {allowed : Ask → Prop} (files : ∀ c, (Ask.file c).looks → allowed (.file c))
  (records : ∀ name, allowed (.index (.file name)))
include files records

theorem within_unchanged (root given : String) :
    Within allowed (fun _ => True) (unchanged? root given) := by
  refine within_next (within_resolve root given) fun absolute => ?_
  refine within_next (within_lift (Files.within_kind files absolute)) fun kind => ?_
  cases kind with
  | none => exact within_pure trivial
  | some kind =>
    dsimp only
    split
    · exact within_throw_bind
    · refine within_next (Files.within_loadRecord files ..) fun current => ?_
      refine within_next (within_of (Act.within_query (records _) fun _ _ _ => trivial)) fun stored => ?_
      cases stored with
      | none => exact within_pure trivial
      | some stored =>
        dsimp only
        split
        · exact within_throw_bind
        · exact within_pure trivial

theorem within_planned (root : String) (arguments : Json) :
    Within allowed (fun _ => True) (PlannedEdit.of root arguments) := by
  refine within_next (within_ofOutcome fun _ _ => trivial) fun path => ?_
  refine within_next (within_ofOutcome fun _ _ => trivial) fun start => ?_
  refine within_next (within_ofOutcome fun _ _ => trivial) fun last => ?_
  refine within_next (within_ofOutcome fun _ _ => trivial) fun content => ?_
  refine within_next (within_unchanged files records root path) fun found => ?_
  obtain ⟨absolute, current⟩ := found
  cases current with
  | none => exact within_throw
  | some current =>
    dsimp only
    split
    · exact within_throw
    · exact within_pure trivial

theorem within_shown_lines (root : String) (autoApply : Bool) (arguments : Json) :
    Act.Within allowed (fun _ => True) ((editLines root autoApply).summary arguments) := by
  refine Act.within_next (Act.Within.asks (within_planned files records root arguments)) fun planned => ?_
  cases planned <;> exact Act.within_pure trivial

theorem within_shown_file (root : String) (autoApply : Bool) (arguments : Json) :
    Act.Within allowed (fun _ => True) ((createFile root autoApply).summary arguments) := by
  simp only [createFile, editing]
  split
  · rename_i path content _ _
    have shown : Within allowed (fun _ => True) (createSummary root path content) :=
      within_next (within_unchanged files records root path) fun found => within_pure trivial
    refine Act.within_next (Act.Within.asks shown) fun summary => ?_
    cases summary <;> exact Act.within_pure trivial
  · exact Act.within_pure trivial

end

theorem looks_unchanged (root given : String) : Looks (unchanged? root given) :=
  within_unchanged (fun _ => id) (fun _ => trivial) root given

theorem looks_planned (root : String) (arguments : Json) :
    Looks (PlannedEdit.of root arguments) :=
  within_planned (fun _ => id) (fun _ => trivial) root arguments

/-- A run of an editing tool: it is refused after some looking, or the file that was looked at is
written, and the change is declared exactly when that succeeds. -/
inductive EditRun (root : String) : List Heard → BodyEnd → Prop where
  | refused {l : List Heard} (f : Fault) (looked : ∀ h ∈ l, h.question.looks) :
      EditRun root l (.failed f)
  | changed {l₁ l₂ : List Heard} {given absolute content description : String}
      {existing : Option FileRecord} {r : Outcome (FileRecord × Change)} {e : BodyEnd}
      (found : Act.Trace (unchanged? root given).run l₁ (.ok (absolute, existing)))
      (changed : ChangeRun absolute (Path.relative root absolute) existing content description l₂ r)
      (declared : e.change? = r.toOption.map (·.2)) : EditRun root (l₁ ++ l₂) e

/-- A tool that edits: it is gated unless edits apply by themselves, and its runs are such. -/
structure Editing (root : String) (autoApply : Bool) (t : Tool Act) : Prop where
  named : t.name = "edit_lines" ∨ t.name = "create_file"
  gated : t.gated = !autoApply
  category : t.category = .edit
  summary : ∀ arguments, Act.Looks (t.summary arguments)
  body : ∀ arguments l e, Act.Trace (t.body arguments) l e → EditRun root l e

theorem looked {p : Attempt α} {l : List Heard} {r : Outcome α} (run : Act.Trace p.run l r)
    (looks : Looks p) : ∀ h ∈ l, h.question.looks := (run.within looks).1

theorem editing_editLines (root : String) (autoApply : Bool) :
    Editing root autoApply (editLines root autoApply) where
  named := Or.inl rfl
  gated := rfl
  category := rfl
  summary := within_shown_lines (fun _ => id) (fun _ => trivial) root autoApply
  body := fun arguments l e run => by
    obtain ⟨r, ran, rfl⟩ := Act.trace_map.mp run
    rcases trace_bind.mp ran with ⟨f, planned, rfl⟩ | ⟨p, l₁, l₂, rfl, planned, rest⟩
    · exact .refused f (looked planned (looks_planned root arguments))
    · cases trace_plan planned with
      | planned path first final content found =>
        rcases trace_bind.mp rest with ⟨f, wrote, rfl⟩ | ⟨⟨record, change⟩, l₃, l₄, rfl, wrote, ending⟩
        · exact .changed found (trace_writeChange wrote) rfl
        · obtain ⟨rfl, rfl⟩ := trace_pure.mp ending
          rw [List.append_nil]
          exact .changed found (trace_writeChange wrote) rfl

theorem editing_createFile (root : String) (autoApply : Bool) :
    Editing root autoApply (createFile root autoApply) where
  named := Or.inr rfl
  gated := rfl
  category := rfl
  summary := within_shown_file (fun _ => id) (fun _ => trivial) root autoApply
  body := fun arguments l e run => by
    obtain ⟨r, ran, rfl⟩ := Act.trace_map.mp run
    rcases trace_ofOutcome_bind ran with ⟨f, -, rfl, rfl⟩ | ⟨path, -, run₁⟩
    · exact .refused f (by simp)
    rcases trace_ofOutcome_bind run₁ with ⟨f, -, rfl, rfl⟩ | ⟨content, -, run₂⟩
    · exact .refused f (by simp)
    rcases trace_bind.mp run₂ with ⟨f, found, rfl⟩ | ⟨⟨absolute, existing⟩, l₁, l₂, rfl, found, rest⟩
    · exact .refused f (looked found (looks_unchanged root path))
    · rcases trace_bind.mp rest with ⟨f, wrote, rfl⟩ | ⟨⟨record, change⟩, l₃, l₄, rfl, wrote, ending⟩
      · exact .changed found (trace_writeChange wrote) rfl
      · obtain ⟨rfl, rfl⟩ := trace_pure.mp ending
        rw [List.append_nil]
        exact .changed found (trace_writeChange wrote) rfl

theorem Editing.of_eq {t : Tool Act} {autoApply : Bool}
    (same : t = editLines root autoApply ∨ t = createFile root autoApply) :
    Editing root autoApply t := by
  rcases same with rfl | rfl
  · exact editing_editLines root autoApply
  · exact editing_createFile root autoApply

/-- A run of a shell command: refused, rejected by the user, or the very command that the policy let
pass or a user approved. -/
inductive CommandRun (root : String) (policy : CommandPolicy) (arguments : Json) :
    List Heard → BodyEnd → Prop where
  | refused (f : Fault) : CommandRun root policy arguments [] (.failed f)
  | rejected (s : String) (f : Fault) :
      CommandRun root policy arguments [.confirmed s false] (.failed f)
  | trusted {command : String} {ended : ProcessEnd} {e : BodyEnd} (timeoutMs : Nat)
      (given : arguments.textArgument "command" = .ok command)
      (allowed : policy.verdict command = .allowed) (plain : e.change? = none) :
      CommandRun root policy arguments [⟨.process ⟨"sh", ["-c", command], root, timeoutMs⟩, ended⟩] e
  | approved {command s : String} {ended : ProcessEnd} {e : BodyEnd} (timeoutMs : Nat)
      (given : arguments.textArgument "command" = .ok command)
      (asked : policy.verdict command = .requiresConfirmation) (plain : e.change? = none) :
      CommandRun root policy arguments
        [.confirmed s true, ⟨.process ⟨"sh", ["-c", command], root, timeoutMs⟩, ended⟩] e

theorem trace_admitCommand {policy : CommandPolicy} {command : String} {l : List Heard}
    {r : Outcome Unit} (run : Act.Trace (admitCommand policy command).run l r) :
    (l = [] ∧ ∃ f, r = .error f) ∨ (∃ s f, l = [.confirmed s false] ∧ r = .error f) ∨
    (l = [] ∧ r = .ok () ∧ policy.verdict command = .allowed) ∨
    ∃ s, l = [.confirmed s true] ∧ r = .ok () ∧
      policy.verdict command = .requiresConfirmation := by
  unfold admitCommand at run
  dsimp only at run
  split at run
  · rename_i allowed
    obtain ⟨rfl, rfl⟩ := trace_pure.mp run
    exact Or.inr (Or.inr (Or.inl ⟨rfl, rfl, allowed⟩))
  · obtain ⟨rfl, rfl⟩ := trace_throw.mp run
    exact Or.inl ⟨rfl, _, rfl⟩
  · rename_i asked
    obtain ⟨approved, _, l₂, rfl, confirmed, rest⟩ := trace_lift_bind.mp run
    obtain rfl := Act.trace_confirm.mp confirmed
    cases approved with
    | true =>
      obtain ⟨rfl, rfl⟩ := trace_pure.mp rest
      exact Or.inr (Or.inr (Or.inr ⟨_, rfl, rfl, asked⟩))
    | false =>
      obtain ⟨rfl, rfl⟩ := trace_throw.mp rest
      exact Or.inr (Or.inl ⟨_, _, rfl, rfl⟩)

theorem trace_runProgram {program : String} {arguments : List String} {timeoutMs : Nat}
    {l : List Heard} {r : Outcome ProcessReport}
    (run : Act.Trace (runProgram root program arguments timeoutMs).run l r) :
    ∃ ended, l = [⟨.process ⟨program, arguments, root, timeoutMs⟩, ended⟩] := by
  obtain ⟨ended, _, l₂, rfl, started, rest⟩ := trace_lift_bind.mp run
  obtain rfl := Act.trace_process.mp started
  cases ended with
  | finished exit output errors =>
    obtain ⟨rfl, -⟩ := trace_pure.mp rest
    exact ⟨_, rfl⟩
  | _ =>
    obtain ⟨rfl, -⟩ := trace_throw.mp rest
    exact ⟨_, rfl⟩

theorem trace_runCommand {policy : CommandPolicy} {arguments : Json} {l : List Heard} {e : BodyEnd}
    (run : Act.Trace ((runCommand root policy).body arguments) l e) :
    CommandRun root policy arguments l e := by
  obtain ⟨r, ran, rfl⟩ := Act.trace_map.mp run
  rcases trace_ofOutcome_bind ran with ⟨f, -, rfl, rfl⟩ | ⟨command, given, run₁⟩
  · exact .refused f
  rcases trace_bind.mp run₁ with ⟨f, admitted, rfl⟩ | ⟨_, l₁, l₂, rfl, admitted, run₂⟩
  · rcases trace_admitCommand admitted with ⟨rfl, -⟩ | ⟨s, _, rfl, -⟩ | ⟨-, wrong, -⟩ | ⟨_, -, wrong, -⟩
    · exact .refused f
    · exact .rejected s f
    · cases wrong
    · cases wrong
  · have started : ∃ timeoutMs ended, l₂ =
        [⟨.process ⟨"sh", ["-c", command], root, timeoutMs⟩, ended⟩] ∧
        (BodyEnd.ofOutcome r).change? = none := by
      rcases trace_bind.mp run₂ with ⟨f, started, rfl⟩ | ⟨_, l₃, l₄, rfl, started, rest⟩
      · obtain ⟨ended, rfl⟩ := trace_runProgram started
        exact ⟨_, ended, rfl, rfl⟩
      · obtain ⟨ended, rfl⟩ := trace_runProgram started
        obtain ⟨rfl, rfl⟩ := trace_pure.mp rest
        exact ⟨_, ended, rfl, rfl⟩
    obtain ⟨timeoutMs, ended, rfl, plain⟩ := started
    rcases trace_admitCommand admitted with ⟨-, _, wrong⟩ | ⟨_, _, -, wrong⟩ | ⟨rfl, -, allowed⟩ |
      ⟨s, rfl, -, asked⟩
    · cases wrong
    · cases wrong
    · exact .trusted timeoutMs given allowed plain
    · exact .approved timeoutMs given asked plain

end Tool

end CodeAgent
