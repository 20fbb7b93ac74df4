import CodeAgent.Proofs.Tool.Standard
import CodeAgent.Proofs.Turn.Phase

/-! What the standard tools may do in a call.
A file is written by an edit that was approved, when the turn was just seen not to be cancelled; a
command is run when it is trusted or was approved; and nothing is done after a denial. -/
namespace CodeAgent

/-- Neither a write nor a process. -/
def Heard.harmless (h : Heard) : Bool :=
  match h.question with
  | .file (.write ..) | .process _ => false
  | _ => true

namespace Turn

open TurnState

/-- The process is the command that the call was given, and the policy trusts it or a user approved of
it within the call. A command that is blocked has no such process. -/
def Admitted (policy : CommandPolicy) (call : Running) (p : ProcessCall) : Prop :=
  ∃ command, call.arguments.textArgument "command" = .ok command ∧
    p.program = "sh" ∧ p.arguments = ["-c", command] ∧
    (policy.verdict command = .allowed ∨
      policy.verdict command = .requiresConfirmation ∧ ∃ s, .confirmed s true ∈ call.heard)

/-- What is heard before a file is written: a look at the cancellation, and its directory. -/
def readyToWrite (path : String) : List Heard :=
  [.polled false, ⟨.file (.makeDirs (Path.parent path)), .ok ()⟩]

/-- What may be heard next in a call. Only edits write, after approval unless edits apply by themselves,
and when they have just seen that the turn is not cancelled. -/
structure Running.Permits (settings : Settings) (call : Running) (h : Heard) : Prop where
  write : ∀ path content, h.question = .file (.write path content) →
    (call.tool = "edit_lines" ∨ call.tool = "create_file") ∧
    (settings.edit.autoApply = false → ∃ s, .confirmed s true ∈ call.heard) ∧
    readyToWrite path <:+ call.heard
  process : ∀ p, h.question = .process p → call.tool = "run_command" →
    Admitted (Tool.policyOf settings) call p

def Undenied (l : List Heard) : Prop := ∀ s, .confirmed s false ∉ l

/-- What may be heard next from a tool, when it is heard by itself. -/
def Allows (settings : Settings) (tool : String) (arguments : Json) (before : List Heard)
    (h : Heard) : Prop :=
  Undenied before ∧ Running.Permits settings ⟨tool, arguments, before⟩ h

section

variable {settings : Settings} {tool : String} {arguments : Json} {before l : List Heard}

theorem permits_of_harmless {call : Running} {h : Heard} (harmless : h.harmless = true) :
    call.Permits settings h where
  write := fun path content asked => by simp [Heard.harmless, asked] at harmless
  process := fun p asked => by simp [Heard.harmless, asked] at harmless

theorem permits_of_looks {call : Running} {h : Heard} (looks : h.question.looks)
    (other : call.tool ≠ "run_command") : call.Permits settings h where
  write := fun path content asked => by
    rw [asked] at looks
    exact looks.elim
  process := fun p asked same => absurd same other

theorem Undenied.concat {h : Heard} (free : Undenied before) (plain : h.denial = false) :
    Undenied (before ++ [h]) := by
  intro s member
  rcases List.mem_append.mp member with earlier | last
  · exact free s earlier
  · obtain rfl := List.mem_singleton.mp last
    cases plain

/-- What is permitted anywhere in a call is allowed as long as nothing is denied. -/
theorem each_allowed (free : Undenied before)
    (permitted : ∀ h ∈ l, h.denial = false ∧
      ∀ heard, Running.Permits settings ⟨tool, arguments, heard⟩ h) :
    Each (Allows settings tool arguments) before l ∧ Undenied (before ++ l) := by
  induction l generalizing before with
  | nil => simpa [Each] using free
  | cons h l ih =>
    obtain ⟨plain, here⟩ := permitted h List.mem_cons_self
    obtain ⟨each, stays⟩ := ih (free.concat plain) fun x member =>
      permitted x (List.mem_cons_of_mem _ member)
    exact ⟨⟨⟨free, here before⟩, each⟩, by simpa using stays⟩

theorem each_harmless (free : Undenied before)
    (harmless : ∀ h ∈ l, h.denial = false ∧ h.harmless = true) :
    Each (Allows settings tool arguments) before l ∧ Undenied (before ++ l) :=
  each_allowed free fun h member =>
    ⟨(harmless h member).1, fun _ => permits_of_harmless (harmless h member).2⟩

theorem denial_of_looks {h : Heard} (looks : h.question.looks) : h.denial = false := by
  obtain ⟨q, answer⟩ := h
  cases q with
  | confirm s => exact looks.elim
  | _ => rfl

theorem each_looks (free : Undenied before) (other : tool ≠ "run_command")
    (looked : ∀ h ∈ l, h.question.looks) :
    Each (Allows settings tool arguments) before l ∧ Undenied (before ++ l) :=
  each_allowed free fun h member =>
    ⟨denial_of_looks (looked h member), fun _ => permits_of_looks (looked h member) other⟩

theorem other_of_edit (named : tool = "edit_lines" ∨ tool = "create_file") :
    tool ≠ "run_command" := by
  rcases named with rfl | rfl <;> exact ne_of_beq_false rfl

/-- What an editing tool has to bring with it to write. -/
structure MayWrite (settings : Settings) (tool : String) (before : List Heard) : Prop where
  named : tool = "edit_lines" ∨ tool = "create_file"
  approved : settings.edit.autoApply = false → ∃ s, .confirmed s true ∈ before

theorem MayWrite.append (may : MayWrite settings tool before) (l : List Heard) :
    MayWrite settings tool (before ++ l) where
  named := may.named
  approved := fun asks => by
    obtain ⟨s, member⟩ := may.approved asks
    exact ⟨s, List.mem_append_left l member⟩

/-- A file is written when the turn was seen not to be cancelled and its directory was made. -/
theorem each_written {path content : String} {answer : Except FileError Unit} (free : Undenied before)
    (may : MayWrite settings tool before) :
    Each (Allows settings tool arguments) before
        (readyToWrite path ++ [⟨.file (.write path content), answer⟩]) ∧
      Undenied (before ++ (readyToWrite path ++ [⟨.file (.write path content), answer⟩])) := by
  obtain ⟨ready, stays⟩ : Each (Allows settings tool arguments) before (readyToWrite path) ∧
      Undenied (before ++ readyToWrite path) :=
    each_harmless free (by simp [readyToWrite, Heard.denial, Heard.harmless])
  have writes : Running.Permits settings ⟨tool, arguments, before ++ readyToWrite path⟩
      ⟨.file (.write path content), answer⟩ := by
    refine ⟨?_, fun p asked => by cases asked⟩
    intro _ _ asked
    cases asked
    exact ⟨may.named, (may.append _).approved, List.suffix_append ..⟩
  refine ⟨each_append.mpr ⟨ready, ⟨stays, writes⟩, trivial⟩, ?_⟩
  rw [← List.append_assoc]
  exact stays.concat rfl

theorem each_recorded {absolute name content description : String} {previous : Option FileRecord}
    {r : Outcome (FileRecord × Change)} (free : Undenied before) (other : tool ≠ "run_command")
    (run : Act.Trace (Tool.recordChange absolute name previous content description).run l r) :
    Each (Allows settings tool arguments) before l ∧ Undenied (before ++ l) := by
  apply each_allowed free
  intro h member
  rcases (run.within (Tool.within_recordChange ..)).1 h member with looks | asked | asked
  · exact ⟨denial_of_looks looks, fun _ => permits_of_looks looks other⟩
  all_goals
    obtain ⟨q, answer⟩ := h
    cases asked
    exact ⟨rfl, fun _ => permits_of_harmless rfl⟩

theorem each_changed {absolute name content description : String} {previous : Option FileRecord}
    {r : Outcome (FileRecord × Change)} (free : Undenied before)
    (may : MayWrite settings tool before)
    (changed : Tool.ChangeRun absolute name previous content description l r) :
    Each (Allows settings tool arguments) before l := by
  cases changed with
  | cancelled => exact (each_harmless free (by simp [Heard.denial, Heard.harmless])).1
  | unwritten tried =>
    cases tried with
    | noDirectory => exact (each_harmless free (by simp [Heard.denial, Heard.harmless])).1
    | unwritten => exact (each_written free may).1
  | written recorded =>
    obtain ⟨written, stays⟩ := each_written free may
    exact each_append.mpr ⟨written, (each_recorded stays (other_of_edit may.named) recorded).1⟩

theorem each_edited {root : String} {e : BodyEnd} (free : Undenied before)
    (may : MayWrite settings tool before) (edited : Tool.EditRun root l e) :
    Each (Allows settings tool arguments) before l := by
  cases edited with
  | refused f looked => exact (each_looks free (other_of_edit may.named) looked).1
  | changed found changed =>
    obtain ⟨looked, stays⟩ :=
      each_looks free (other_of_edit may.named) (Tool.looked found (Tool.looks_unchanged ..))
    exact each_append.mpr ⟨looked, each_changed stays (may.append _) changed⟩

theorem each_commanded {root : String} {e : BodyEnd}
    (commanded : Tool.CommandRun root (Tool.policyOf settings) arguments l e) :
    Each (Allows settings tool arguments) [] l := by
  have free : Undenied [] := fun s => List.not_mem_nil
  cases commanded with
  | refused => trivial
  | rejected s => exact ⟨⟨free, permits_of_harmless rfl⟩, trivial⟩
  | trusted timeoutMs given allowed =>
    refine ⟨⟨free, fun _ _ asked => (by cases asked), ?_⟩, trivial⟩
    intro p asked _
    cases asked
    exact ⟨_, given, rfl, rfl, Or.inl allowed⟩
  | @approved command s _ _ timeoutMs given asks =>
    refine ⟨⟨free, permits_of_harmless rfl⟩,
      ⟨free.concat rfl, fun _ _ asked => (by cases asked), ?_⟩, trivial⟩
    intro p asked _
    cases asked
    exact ⟨_, given, rfl, rfl, Or.inr ⟨asks, s, by simp⟩⟩

/-- A call of a standard tool does only what is allowed to it. -/
theorem each_executed {root : String} {t : Tool Act} {out : Except String ToolOutput}
    (kind : Tool.Kind root settings t) (executed : Registry.Execution t arguments l out) :
    Each (Allows settings t.name arguments) [] l := by
  have free : Undenied [] := fun s => List.not_mem_nil
  cases kind with
  | looking looks ungated other =>
    cases executed with
    | ungated _ body => exact (each_looks free other (body.within (looks.body arguments)).1).1
    | approved gated => simp [ungated] at gated
    | denied gated => simp [ungated] at gated
  | command same =>
    subst same
    cases executed with
    | ungated _ body => exact each_commanded (Tool.trace_runCommand body)
    | approved gated => cases gated
    | denied gated => cases gated
  | editing same =>
    have edits := Tool.Editing.of_eq same
    cases executed with
    | ungated ungated body =>
      have may : MayWrite settings t.name [] :=
        ⟨edits.named, fun asks => by simp [edits.gated, asks] at ungated⟩
      exact each_edited free may (edits.body arguments _ _ body)
    | @approved l₁ l₂ s e _ summary body =>
      obtain ⟨looked, stays⟩ :=
        @each_looks settings t.name arguments [] _ free (other_of_edit edits.named)
          (summary.within (edits.summary arguments)).1
      have may : MayWrite settings t.name ([] ++ l₁ ++ [.confirmed s true]) :=
        ⟨edits.named, fun _ => ⟨s, by simp⟩⟩
      refine each_append.mpr ⟨looked, ⟨stays, permits_of_harmless rfl⟩, ?_⟩
      exact each_edited (stays.concat rfl) may (edits.body arguments _ _ body)
    | denied _ summary =>
      obtain ⟨looked, stays⟩ :=
        @each_looks settings t.name arguments [] _ free (other_of_edit edits.named)
          (summary.within (edits.summary arguments)).1
      exact each_append.mpr ⟨looked, ⟨stays, permits_of_harmless rfl⟩, trivial⟩

end

end Turn

end CodeAgent
