import CodeAgent.Proofs.Tool.Editing

/-! The tools that read or edit one file, call by call.
A read observes its file. An edit is planned from the file as it was found, and what was planned is what
a user is shown before the file is written. -/
namespace CodeAgent

namespace Files

theorem eq_of_loadRecord {path name : String} {l : List Heard} {record : FileRecord}
    (run : Act.Trace (loadRecord path name).run l (.ok record)) :
    ∃ text modified, record = .ofContent name text modified := by
  obtain ⟨text, status, -, same⟩ := trace_loadRecord.mp run
  exact ⟨text, status.modified, same⟩

end Files

/-- The tools that read or edit one file. -/
inductive FileTool where
  | getLines | getFunction
  | editLines (autoApply : Bool)
  | createFile (autoApply : Bool)

namespace FileTool

open Tool Attempt

def tool (root : String) : FileTool → Tool Act
  | getLines => Tool.getLines root
  | getFunction => Tool.getFunction root
  | editLines autoApply => Tool.editLines root autoApply
  | createFile autoApply => Tool.createFile root autoApply

def edits : FileTool → Bool
  | getLines | getFunction => false
  | editLines _ | createFile _ => true

/-- All that an edit takes is given beside the path. -/
def Complete (arguments : Json) : FileTool → Prop
  | getLines | getFunction => True
  | editLines _ => (∃ start, arguments.countArgument "start" = .ok start) ∧
      (∃ last, arguments.countArgument "end" = .ok last) ∧
      ∃ content, arguments.textArgument "content" = .ok content
  | createFile _ => ∃ content, arguments.textArgument "content" = .ok content

variable {root given : String} {arguments : Json} {l : List Heard} {e : BodyEnd}

/-- A program that asks nothing. -/
abbrev Silent (p : Attempt α) : Prop := Within (fun _ => False) (fun _ => True) p

theorem nil_of_silent {p : Attempt α} {r : Outcome α} (silent : Silent p)
    (run : Act.Trace p.run l r) : l = [] :=
  List.eq_nil_iff_forall_not_mem.mpr fun h member => (run.within silent).1 h member

/-- A read observes the file and asks nothing more, and is done only if that was. -/
theorem trace_read {k : FileTool} (reads : k.edits = false)
    (run : Act.Trace ((k.tool root).body arguments) l e) :
    (l = [] ∧ ∃ f, e = .failed f) ∨ ∃ given r, arguments.textArgument "path" = .ok given ∧
      Act.Trace (observe root given).run l r ∧ ∀ o, e = .done o → ∃ record, r = .ok record := by
  cases k with
  | getLines =>
    obtain ⟨r, ran, rfl⟩ := Act.trace_map.mp run
    rcases trace_ofOutcome_bind ran with ⟨f, -, rfl, rfl⟩ | ⟨given, path, run₁⟩
    · exact Or.inl ⟨rfl, f, rfl⟩
    rcases trace_bind.mp run₁ with ⟨f, observed, rfl⟩ | ⟨record, l₁, l₂, rfl, observed, run₂⟩
    · exact Or.inr ⟨given, .error f, path, observed, by rintro _ ⟨⟩⟩
    · refine Or.inr ⟨given, .ok record, path, ?_, fun _ _ => ⟨record, rfl⟩⟩
      have silent : l₂ = [] := by
        refine nil_of_silent ?_ run₂
        extract_lets total start last shown bounded
        have ranged : ∀ u, Silent (bounded u) := by
          intro u
          unfold bounded
          split
          · exact within_throw_bind
          · exact within_pure trivial
        split
        · exact within_throw_bind
        · exact ranged ()
      simpa [silent] using observed
  | getFunction =>
    obtain ⟨r, ran, rfl⟩ := Act.trace_map.mp run
    rcases trace_ofOutcome_bind ran with ⟨f, -, rfl, rfl⟩ | ⟨name, -, run₁⟩
    · exact Or.inl ⟨rfl, f, rfl⟩
    rcases trace_ofOutcome_bind run₁ with ⟨f, -, rfl, rfl⟩ | ⟨given, path, run₂⟩
    · exact Or.inl ⟨rfl, f, rfl⟩
    rcases trace_bind.mp run₂ with ⟨f, observed, rfl⟩ | ⟨record, l₁, l₂, rfl, observed, run₃⟩
    · exact Or.inr ⟨given, .error f, path, observed, by rintro _ ⟨⟩⟩
    · refine Or.inr ⟨given, .ok record, path, ?_, fun _ _ => ⟨record, rfl⟩⟩
      have silent : l₂ = [] := by
        refine nil_of_silent ?_ run₃
        split
        · exact within_throw
        · dsimp only
          split
          · exact within_throw
          · exact within_pure trivial
      simpa [silent] using observed
  | _ => cases reads

/-- What an edit makes of the file that it found, or of none. -/
inductive Drafts (arguments : Json) : FileTool → Option FileRecord → String → Prop where
  | lines {autoApply : Bool} {current : FileRecord} {start last : Nat} {text : String}
      (first : arguments.countArgument "start" = .ok start)
      (final : arguments.countArgument "end" = .ok last)
      (content : arguments.textArgument "content" = .ok text) :
      Drafts arguments (.editLines autoApply) (some current)
        (Text.unlines (LineEdit.apply ⟨start, last, LineEdit.replacementOf text⟩ current.lines))
  | whole {autoApply : Bool} {existing : Option FileRecord} {text : String}
      (content : arguments.textArgument "content" = .ok text) :
      Drafts arguments (.createFile autoApply) existing text

/-- The arguments and the lines that were found decide what an edit makes of them. -/
theorem Drafts.unique {k : FileTool} {found found' : Option FileRecord} {text text' : String}
    (first : k.Drafts arguments found text) (second : k.Drafts arguments found' text')
    (same : found.map (·.lines) = found'.map (·.lines)) : text = text' := by
  cases first with
  | lines start last content =>
    cases second with
    | lines start' last' content' =>
      cases start.symm.trans start'
      cases last.symm.trans last'
      cases content.symm.trans content'
      have lines : _ = _ := Option.some.inj same
      dsimp only at lines
      rw [lines]
  | whole content =>
    cases second with
    | whole content' => exact Except.ok.inj (content.symm.trans content')

/-- An edit ends as its change does, which it declares. -/
inductive Declares : Outcome (FileRecord × Change) → BodyEnd → Prop where
  | done {x : FileRecord × Change} {o : ToolOutput} (change : o.change = some x.2) :
      Declares (.ok x) (.done o)
  | failed (f : Fault) : Declares (.error f) (.failed f)

theorem Declares.exists_ok {r : Outcome (FileRecord × Change)} {o : ToolOutput}
    (declares : Declares r (.done o)) : ∃ x, r = .ok x := by
  cases declares
  exact ⟨_, rfl⟩

/-- How an edit goes: it is refused where it is planned, does not fit what was found, or changes it. -/
inductive EditTry (k : FileTool) (root given : String) (arguments : Json) :
    List Heard → BodyEnd → Prop where
  | refused {l : List Heard} {f : Fault}
      (planned : Act.Trace (unchanged? root given).run l (.error f)) :
      EditTry k root given arguments l (.failed f)
  | unfit {l : List Heard} {found : String × Option FileRecord} (f : Fault)
      (planned : Act.Trace (unchanged? root given).run l (.ok found)) :
      EditTry k root given arguments l (.failed f)
  | changed {l₁ l₂ : List Heard} {absolute content description : String}
      {existing : Option FileRecord} {r : Outcome (FileRecord × Change)} {e : BodyEnd}
      (planned : Act.Trace (unchanged? root given).run l₁ (.ok (absolute, existing)))
      (drafted : k.Drafts arguments existing content)
      (changed : ChangeRun absolute (Path.relative root absolute) existing content description l₂ r)
      (declares : Declares r e) : EditTry k root given arguments (l₁ ++ l₂) e

/-- What was planned is written, and nothing is asked behind that. -/
theorem EditTry.written {k : FileTool} {l₁ l₂ : List Heard} {absolute content description : String}
    {existing : Option FileRecord} {next : FileRecord × Change → Attempt ToolOutput}
    {r : Outcome ToolOutput}
    (planned : Act.Trace (unchanged? root given).run l₁ (.ok (absolute, existing)))
    (drafted : k.Drafts arguments existing content)
    (run : Act.Trace (writeChange root absolute existing content description >>= next).run l₂ r)
    (last : ∀ x, ∃ o, next x = pure o ∧ o.change = some x.2) :
    EditTry k root given arguments (l₁ ++ l₂) (.ofOutcome r) := by
  rcases trace_bind.mp run with ⟨f, wrote, rfl⟩ | ⟨x, l₃, l₄, rfl, wrote, ending⟩
  · exact .changed planned drafted (trace_writeChange wrote) (.failed f)
  · obtain ⟨o, same, change⟩ := last x
    rw [same] at ending
    obtain ⟨rfl, rfl⟩ := trace_pure.mp ending
    rw [List.append_nil]
    exact .changed planned drafted (trace_writeChange wrote) (.done change)

theorem trace_edit {k : FileTool} (edits : k.edits = true)
    (run : Act.Trace ((k.tool root).body arguments) l e) :
    (l = [] ∧ (∃ f, e = .failed f) ∧
        ((∃ f, arguments.textArgument "path" = .error f) ∨ ¬ k.Complete arguments)) ∨
      ∃ given, arguments.textArgument "path" = .ok given ∧ EditTry k root given arguments l e := by
  cases k with
  | editLines autoApply =>
    obtain ⟨r, ran, rfl⟩ := Act.trace_map.mp run
    rcases trace_bind.mp ran with ⟨f, planned, rfl⟩ | ⟨p, l₁, l₂, rfl, planned, rest⟩
    · cases trace_plan planned with
      | incomplete f missing =>
        refine Or.inl ⟨rfl, ⟨f, rfl⟩, missing.imp id fun missing => ?_⟩
        rintro ⟨⟨start, first⟩, ⟨last, final⟩, text, content⟩
        simp [first, final, content] at missing
      | refused path refused => exact Or.inr ⟨_, path, .refused refused⟩
      | unfit f path found => exact Or.inr ⟨_, path, .unfit f found⟩
    · cases trace_plan planned with
      | planned path first final content found =>
        exact Or.inr ⟨_, path, .written found (.lines first final content) rest fun _ => ⟨_, rfl, rfl⟩⟩
  | createFile autoApply =>
    obtain ⟨r, ran, rfl⟩ := Act.trace_map.mp run
    rcases trace_ofOutcome_bind ran with ⟨f, unknown, rfl, rfl⟩ | ⟨given, path, run₁⟩
    · exact Or.inl ⟨rfl, ⟨f, rfl⟩, Or.inl ⟨f, unknown⟩⟩
    rcases trace_ofOutcome_bind run₁ with ⟨f, unknown, rfl, rfl⟩ | ⟨content, text, run₂⟩
    · refine Or.inl ⟨rfl, ⟨f, rfl⟩, Or.inr ?_⟩
      rintro ⟨content, known⟩
      rw [unknown] at known
      cases known
    refine Or.inr ⟨given, path, ?_⟩
    rcases trace_bind.mp run₂ with ⟨f, planned, rfl⟩ | ⟨⟨absolute, existing⟩, l₁, k, rfl, planned, rest⟩
    · exact .refused planned
    · exact .written planned (.whole text) rest fun _ => ⟨_, rfl, rfl⟩
  | _ => cases edits

/-- A summary that tells why nothing can be shown. -/
def Declines (k : FileTool) (root summary : String) : Prop :=
  ∃ why, summary = (k.tool root).name ++ " (" ++ why ++ ")"

/-- The line over what is shown of a file. -/
def Headed (arguments : Json) (name heading : String) : Prop :=
  (∃ start last, arguments.countArgument "start" = .ok start ∧
    arguments.countArgument "end" = .ok last ∧
    heading = "Edit " ++ name ++ " lines " ++ toString start ++ "-" ++ toString last) ∨
  heading = "Create" ++ " " ++ name ∨ heading = "Overwrite" ++ " " ++ name

/-- The summary of an edit shows what would be changed, or declines to. -/
inductive Shown (k : FileTool) (root : String) (arguments : Json) : List Heard → String → Prop where
  | declined {l : List Heard} {summary : String} (declines : k.Declines root summary) :
      Shown k root arguments l summary
  | difference {l : List Heard} {given absolute content heading : String}
      {existing : Option FileRecord} (headed : Headed arguments (Path.relative root absolute) heading)
      (path : arguments.textArgument "path" = .ok given)
      (planned : Act.Trace (unchanged? root given).run l (.ok (absolute, existing)))
      (drafted : k.Drafts arguments existing content) :
      Shown k root arguments l (heading ++ ":\n" ++
        Diff.unified (Path.relative root absolute) ((existing.map (·.content)).getD "") content)

theorem trace_summary {k : FileTool} {summary : String} (edits : k.edits = true)
    (run : Act.Trace ((k.tool root).summary arguments) l summary) :
    k.Shown root arguments l summary := by
  cases k with
  | editLines autoApply =>
    obtain ⟨r, l₁, l₂, rfl, planned, rest⟩ := Act.trace_bind.mp run
    cases r with
    | error f =>
      obtain ⟨rfl, rfl⟩ := Act.trace_pure.mp rest
      have name : ((editLines autoApply).tool root).name = "edit_lines" := rfl
      refine .declined ⟨"will fail: " ++ f.message, ?_⟩
      simp [name, ← String.append_assoc]
    | ok p =>
      obtain ⟨rfl, rfl⟩ := Act.trace_pure.mp rest
      rw [List.append_nil]
      cases trace_plan planned with
      | @planned given absolute text current start last l path first final content found =>
        have drafted : (editLines autoApply).Drafts arguments (some current) _ :=
          .lines first final content
        have named : current.path = Path.relative root absolute := by
          cases trace_unchanged found with
          | found resolved recalling =>
            cases recalling with
            | intro asked loaded recalled =>
              obtain ⟨text, modified, rfl⟩ := Files.eq_of_loadRecord loaded
              rfl
        have shows := Shown.difference (Or.inl ⟨start, last, first, final, rfl⟩) path found drafted
        rw [← named] at shows
        exact shows
  | createFile autoApply =>
    have name : ((createFile autoApply).tool root).name = "create_file" := rfl
    simp only [tool, Tool.createFile, Tool.editing] at run
    split at run
    · rename_i path content given text
      obtain ⟨r, l₁, l₂, rfl, planned, rest⟩ := Act.trace_bind.mp run
      cases r with
      | error f =>
        obtain ⟨rfl, rfl⟩ := Act.trace_pure.mp rest
        refine .declined ⟨"will fail: " ++ f.message, ?_⟩
        simp [name, ← String.append_assoc]
      | ok shows =>
        obtain ⟨rfl, rfl⟩ := Act.trace_pure.mp rest
        rw [List.append_nil]
        rcases trace_bind.mp planned with ⟨_, -, wrong⟩ | ⟨⟨absolute, existing⟩, l₂, l₃, rfl, found, ending⟩
        · cases wrong
        · obtain ⟨rfl, same⟩ := trace_pure.mp ending
          cases same
          rw [List.append_nil]
          refine .difference (Or.inr ?_) given found (.whole text)
          cases existing with
          | none => exact Or.inl rfl
          | some => exact Or.inr rfl
    · obtain ⟨rfl, rfl⟩ := Act.trace_pure.mp run
      refine .declined ⟨"missing parameters", ?_⟩
      simp [name]
  | _ => cases edits

end FileTool

end CodeAgent
