import CodeAgent.Proofs.Tool.Editing

/-! The tools that every project has, by what they do to its files. -/
namespace CodeAgent

/-- What a tool may ask that leaves files alone. -/
def Ask.spares (q : Ask) : Prop := q.ofTool ∧ (q.looks ∨ ∀ c, q ≠ .file c)

theorem Ask.spares_of_looks {q : Ask} (looks : q.looks) : q.spares :=
  ⟨ofTool_of_looks looks, Or.inl looks⟩

/-- What an edit asks, which needs no approval any more. -/
def Ask.edits : Ask → Prop
  | .index _ | .process _ | .file _ | .cancelled | .newId | .now => True
  | _ => False

theorem Ask.edits_of_looks {q : Ask} (looks : q.looks) : q.edits := by
  cases q with
  | index | process | file => trivial
  | _ => exact looks.elim

theorem Ask.ofTool_of_edits {q : Ask} (edits : q.edits) : q.ofTool := by
  cases q with
  | index | process | file | cancelled | newId | now => trivial
  | _ => exact edits.elim

namespace Tool

/-- The policy by which a project's settings admit commands. -/
def policyOf (settings : Settings) : CommandPolicy :=
  .withExtra settings.security.blacklist settings.security.whitelist

/-- A standard tool only looks, or edits, or runs commands. -/
inductive Kind (root : String) (settings : Settings) (t : Tool Act) : Prop where
  | looking (looks : Looking t) (free : t.gated = false) (other : t.name ≠ "run_command")
  | editing (same : t = editLines root settings.edit.autoApply ∨
      t = createFile root settings.edit.autoApply)
  | command (same : t = runCommand root (policyOf settings))

theorem kind_of_standard {root : String} {settings : Settings} {t : Tool Act}
    (member : t ∈ standardTools root settings) : Kind root settings t := by
  simp only [standardTools, List.mem_cons, List.not_mem_nil, or_false] at member
  rcases member with rfl | rfl | rfl | rfl | rfl | rfl | rfl | rfl | rfl | rfl | rfl | rfl | rfl | rfl | rfl
  · exact .looking (looking_getLines root) rfl (ne_of_beq_false rfl)
  · exact .looking (looking_getFunction root) rfl (ne_of_beq_false rfl)
  · exact .looking (looking_getStructure root) rfl (ne_of_beq_false rfl)
  · exact .editing (Or.inl rfl)
  · exact .editing (Or.inr rfl)
  · exact .looking (looking_findReferences root) rfl (ne_of_beq_false rfl)
  · exact .looking looking_findDefinition rfl (ne_of_beq_false rfl)
  · exact .looking (looking_getDependencies root) rfl (ne_of_beq_false rfl)
  · exact .looking (looking_getDependents root) rfl (ne_of_beq_false rfl)
  · exact .looking (looking_getComplexity root) rfl (ne_of_beq_false rfl)
  · exact .looking (looking_getTodos root) rfl (ne_of_beq_false rfl)
  · exact .looking (looking_gitStatus root) rfl (ne_of_beq_false rfl)
  · exact .looking (looking_gitDiff root) rfl (ne_of_beq_false rfl)
  · exact .command rfl
  · exact .looking (looking_runTests root) rfl (ne_of_beq_false rfl)

theorem Editing.body_edits {root : String} {autoApply : Bool} {t : Tool Act}
    (edits : Editing root autoApply t) (arguments : Json) :
    Act.Within Ask.edits (fun _ => True) (t.body arguments) := by
  apply Act.within_of_traces
  intro l e run
  refine ⟨fun h member => ?_, trivial⟩
  cases edits.body arguments l e run with
  | refused f looked => exact Ask.edits_of_looks (looked h member)
  | changed found changed declared =>
    rcases List.mem_append.mp member with first | second
    · exact Ask.edits_of_looks (looked found (looks_unchanged ..) h first)
    · cases changed with
      | cancelled f =>
        obtain rfl := List.mem_singleton.mp second
        trivial
      | unwritten tried =>
        rcases List.mem_cons.mp second with rfl | later
        · trivial
        · cases tried <;> simp only [List.mem_cons, List.not_mem_nil, or_false] at later
          · subst later
            trivial
          · rcases later with rfl | rfl <;> trivial
      | written recorded =>
        simp only [List.mem_cons] at second
        rcases second with rfl | rfl | rfl | later
        · trivial
        · trivial
        · trivial
        · rcases (recorded.within (within_recordChange ..)).1 h later with looks | asked | asked
          · exact Ask.edits_of_looks looks
          · rw [asked]
            trivial
          · rw [asked]
            trivial

/-- A tool that leaves the files of a project alone, and declares no change of them. -/
structure Tame (t : Tool Act) : Prop where
  summary : ∀ arguments, Act.Within Ask.spares (fun _ => True) (t.summary arguments)
  body : ∀ arguments, Act.Within Ask.spares (fun e => e.change? = none) (t.body arguments)

theorem Looking.tame {t : Tool Act} (looks : Looking t) : t.Tame where
  summary := fun arguments => (looks.summary arguments).mono (fun _ => Ask.spares_of_looks) fun _ h => h
  body := fun arguments => (looks.body arguments).mono (fun _ => Ask.spares_of_looks) fun _ h => h

theorem tame_runCommand (root : String) (policy : CommandPolicy) : (runCommand root policy).Tame where
  summary := fun _ => Act.within_pure trivial
  body := fun arguments => by
    apply Act.within_of_traces
    intro l e run
    cases trace_runCommand run with
    | refused f => exact ⟨by simp, rfl⟩
    | rejected s f => exact ⟨by simp [Ask.spares, Ask.ofTool], rfl⟩
    | trusted _ _ _ plain => exact ⟨by simp [Ask.spares, Ask.ofTool], plain⟩
    | approved _ _ _ plain => exact ⟨by simp [Ask.spares, Ask.ofTool], plain⟩

end Tool

namespace Registry

/-- Files are written by the editing tools of a project and by no other tool. -/
def EditsOnly (root : String) (r : Registry Act) : Prop :=
  ∀ t ∈ r.tools, t.Tame ∨
    ∃ autoApply, t = Tool.editLines root autoApply ∨ t = Tool.createFile root autoApply

theorem EditsOnly.contained {root : String} {r : Registry Act} (edits : r.EditsOnly root) :
    r.Contained := by
  intro t member arguments
  rcases edits t member with tame | ⟨autoApply, same⟩
  · exact ⟨(tame.summary arguments).mono (fun _ h => h.1) fun _ h => h,
      (tame.body arguments).mono (fun _ h => h.1) fun _ _ => trivial⟩
  · have editing := Tool.Editing.of_eq same
    exact ⟨(editing.summary arguments).mono (fun _ h => Ask.ofTool_of_looks h) fun _ h => h,
      (editing.body_edits arguments).mono (fun _ => Ask.ofTool_of_edits) fun _ _ => trivial⟩

theorem editsOnly_standard (root : String) (settings : Settings) :
    (standard root settings).EditsOnly root := by
  intro t member
  cases Tool.kind_of_standard member with
  | looking looks => exact Or.inl looks.tame
  | editing same => exact Or.inr ⟨_, same⟩
  | command same => exact Or.inl (same ▸ Tool.tame_runCommand ..)

theorem contained_standard (root : String) (settings : Settings) :
    (standard root settings).Contained :=
  (editsOnly_standard root settings).contained

end Registry

end CodeAgent
