import CodeAgent.Proofs.Tool.Failing
import CodeAgent.Proofs.Tool.Standard

/-! What was approved, and what is applied.
An edit is planned twice: to be shown to a user, and again when the user has approved of it. In between
anyone may write to the files. The record that the index holds of a file ties the two plans together. -/
namespace CodeAgent

theorem append_eq_of_first {α : Type} {p : α → Prop} {front front' back back' : List α} {a b : α}
    (same : front ++ a :: back = front' ++ b :: back') (here : p a)
    (none : ∀ x ∈ front', ¬ p x) (none' : ∀ x ∈ back', ¬ p x) :
    front = front' ∧ a = b ∧ back = back' := by
  rcases List.append_eq_append_iff.mp same with ⟨between, rfl, rest⟩ | ⟨between, rfl, rest⟩
  · cases between with
    | nil => simpa [eq_comm] using rest
    | cons x between =>
      obtain ⟨rfl, -⟩ := List.cons.inj rest
      exact absurd here (none a (by simp))
  · cases between with
    | nil => simpa [eq_comm] using rest
    | cons x between =>
      obtain ⟨rfl, rfl⟩ := List.cons.inj rest
      exact absurd here (none' a (by simp))

namespace Registry

variable {tool : Tool Act} {name summary : String} {arguments : Json} {before after : List Heard}

/-- Of a tool whose own programs ask no user, the one approval stands between its summary and its body. -/
theorem Execution.approval {out : Except String ToolOutput}
    (executed : Execution tool arguments (before ++ .confirmed summary true :: after) out)
    (gated : tool.gated = true) (shows : Act.Looks (tool.summary arguments))
    (quiet : Act.Within Ask.edits (fun _ => True) (tool.body arguments)) :
    Act.Trace (tool.summary arguments) before summary ∧
      ∃ e, Act.Trace (tool.body arguments) after e ∧ out = e.outcome := by
  have asks : ∀ s b, Heard.asksApproval (.confirmed s b) := fun s b => ⟨s, rfl⟩
  have looked : ∀ {l s}, Act.Trace (tool.summary arguments) l s → ∀ h ∈ l, ¬ h.asksApproval := by
    rintro l s shown h member ⟨s', asked⟩
    have looks := (shown.within shows).1 h member
    rw [asked] at looks
    exact looks
  have edited : ∀ {l e}, Act.Trace (tool.body arguments) l e → ∀ h ∈ l, ¬ h.asksApproval := by
    rintro l e ran h member ⟨s', asked⟩
    have edits := (ran.within quiet).1 h member
    rw [asked] at edits
    exact edits
  generalize heard : before ++ Heard.confirmed summary true :: after = l at executed
  cases executed with
  | ungated free =>
    rw [gated] at free
    cases free
  | approved _ shown ran =>
    obtain ⟨rfl, same, rfl⟩ := append_eq_of_first heard (asks _ _) (looked shown) (edited ran)
    cases same
    exact ⟨shown, _, ran, rfl⟩
  | denied _ shown =>
    obtain ⟨-, same, -⟩ := append_eq_of_first heard (asks _ _) (looked shown) (by simp)
    cases same

theorem trace_approved {r : Registry Act} {e : BodyEnd} (found : r.get? name = some tool)
    (checked : tool.definition.parameters.check arguments = .ok ()) (gated : tool.gated = true)
    (shown : Act.Trace (tool.summary arguments) before summary)
    (ran : Act.Trace (tool.body arguments) after e) :
    Act.Trace (r.execute Act.confirm name arguments) (before ++ .confirmed summary true :: after)
      e.outcome := by
  simp only [execute, found, checked, gated, if_true]
  refine Act.trace_bind.mpr ⟨summary, before, _, rfl, shown, ?_⟩
  refine Act.trace_bind.mpr ⟨true, [_], _, rfl, Act.trace_confirm.mpr rfl, ?_⟩
  exact Act.trace_bind.mpr ⟨e, after, [], by simp, ran, Act.trace_pure.mpr ⟨rfl, rfl⟩⟩

end Registry

/-- A file holds a text; the text of one that is not there is empty. -/
def FileTree.Reads (t : FileTree) (path text : String) : Prop :=
  t.read path = .ok text.toUTF8 ∨ ((∃ e, t.status path = .error e) ∧ text = "")

theorem FileTree.Reads.unique {t : FileTree} {path old old' : String} (reads : t.Reads path old)
    (reads' : t.Reads path old') : old = old' := by
  have absent : ∀ {text : String}, t.read path = .ok text.toUTF8 → ¬ ∃ e, t.status path = .error e := by
    rintro text read ⟨e, missing⟩
    obtain ⟨modified, status⟩ := FileTree.status_of_read read
    rw [status] at missing
    cases missing
  rcases reads with read | ⟨missing, rfl⟩ <;> rcases reads' with read' | ⟨missing', rfl⟩
  · exact String.toByteArray_inj.mp (Except.ok.inj (read.symm.trans read'))
  · exact absurd missing' (absent read)
  · exact absurd missing (absent read')
  · rfl

/-- What is done to a file is what a summary shows: it held the old text of the difference, and holds the
new one. -/
def AsShown (root path : String) (arguments : Json) (summary : String) (t t' : FileTree) : Prop :=
  ∃ heading old new, FileTool.Headed arguments (Path.relative root path) heading ∧
    summary = heading ++ ":\n" ++ Diff.unified (Path.relative root path) old new ∧
    t.Reads path old ∧ t'.content? = Function.update t.content? path (some new.toUTF8)

theorem AsShown.unique {root path summary old new : String} {arguments : Json} {t t' : FileTree}
    (shown : AsShown root path arguments summary t t') (reads : t.Reads path old)
    (holds : t'.content? path = some new.toUTF8) :
    ∃ heading, FileTool.Headed arguments (Path.relative root path) heading ∧
      summary = heading ++ ":\n" ++ Diff.unified (Path.relative root path) old new := by
  obtain ⟨heading, old', new', headed, shows, reads', contents⟩ := shown
  obtain rfl := reads.unique reads'
  have put := congrFun contents path
  rw [Function.update_self, holds] at put
  obtain rfl := String.toByteArray_inj.mp (Option.some.inj put)
  exact ⟨heading, headed, shows⟩

/-- A user approved of a call that was shown in one scene, and it went on with the files of another. -/
structure Approval (root : String) (settings : Settings) (name : String) (arguments : Json)
    (before : List Heard) (summary : String) (after : List Heard) (s : Scene) (t : FileTree) (s' : Scene)
    (out : Except String ToolOutput) : Prop where
  run : Act.Trace ((Registry.standard root settings).execute Act.confirm name arguments)
    (before ++ .confirmed summary true :: after) out
  scenes : ∃ m, Along s before m ∧ Along ⟨t, m.records⟩ after s'

/-- While a user was asked, no file came or went at a path, and none was written that the index has no
record of. -/
structure Waited (root path : String) (s : Scene) (t : FileTree) : Prop where
  there : (∃ a, s.files.status path = .ok a) ↔ ∃ a, t.status path = .ok a
  unrecorded : s.records (Path.relative root path) = none → t.read path = s.files.read path
  /-- Texts are told apart by their digests. -/
  apart : ∀ old new : String, s.files.read path = .ok old.toUTF8 → t.read path = .ok new.toUTF8 →
    contentHash old = contentHash new → old = new

namespace FileTool

open Tool Attempt

variable {root given path summary : String} {arguments : Json} {s s₁ s' : Scene} {t : FileTree}
  {l l₁ l₂ : List Heard} {e : BodyEnd}

/-- A file is found alike before a user is asked and after that, in what is there and what it holds. -/
theorem found_alike {found found' : Option FileRecord}
    (first : Act.Trace (unchanged? root given).run l₁ (.ok (path, found))) (along₁ : Along s l₁ s₁)
    (second : Act.Trace (unchanged? root given).run l₂ (.ok (path, found')))
    (along₂ : Along ⟨t, s.records⟩ l₂ s') (waited : Waited root path s t) :
    found.map (·.lines) = found'.map (·.lines) ∧
      t.Reads path ((found.map (·.content)).getD "") := by
  have unseen : ∀ {s s' l}, Act.Trace (Files.kind? path) l none → Along s l s' →
      ∃ e, s.files.status path = .error e := by
    intro s s' l asked along
    have known := (Files.along_kind asked along).2
    cases status : s.files.status path with
    | error e => exact ⟨e, rfl⟩
    | ok a =>
      rw [status] at known
      cases known
  cases trace_unchanged first with
  | absent _ asked =>
    obtain ⟨e, unknown⟩ := unseen asked along₁
    cases trace_unchanged second with
    | absent _ again => exact ⟨rfl, Or.inr ⟨unseen again along₂, rfl⟩⟩
    | found _ recalling =>
      obtain ⟨-, -, text, modified, read, -⟩ := along_recalling recalling along₂
      obtain ⟨modified, status⟩ := FileTree.status_of_read read
      obtain ⟨a, came⟩ := waited.there.mpr ⟨_, status⟩
      rw [unknown] at came
      cases came
  | found _ recalling same =>
    obtain ⟨-, rfl, old, modified, read, rfl⟩ := along_recalling recalling along₁
    cases trace_unchanged second with
    | absent _ again =>
      obtain ⟨e, unknown⟩ := unseen again along₂
      obtain ⟨modified, status⟩ := FileTree.status_of_read read
      obtain ⟨a, gone⟩ := waited.there.mp ⟨_, status⟩
      rw [unknown] at gone
      cases gone
    | found _ recalling' same' =>
      obtain ⟨-, rfl, new, modified', read', rfl⟩ := along_recalling recalling' along₂
      have alike : old = new := by
        cases stored : s.records (Path.relative root path) with
        | none =>
          have still := waited.unrecorded stored
          rw [read, read'] at still
          exact (String.toByteArray_inj.mp (Except.ok.inj still)).symm
        | some r =>
          -- both texts have the digest of the one record
          exact waited.apart old new read read' ((same r stored).symm.trans (same' r stored))
      subst alike
      refine ⟨rfl, Or.inl ?_⟩
      rw [Option.map_some, Option.getD_some, FileRecord.content_ofContent]
      exact read'

theorem done_as_shown (k : FileTool) (edits : k.edits = true) {o : ToolOutput} (home : Tool.Home t root)
    (summarized : Act.Trace ((k.tool root).summary arguments) l₁ summary) (first : Along s l₁ s₁)
    (ran : Act.Trace ((k.tool root).body arguments) l₂ (.done o)) (second : Along ⟨t, s.records⟩ l₂ s')
    (shows : ¬ k.Declines root summary) :
    ∃ given path, arguments.textArgument "path" = .ok given ∧ Path.resolve root given = .ok path ∧
      (Waited root path s t → AsShown root path arguments summary t s'.files) := by
  cases trace_summary edits summarized with
  | declined declines => exact absurd declines shows
  | difference headed named planned drafted =>
    have peeks := fun given => within_unchanged Ask.peeks_of_looks (fun _ => trivial) root given
    have resolved := resolve_of_unchanged planned
    refine ⟨_, _, named, resolved, fun waited => ?_⟩
    rcases trace_edit edits ran with ⟨-, ⟨_, wrong⟩, -⟩ | ⟨given, named', tried⟩
    · cases wrong
    cases named.symm.trans named'
    cases tried with
    | changed planned' drafted' changed declares =>
      cases resolved.symm.trans (resolve_of_unchanged planned')
      obtain ⟨m, along₁, along₂⟩ := along_append.mp second
      obtain ⟨lines, reads⟩ := found_alike planned first planned' along₁ waited
      obtain rfl := drafted.unique drafted' lines
      obtain rfl := along₁.same (planned'.within (peeks _)).1
      cases along_change home resolved changed along₂ with
      | untouched => cases declares
      | unrecorded => cases declares
      | recorded puts => exact ⟨_, _, _, headed, rfl, reads, puts.contents⟩

theorem exists_tool {name : String} (root : String) (settings : Settings)
    (edits : name = "edit_lines" ∨ name = "create_file") :
    ∃ k : FileTool, k.edits = true ∧ (k.tool root).name = name ∧
      (k.tool root).gated = !settings.edit.autoApply ∧
      (Registry.standard root settings).get? name = some (k.tool root) ∧
      Tool.Editing root settings.edit.autoApply (k.tool root) := by
  rcases edits with rfl | rfl
  · exact ⟨.editLines settings.edit.autoApply, rfl, rfl, rfl, rfl, editing_editLines ..⟩
  · exact ⟨.createFile settings.edit.autoApply, rfl, rfl, rfl, rfl, editing_createFile ..⟩

theorem within_summary (k : FileTool) (edits : k.edits = true) :
    Act.Within Ask.peeks (fun _ => True) ((k.tool root).summary arguments) := by
  cases k with
  | editLines => exact within_shown_lines Ask.peeks_of_looks (fun _ => trivial) ..
  | createFile => exact within_shown_file Ask.peeks_of_looks (fun _ => trivial) ..
  | _ => cases edits

end FileTool

namespace Bench

variable (tool : Tool Act) (arguments : Json) (b : Bench) (t : FileTree)

/-- A user is shown what a tool is about to do. -/
def asked : String × Bench := run (tool.summary arguments) b

/-- The tool does it, in files that may be others by then. -/
def approved : BodyEnd × Bench := run (tool.body arguments) ⟨t, (asked tool arguments b).2.index⟩

theorem exists_approval {root name : String} {settings : Settings}
    (found : (Registry.standard root settings).get? name = some tool)
    (checked : tool.definition.parameters.check arguments = .ok ()) (gated : tool.gated = true) :
    ∃ before after, Approval root settings name arguments before (asked tool arguments b).1 after b.scene t
      (approved tool arguments b t).2.scene (approved tool arguments b t).1.outcome :=
  ⟨_, _, Registry.trace_approved found checked gated (trace_run _ _) (trace_run _ _), _, along_run _ _,
    along_run (tool.body arguments) ⟨t, (asked tool arguments b).2.index⟩⟩

end Bench

namespace FileTool

open Tool OneFile

def lineInFront : Json :=
  Json.object [("path", .str "f"), ("start", .nat 1), ("end", .nat 0), ("content", .str "zero")]

def rewriting : Json := Json.object [("path", .str "f"), ("content", .str "three")]

def insertion : Tool Act := (editLines false).tool "/p"
def creation : Tool Act := (createFile false).tool "/p"

/-- The file is gone, and another one is there. -/
def gone : FileTree := .ofFiles "/p" [("g", "new".toUTF8)] 0

/-- The file as it was, and another one. -/
def beside : FileTree := .ofFiles "/p" [("f", "one".toUTF8), ("g", "new".toUTF8)] 0

/-- A call that a user approved of is done, and it is not what was shown that is done. -/
def Unshown (name : String) (arguments : Json) (b : Bench) (t : FileTree) (summary : String) : Prop :=
  ∃ before after s' o, Approval "/p" {} name arguments before summary after b.scene t s' (.ok o) ∧
    ¬ AsShown "/p" "/p/f" arguments summary t s'.files

theorem unshown {tool : Tool Act} {name : String} {arguments : Json} {b : Bench} {t : FileTree}
    (old new : String) (found : (Registry.standard "/p" {}).get? name = some tool)
    (checked : tool.definition.parameters.check arguments = .ok ()) (gated : tool.gated = true)
    (goes : (Bench.approved tool arguments b t).1.outcome.toBool = true) (reads : t.Reads "/p/f" old)
    (holds : (Bench.approved tool arguments b t).2.files.content? "/p/f" = some new.toUTF8)
    (differs : ∀ heading, Headed arguments "f" heading →
      (Bench.asked tool arguments b).1 ≠ heading ++ ":\n" ++ Diff.unified "f" old new) :
    Unshown name arguments b t (Bench.asked tool arguments b).1 := by
  obtain ⟨before, after, approval⟩ := Bench.exists_approval tool arguments b t found checked gated
  obtain ⟨o, done⟩ := BodyEnd.exists_done goes
  rw [done] at approval
  refine ⟨before, after, _, o, approval, fun shown => ?_⟩
  have named : Path.relative "/p" "/p/f" = "f" := by decide +kernel
  obtain ⟨heading, headed, same⟩ := shown.unique reads holds
  rw [named] at headed same
  exact differs heading headed same

end FileTool

end CodeAgent
