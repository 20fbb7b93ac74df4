import CodeAgent.Proofs.Project.Scanning
import CodeAgent.Proofs.Tool.FileTool
import CodeAgent.Proofs.Tool.Observing

/-! What edits overwrite.
Reads, edits, undos, passes of the index and whoever else writes to the files of a project follow each
other in any order. An edit of a file that the index has a record of replaces what that record was made
of, and is refused when the file is something else by then. -/
namespace CodeAgent

namespace FileTool

open Tool Attempt

variable {root given path : String} {arguments : Json} {s s' : Scene} {l : List Heard} {e : BodyEnd}

/-- Whatever a call does to records, they are of the files as they are then; and a call that is done
leaves one of its file. -/
theorem renewed_call (k : FileTool) (home : Home s.files root)
    (run : Act.Trace ((k.tool root).body arguments) l e) (along : Along s l s') :
    Renewed root s'.files s.records s'.records ∧ ∀ given path o,
      arguments.textArgument "path" = .ok given → Path.resolve root given = .ok path →
        e = .done o → Known root path s' := by
  have idle : s' = s → (∃ f, e = .failed f) → Renewed root s'.files s.records s'.records ∧
      ∀ given path o, arguments.textArgument "path" = .ok given →
        Path.resolve root given = .ok path → e = .done o → Known root path s' := by
    rintro rfl ⟨f, rfl⟩
    exact ⟨.refl root _ _, by rintro _ _ _ - - ⟨⟩⟩
  cases edits : k.edits with
  | false =>
    rcases trace_read edits run with ⟨rfl, failed⟩ | ⟨given, r, known, observed, ends⟩
    · exact idle (along_nil.mp along) failed
    · obtain ⟨still, renewed, observes⟩ := along_observe home observed along
      rw [← still] at renewed
      refine ⟨renewed, fun given' path o known' resolved done => ?_⟩
      obtain rfl : given = given' := Except.ok.inj (known.symm.trans known')
      obtain ⟨record, same⟩ := ends o done
      exact observes path record resolved same
  | true =>
    rcases trace_edit edits run with ⟨rfl, failed, -⟩ | ⟨given, known, tried⟩
    · exact idle (along_nil.mp along) failed
    · have peeks := within_unchanged Ask.peeks_of_looks (fun _ => trivial) root given
      cases tried with
      | refused planned => exact idle (along.same (planned.within peeks).1) ⟨_, rfl⟩
      | unfit f planned => exact idle (along.same (planned.within peeks).1) ⟨f, rfl⟩
      | changed planned drafted changed declares =>
        obtain ⟨m, along₁, along₂⟩ := along_append.mp along
        obtain rfl := along₁.same (planned.within peeks).1
        have resolved := resolve_of_unchanged planned
        obtain ⟨renewed, stores⟩ := along_changed home resolved changed along₂
        refine ⟨renewed, fun given' path o known' again done => ?_⟩
        obtain rfl : given = given' := Except.ok.inj (known.symm.trans known')
        subst done
        obtain ⟨x, stored⟩ := declares.exists_ok
        rw [resolved] at again
        cases again
        exact stores x stored

end FileTool

/-- One step in a project: a tool reads or edits a file, a change is undone, the index is renewed, or
someone else changes files. -/
inductive Step (root : String) : Scene → Scene → Prop where
  | call {s s' : Scene} {k : FileTool} {arguments : Json} {l : List Heard} {e : BodyEnd}
      (run : Act.Trace ((k.tool root).body arguments) l e) (along : Along s l s') : Step root s s'
  | undo {s s' : Scene} {session : Session} {l : List Heard} {out : UndoReport × Session}
      (run : Act.Trace (Undo.run root session) l out) (along : Along s l s') : Step root s s'
  | pass {s s' : Scene} {settings : ProjectSettings} {ignored : List String} {l : List Heard}
      {r : Outcome IndexStats} (run : Act.Trace (Indexing.run root settings ignored).run l r)
      (along : Along s l s') : Step root s s'
  | outside {s : Scene} {t : FileTree} (home : Tool.Home t root) : Step root s ⟨t, s.records⟩

/-- The scenes of a project from an empty index on, the newest first. -/
inductive Course (root : String) : List Scene → Prop where
  | start {t : FileTree} (home : Tool.Home t root) : Course root [⟨t, fun _ => none⟩]
  | step {s s' : Scene} {older : List Scene} (before : Course root (s :: older))
      (next : Step root s s') : Course root (s' :: s :: older)

/-- The newest scene holds a record that was made of the files when it came about, and has been held
since. -/
inductive RecordedSince (root name : String) (r : FileRecord) : List Scene → Prop where
  | made {s before : Scene} {older : List Scene} (held : s.records name = some r)
      (new : before.records name ≠ some r) (named : r.path = name) (made : Made root s.files r) :
      RecordedSince root name r (s :: before :: older)
  | since {s before : Scene} {older : List Scene} (held : s.records name = some r)
      (earlier : RecordedSince root name r (before :: older)) :
      RecordedSince root name r (s :: before :: older)

theorem RecordedSince.digest {root name : String} {r : FileRecord} {course : List Scene}
    (since : RecordedSince root name r course) : r.hash = contentHash r.content := by
  induction since with
  | made held new named made => exact made.digest
  | since held earlier ih => exact ih

theorem Step.renews {root : String} {s s' : Scene} (step : Step root s s')
    (home : Tool.Home s.files root) :
    Tool.Home s'.files root ∧ Renewed root s'.files s.records s'.records := by
  cases step with
  | call run along =>
    exact ⟨home.keeps along.follows.keeps, (FileTool.renewed_call _ home run along).1⟩
  | undo run along => exact ⟨home.keeps along.follows.keeps, Undo.renewed_run run along⟩
  | pass run along =>
    obtain ⟨still, renewed⟩ := Indexing.renewed_run home run along
    exact ⟨home.keeps along.follows.keeps, by rwa [still]⟩
  | outside home' => exact ⟨home', .refl root _ _⟩

theorem Course.home {root : String} {s : Scene} {older : List Scene}
    (course : Course root (s :: older)) : Tool.Home s.files root := by
  generalize scenes : s :: older = all at course
  induction course generalizing s older with
  | start home =>
    cases scenes
    exact home
  | step before next ih =>
    cases scenes
    exact (next.renews (ih rfl)).1

/-- Every record was made of the files as they were when it came about. -/
theorem Course.recorded {root name : String} {r : FileRecord} {s : Scene} {older : List Scene}
    (course : Course root (s :: older)) (held : s.records name = some r) :
    RecordedSince root name r (s :: older) := by
  generalize scenes : s :: older = all at course ⊢
  induction course generalizing s older with
  | start =>
    cases scenes
    cases held
  | @step m s older before next ih =>
    cases scenes
    -- the step either left the record alone, so it dates from earlier, or made it
    by_cases same : m.records name = some r
    · exact .since held (ih same rfl)
    · obtain ⟨named, made⟩ := ((next.renews before.home).2 name r held).resolve_left same
      exact .made held same named made

namespace FileTool

end FileTool

/- A project with one file, which is read, then written by someone else, then recorded by a pass -/

namespace OneFile

def files (text : String) : FileTree := .ofFiles "/p" [("f", text.toUTF8)] 0

def whole : Json := Json.object [("path", .str "f")]

def firstLine : Json :=
  Json.object [("path", .str "f"), ("start", .nat 1), ("end", .nat 1), ("content", .str "three")]

def reading : Act BodyEnd := (FileTool.getLines.tool "/p").body whole
def editing : Act BodyEnd := ((FileTool.editLines true).tool "/p").body firstLine

def unread : Bench := ⟨files "one", .empty⟩
def read : Bench := (Bench.run reading unread).2
def rewritten : Bench := ⟨files "two", read.index⟩
def recorded : Bench := (Bench.run (Indexing.run "/p" {} []).run rewritten).2

theorem course_read : Course "/p" [read.scene, unread.scene] := by
  have home : Tool.Home (files "one") "/p" := ⟨by decide +kernel, by decide +kernel⟩
  have start : Course "/p" [unread.scene] := .start home
  exact start.step (.call (k := .getLines) (Bench.trace_run reading unread)
    (Bench.along_run reading unread))

theorem course_rewritten : Course "/p" [rewritten.scene, read.scene, unread.scene] := by
  have home : Tool.Home (files "two") "/p" := ⟨by decide +kernel, by decide +kernel⟩
  exact course_read.step (.outside home)

theorem course_recorded : Course "/p" [recorded.scene, rewritten.scene, read.scene, unread.scene] :=
  course_rewritten.step (.pass (Bench.trace_run _ rewritten) (Bench.along_run _ rewritten))

end OneFile

theorem BodyEnd.exists_done {e : BodyEnd} (done : e.outcome.toBool = true) : ∃ o, e = .done o := by
  cases e with
  | done o => exact ⟨o, rfl⟩
  | failed f => cases done
  | crashed text => cases text <;> cases done

namespace FileTool

open OneFile

end FileTool

end CodeAgent
