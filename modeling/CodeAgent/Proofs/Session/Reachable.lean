import CodeAgent.Project.Files
import CodeAgent.Proofs.Session.Lifecycle
import CodeAgent.Proofs.Turn.Books

/-! Sessions that can come about, and the bound on what they can take back.
An undo takes the newest change off its stack before it is known whether the change can be reversed.
No session that comes about holds more changes than it may, so when the change is put back it is the
stack from before, and no older change is pushed out. -/
namespace CodeAgent

namespace Session

/-- A session may keep a change, and keeps no more than it may. -/
structure Bounded (s : Session) : Prop where
  room : 1 ≤ s.maxUndo
  fits : s.undoStack.length ≤ s.maxUndo

section

variable {s s' rest : Session} {c : Change}

theorem Bounded.congr (bounded : s.Bounded) (bound : s'.maxUndo = s.maxUndo)
    (stack : s'.undoStack = s.undoStack) : s'.Bounded where
  room := bound ▸ bounded.room
  fits := by rw [bound, stack]; exact bounded.fits

theorem bounded_new (project id : String) (now : Int) : (new project id now).Bounded where
  room := by simp [new, presetMaxUndo]
  fits := Nat.zero_le _

theorem bounded_withLimits (s : Session) (maxUndo maxInputs : Nat) :
    (s.withLimits maxUndo maxInputs).Bounded where
  room := Nat.le_max_right ..
  fits := List.length_take_le ..

theorem bounded_limited (settings : SessionSettings) (s : Session) : (s.limited settings).Bounded :=
  s.bounded_withLimits ..

theorem Bounded.pushUndo (bounded : s.Bounded) (c : Change) : (s.pushUndo c).Bounded := by
  obtain ⟨room, fits⟩ := bounded
  refine ⟨room, ?_⟩
  simp only [Session.pushUndo]
  split
  · rw [List.length_cons, List.length_dropLast]
    omega
  · rw [List.length_cons]
    omega

theorem Bounded.foldl_pushUndo (bounded : s.Bounded) (cs : List Change) :
    (cs.foldl Session.pushUndo s).Bounded := by
  induction cs generalizing s with
  | nil => exact bounded
  | cons c cs ih => exact ih (bounded.pushUndo c)

theorem popUndo_eq : s.popUndo = (some c, rest) ↔
    ∃ older, s.undoStack = c :: older ∧ rest = { s with undoStack := older } := by
  unfold popUndo
  split
  · rename_i empty
    simp [empty]
  · rename_i top older stack
    rw [stack]
    constructor
    · rintro ⟨⟩
      exact ⟨older, rfl, rfl⟩
    · rintro ⟨_, ⟨⟩, rfl⟩
      rfl

/-- What was taken off a bounded stack finds its place again. -/
theorem Bounded.pushUndo_popped (bounded : s.Bounded) (popped : s.popUndo = (some c, rest)) :
    rest.pushUndo c = s := by
  obtain ⟨older, stack, rfl⟩ := popUndo_eq.mp popped
  have fits := bounded.fits
  rw [stack, List.length_cons] at fits
  have room : ¬ s.maxUndo ≤ older.length := by omega
  simp only [Session.pushUndo, if_neg room, ← stack]

end

end Session

/- Undo -/

namespace Undo

variable {root : String} {s after : Session} {l : List Heard} {report : UndoReport}

theorem trace_run_nothing (empty : s.undoStack = [])
    (run : Act.Trace (Undo.run root s) l (report, after)) :
    l = [] ∧ report = failed none nothing ∧ after = s := by
  have popped : s.popUndo = (none, s) := by rw [Session.popUndo, empty]
  rw [Undo.run, popped] at run
  obtain ⟨rfl, same⟩ := Act.trace_pure.mp run
  obtain ⟨rfl, rfl⟩ := Prod.mk.inj same
  exact ⟨rfl, rfl, rfl⟩

/-- An undo of a change takes it off the stack and counts it down, or puts it back. -/
theorem trace_run_some {c : Change} {rest : Session} (popped : s.popUndo = (some c, rest))
    (run : Act.Trace (Undo.run root s) l (report, after)) :
    (report.success = true ∧ ∃ t, after = (countDown rest).touch t) ∨
      (report.success = false ∧ report.entry = some c ∧ after = rest.pushUndo c) := by
  rw [Undo.run, popped] at run
  obtain ⟨r, l₁, l₂, rfl, -, ending⟩ := Act.trace_bind.mp run
  match r with
  | .ok true =>
    obtain ⟨t, _, _, -, -, ending⟩ := Act.trace_bind.mp ending
    obtain ⟨-, same⟩ := Act.trace_pure.mp ending
    obtain ⟨rfl, rfl⟩ := Prod.mk.inj same
    exact Or.inl ⟨rfl, t, rfl⟩
  | .ok false =>
    obtain ⟨-, same⟩ := Act.trace_pure.mp ending
    obtain ⟨rfl, rfl⟩ := Prod.mk.inj same
    exact Or.inr ⟨rfl, rfl, rfl⟩
  | .error f =>
    obtain ⟨-, same⟩ := Act.trace_pure.mp ending
    obtain ⟨rfl, rfl⟩ := Prod.mk.inj same
    exact Or.inr ⟨rfl, rfl, rfl⟩

theorem run_failed_same (bounded : s.Bounded) (run : Act.Trace (Undo.run root s) l (report, after))
    (failed : report.success = false) : after = s := by
  cases popped : s.popUndo with
  | mk top rest =>
    cases top with
    | none =>
      have empty : s.undoStack = [] := by
        unfold Session.popUndo at popped
        split at popped
        · assumption
        · cases popped
      exact (trace_run_nothing empty run).2.2
    | some c =>
      rcases trace_run_some popped run with ⟨success, -⟩ | ⟨-, -, rfl⟩
      · rw [success] at failed
        cases failed
      · exact bounded.pushUndo_popped popped

theorem run_bounded (bounded : s.Bounded) (run : Act.Trace (Undo.run root s) l (report, after)) :
    after.Bounded := by
  cases popped : s.popUndo with
  | mk top rest =>
    cases top with
    | none =>
      cases success : report.success with
      | false => rwa [run_failed_same bounded run success]
      | true =>
        rw [Undo.run, popped] at run
        obtain ⟨-, same⟩ := Act.trace_pure.mp run
        rw [(Prod.mk.inj same).1] at success
        cases success
    | some c =>
      rcases trace_run_some popped run with ⟨-, t, rfl⟩ | ⟨failed, -, -⟩
      · obtain ⟨older, stack, rfl⟩ := Session.popUndo_eq.mp popped
        have fits := bounded.fits
        rw [stack, List.length_cons] at fits
        exact ⟨bounded.room, Nat.le_of_succ_le fits⟩
      · rwa [run_failed_same bounded run failed]

end Undo

/- Turns -/

namespace Turn

variable {a : Agent} {s after : Session} {l : List Heard}

theorem closed_bounded {mark : Nat} {o : Outcome TurnReport} {t : Int} (bounded : s.Bounded) :
    (closed mark o s t).Bounded := by
  unfold closed
  split <;> exact bounded.congr rfl rfl

theorem TurnRun.bounded {input : String} {start : TurnState} {o : Outcome TurnReport}
    (ran : TurnRun a s input start l o after) (bounded : s.Bounded) : after.Bounded := by
  cases ran with
  | refused => exact bounded
  | @ran l o m b text t t' listed saved rounds =>
    obtain ⟨es, -, booked, -, -⟩ := rounds.books
    have opened : (opened s input t).Bounded :=
      bounded.congr (by simp [Turn.opened, Session.addMessage])
        (by simp [Turn.opened, Session.addMessage])
    have pushed := opened.foldl_pushUndo (es.filterMap Entry.change?)
    apply closed_bounded
    exact pushed.congr (by rw [booked.maxUndo, Session.foldl_pushUndo_maxUndo]) booked.undoStack

end Turn

namespace Session

/-- Sessions that come about: new, or from a store that may answer anything, and then by turns, undos,
other bounds and saving. -/
inductive Reachable : Session → Prop where
  | new (project id : String) (now : Int) : Reachable (Session.new project id now)
  | started {settings : SessionSettings} {project : String} {l : List Heard} {s : Session}
      (run : Act.Trace (start settings project).run l (.ok s)) : Reachable s
  | resumed {settings : SessionSettings} {project : String} {l : List Heard} {s : Session}
      (run : Act.Trace (resume settings project).run l (.ok s)) : Reachable s
  | loaded {settings : SessionSettings} {id : String} {l : List Heard} {s : Session}
      (run : Act.Trace (load settings id).run l (.ok (some s))) : Reachable s
  | limited {s : Session} (before : Reachable s) (maxUndo maxInputs : Nat) :
      Reachable (s.withLimits maxUndo maxInputs)
  | persisted {s after : Session} {l : List Heard} {o : Outcome Unit} (before : Reachable s)
      (run : Act.Trace s.persist l (o, after)) : Reachable after
  | turned {a : Agent} {s after : Session} {input : String} {start b : TurnState} {l : List Heard}
      {o : Outcome TurnReport} {path : List TurnState} (before : Reachable s)
      (contained : a.registry.Contained) (run : Act.Trace (Turn.run a s input) l (o, after))
      (walk : TurnState.Walk start l path b) : Reachable after
  | undone {root : String} {s after : Session} {l : List Heard} {report : UndoReport}
      (before : Reachable s) (run : Act.Trace (Undo.run root s) l (report, after)) : Reachable after

section

variable {settings : SessionSettings} {s : Session} {l : List Heard}

theorem start_bounded {project : String} (run : Act.Trace (start settings project).run l (.ok s)) :
    s.Bounded := by
  obtain ⟨id, now, rfl⟩ := start_eq run
  exact bounded_limited ..

theorem resume_bounded {project : String} (run : Act.Trace (resume settings project).run l (.ok s)) :
    s.Bounded := by
  obtain ⟨latest, rest, -, ending⟩ := resume_eq run
  cases latest with
  | none => exact start_bounded ending
  | some kept =>
    obtain ⟨now, rfl⟩ := ending
    exact (bounded_limited settings kept).congr rfl rfl

theorem load_bounded {id : String} (run : Act.Trace (load settings id).run l (.ok (some s))) :
    s.Bounded := by
  obtain ⟨kept, -, rfl⟩ := load_eq run
  exact bounded_limited ..

end

/-- Every session that comes about keeps its bound. -/
theorem Reachable.bounded {s : Session} (reachable : s.Reachable) : s.Bounded := by
  induction reachable with
  | new project id now => exact bounded_new project id now
  | started run => exact start_bounded run
  | resumed run => exact resume_bounded run
  | loaded run => exact load_bounded run
  | limited _ maxUndo maxInputs => exact bounded_withLimits _ maxUndo maxInputs
  | persisted _ run ih =>
    obtain ⟨t, rfl, -⟩ := Turn.trace_persist run
    exact ih.congr rfl rfl
  | turned _ contained run walk ih => exact (Turn.trace_run contained run walk).1.bounded ih
  | undone _ run ih => exact Undo.run_bounded ih run

end Session

namespace Undo

/-- An undo that fails leaves the session as it was, whatever it failed of; and where there is nothing
to undo it fails without asking for anything. -/
theorem run_failed_keeps_session {root : String} {s after : Session} {l : List Heard}
    {report : UndoReport} (reachable : s.Reachable)
    (run : Act.Trace (Undo.run root s) l (report, after)) :
    (report.success = false → after = s) ∧
      (s.undoStack = [] → l = [] ∧ report = failed none nothing ∧ after = s) :=
  ⟨run_failed_same reachable.bounded run, fun empty => trace_run_nothing empty run⟩

/-- A stored session with more changes than the settings let it keep when it is loaded again. -/
def crowded : Session := { Session.new "demo" "s-1" 0 with
  undoStack := [⟨"c-2", "a.txt", ["two"], "", 2, "edit", false⟩, ⟨"c-1", "a.txt", [], "", 1, "create", true⟩] }

def tight : SessionSettings := { maxUndoEntries := 1 }

/-- The one change that is left fills the stack, and is still there when its file is gone. -/
theorem run_failed_keeps_crowded :
    ∃ report after,
      Act.Trace (Undo.run "/demo" (crowded.limited tight))
        [⟨.file (.read (Path.join "/demo" "a.txt")), .error .missing⟩] (report, after) ∧
      report.success = false ∧ (crowded.limited tight).undoStack.length = tight.maxUndoEntries ∧
      after = crowded.limited tight := by
  have loaded : Act.Trace (Session.load tight "s-1").run [⟨.sessions (.load "s-1"), .ok (some crowded)⟩]
      (.ok (some (crowded.limited tight))) := .ask _ _ _ (.done _)
  have run : Act.Trace (Undo.run "/demo" (crowded.limited tight))
      [⟨.file (.read (Path.join "/demo" "a.txt")), .error .missing⟩] _ := .ask _ _ _ (.done _)
  exact ⟨_, _, run, rfl, rfl, (run_failed_keeps_session (.loaded loaded) run).1 rfl⟩

end Undo

end CodeAgent
