import CodeAgent.Proofs.Session.Reachable
import CodeAgent.Proofs.Turn.Reversal

/-! The counter of applied edits and the stack of changes.
A turn raises the counter by each change that it pushes, and an undo that succeeds takes one from both;
bounds and undos that fail never make the stack outgrow the counter. So counting down an undo never
stops at zero, and of a session's edits no more can be taken back than were applied. -/
namespace CodeAgent

namespace Session

theorem length_pushUndo_le (s : Session) (c : Change) :
    (s.pushUndo c).undoStack.length ≤ s.undoStack.length + 1 := by
  simp only [pushUndo, List.length_cons]
  split
  · rw [List.length_dropLast]
    omega
  · omega

theorem length_foldl_pushUndo_le (s : Session) (cs : List Change) :
    (cs.foldl pushUndo s).undoStack.length ≤ s.undoStack.length + cs.length := by
  induction cs generalizing s with
  | nil => simp
  | cons c cs ih =>
    have pushed := s.length_pushUndo_le c
    have later := ih (s.pushUndo c)
    simp only [List.foldl_cons, List.length_cons]
    omega

/-- The counter covers the stack, and is the `n` edits that were applied less the `u` that were taken
back. -/
structure Counted (n u : Nat) (s : Session) : Prop where
  covers : s.undoDepth ≤ s.stats.editsApplied
  balance : s.stats.editsApplied + u = n

section

variable {n u : Nat} {s s' after : Session} {l : List Heard}

theorem counted_new (project id : String) (now : Int) : (new project id now).Counted 0 0 where
  covers := Nat.le_refl _
  balance := rfl

theorem Counted.congr (counted : s.Counted n u)
    (stack : s'.undoStack.length ≤ s.undoStack.length) (stats : s'.stats = s.stats) :
    s'.Counted n u := by
  have covers := counted.covers
  constructor
  · rw [stats]
    exact Nat.le_trans stack covers
  · rw [stats]
    exact counted.balance

theorem Counted.withLimits (counted : s.Counted n u) (maxUndo maxInputs : Nat) :
    (s.withLimits maxUndo maxInputs).Counted n u :=
  counted.congr (List.length_take_le' _ _) rfl

theorem Counted.limited (counted : s.Counted n u) (settings : SessionSettings) :
    (s.limited settings).Counted n u :=
  counted.withLimits ..

theorem Counted.touch (counted : s.Counted n u) (t : Int) :
    (s.touch t).Counted n u :=
  counted.congr (Nat.le_refl _) rfl

/-- A turn applies as many edits as its account has changes. -/
theorem Counted.turned {a : Agent} {input : String} {start : TurnState} {o : Outcome TurnReport}
    {es : List Turn.Entry} (counted : s.Counted n u)
    (ran : Turn.TurnRun a s input start l o after) (account : Turn.Account a l es) :
    after.Counted (n + (es.filterMap Turn.Entry.change?).length) u := by
  obtain ⟨es', account', stack, stats⟩ := ran.changes
  obtain rfl : es = es' := account.unique account'
  have grown := s.length_foldl_pushUndo_le (es.filterMap Turn.Entry.change?)
  obtain ⟨covers, balance⟩ := counted
  simp only [undoDepth] at covers
  constructor
  · simp only [undoDepth]
    rw [stack, stats]
    omega
  · rw [stats]
    omega

/-- An undo that succeeds finds the counter above zero. -/
theorem Counted.undone {root : String} {report : UndoReport} (counted : s.Counted n u)
    (run : Act.Trace (Undo.run root s) l (report, after)) :
    after.Counted n (u + report.success.toNat) ∧
      after.stats.editsApplied + report.success.toNat = s.stats.editsApplied := by
  obtain ⟨covers, balance⟩ := counted
  simp only [undoDepth] at covers
  cases stack : s.undoStack with
  | nil =>
    obtain ⟨-, rfl, rfl⟩ := Undo.trace_run_nothing stack run
    exact ⟨⟨covers, balance⟩, rfl⟩
  | cons c older =>
    have popped : s.popUndo = (some c, { s with undoStack := older }) :=
      popUndo_eq.mpr ⟨older, stack, rfl⟩
    rw [stack, List.length_cons] at covers
    rcases Undo.trace_run_some popped run with ⟨success, t, rfl⟩ | ⟨failed, -, rfl⟩
    · rw [success]
      refine ⟨⟨?_, ?_⟩, ?_⟩
      · simp only [undoDepth, Session.touch, Undo.countDown]
        omega
      · simp only [Session.touch, Undo.countDown, Bool.toNat_true]
        omega
      · simp only [Session.touch, Undo.countDown, Bool.toNat_true]
        omega
    · have back := length_pushUndo_le { s with undoStack := older } c
      rw [failed]
      refine ⟨⟨?_, balance⟩, rfl⟩
      simp only [undoDepth]
      exact Nat.le_trans back covers

end

/-- Sessions that come about from a new one, with the edits that their turns applied and the undos that
succeeded. A session that is read from the store has behind it what it had when it was saved. -/
inductive Lived : Nat → Nat → Session → Prop where
  | started {settings : SessionSettings} {project : String} {l : List Heard} {s : Session}
      (run : Act.Trace (start settings project).run l (.ok s)) : Lived 0 0 s
  | anew {settings : SessionSettings} {project : String} {l : List Heard} {s : Session}
      (run : Act.Trace (resume settings project).run
        (⟨.sessions (.latest project), .ok none⟩ :: l) (.ok s)) : Lived 0 0 s
  | resumed {settings : SessionSettings} {project : String} {l : List Heard} {kept s : Session}
      {applied undone : Nat} (saved : Lived applied undone kept)
      (run : Act.Trace (resume settings project).run
        (⟨.sessions (.latest project), .ok (some kept)⟩ :: l) (.ok s)) : Lived applied undone s
  | loaded {settings : SessionSettings} {id : String} {l : List Heard} {kept s : Session}
      {applied undone : Nat} (saved : Lived applied undone kept)
      (run : Act.Trace (load settings id).run
        (⟨.sessions (.load id), .ok (some kept)⟩ :: l) (.ok (some s))) : Lived applied undone s
  | limited {s : Session} {applied undone : Nat} (before : Lived applied undone s)
      (maxUndo maxInputs : Nat) : Lived applied undone (s.withLimits maxUndo maxInputs)
  | persisted {s after : Session} {l : List Heard} {o : Outcome Unit} {applied undone : Nat}
      (before : Lived applied undone s) (run : Act.Trace s.persist l (o, after)) :
      Lived applied undone after
  | turned {a : Agent} {s after : Session} {input : String} {start b : TurnState} {l : List Heard}
      {o : Outcome TurnReport} {path : List TurnState} {es : List Turn.Entry} {applied undone : Nat}
      (before : Lived applied undone s) (contained : a.registry.Contained)
      (run : Act.Trace (Turn.run a s input) l (o, after)) (walk : TurnState.Walk start l path b)
      (account : Turn.Account a l es) :
      Lived (applied + (es.filterMap Turn.Entry.change?).length) undone after
  | undone {root : String} {s after : Session} {l : List Heard} {report : UndoReport}
      {applied undone : Nat} (before : Lived applied undone s)
      (run : Act.Trace (Undo.run root s) l (report, after)) :
      Lived applied (undone + report.success.toNat) after

section

variable {settings : SessionSettings} {project id : String} {s kept : Session} {l : List Heard}

theorem resume_latest {latest : Option Session} (run : Act.Trace (resume settings project).run
      (⟨.sessions (.latest project), .ok latest⟩ :: l) (.ok s)) :
    match latest with
    | some kept => ∃ now, s = (kept.limited settings).touch now
    | none => Act.Trace (start settings project).run l (.ok s) := by
  obtain ⟨answer, rest, heard, ending⟩ := resume_eq run
  obtain ⟨same, rfl⟩ := List.cons.inj heard
  obtain rfl : latest = answer := Except.ok.inj (eq_of_heq (Heard.mk.inj same).2)
  cases latest with
  | none => exact ending
  | some kept => exact ending

theorem load_kept (run : Act.Trace (load settings id).run
      (⟨.sessions (.load id), .ok (some kept)⟩ :: l) (.ok (some s))) :
    s = kept.limited settings := by
  obtain ⟨answer, heard, ending⟩ := load_eq run
  obtain ⟨same, -⟩ := List.cons.inj heard
  rw [ending, Option.some.inj (Except.ok.inj (eq_of_heq (Heard.mk.inj same).2))]

end

theorem Lived.counted {applied undone : Nat} {s : Session} (lived : Lived applied undone s) :
    s.Counted applied undone := by
  induction lived with
  | started run =>
    obtain ⟨id, now, rfl⟩ := start_eq run
    exact (counted_new ..).limited _
  | anew run =>
    obtain ⟨id, now, rfl⟩ := start_eq (resume_latest run)
    exact (counted_new ..).limited _
  | resumed _ run ih =>
    obtain ⟨now, rfl⟩ := resume_latest run
    exact (ih.limited _).touch now
  | loaded _ run ih =>
    rw [load_kept run]
    exact ih.limited _
  | limited _ maxUndo maxInputs ih => exact ih.withLimits maxUndo maxInputs
  | persisted _ run ih =>
    obtain ⟨t, rfl, -⟩ := Turn.trace_persist run
    exact ih.touch t
  | turned _ contained run walk account ih =>
    obtain ⟨derived, -, -⟩ := Turn.trace_run contained run walk
    exact ih.turned derived account
  | undone _ run ih => exact (ih.undone run).1

/-- Whatever a session lived through, its counter covers its stack, each undo that succeeds takes
exactly one from the counter, and no more undos succeeded than edits were applied. -/
theorem lived_edits_cover_undo {applied undone : Nat} {s : Session} (lived : Lived applied undone s) :
    s.undoDepth ≤ s.stats.editsApplied ∧ s.stats.editsApplied + undone = applied ∧
      undone ≤ applied ∧
      ∀ {root : String} {l : List Heard} {report : UndoReport} {after : Session},
        Act.Trace (Undo.run root s) l (report, after) → report.success = true →
          after.stats.editsApplied + 1 = s.stats.editsApplied := by
  have counted := lived.counted
  have balance := counted.balance
  refine ⟨counted.covers, balance, by omega, ?_⟩
  intro root l report after run success
  have taken := (counted.undone run).2
  rwa [success] at taken

/-- A new session, a turn that edits once and the undo of its edit. -/
theorem lived_edits_cover_undo_choosy :
    ∃ s l report after, Lived 1 0 s ∧ Act.Trace (Undo.run "/p" s) l (report, after) ∧
      report.success = true ∧ s.undoDepth = 1 ∧ after.stats.editsApplied = 0 := by
  have begins : Act.Trace (start {} "p").run
      [⟨.newId, "1"⟩, ⟨.now, (0 : Int)⟩, ⟨.sessions (.save (new "p" "1" 0)), .ok ()⟩]
      (.ok (new "p" "1" 0)) := .ask _ _ _ (.ask _ _ _ (.ask _ _ _ (.done _)))
  have contained : Turn.editingAgent.registry.Contained := Registry.contained_standard "/p" {}
  obtain ⟨path, walk⟩ := World.walk_run Turn.choosy Turn.editingTurn Turn.smallWorld
  have run := World.trace_run_pair Turn.choosy Turn.editingTurn Turn.smallWorld
  obtain ⟨derived, -, -⟩ := Turn.trace_run contained run walk
  obtain ⟨es, account, -, stats⟩ := derived.changes
  have ends : (World.run Turn.choosy Turn.editingTurn Turn.smallWorld).1.2.stats.editsApplied = 1 ∧
      (World.run Turn.choosy Turn.editingTurn Turn.smallWorld).1.2.undoDepth = 1 ∧
      (World.run Turn.choosy (Undo.run "/p"
          (World.run Turn.choosy Turn.editingTurn Turn.smallWorld).1.2)
        (World.run Turn.choosy Turn.editingTurn Turn.smallWorld).2).1.1.success = true := by
    decide +kernel
  generalize World.run Turn.choosy Turn.editingTurn Turn.smallWorld = turned at *
  obtain ⟨one, depth, success⟩ := ends
  have applied : (es.filterMap Turn.Entry.change?).length = 1 := by
    rw [one] at stats
    simpa [new, SessionStats.zero] using stats.symm
  have lived := (Lived.started begins).turned contained run walk account
  rw [applied] at lived
  have undo := World.trace_run_pair Turn.choosy (Undo.run "/p" turned.1.2) turned.2
  obtain ⟨-, balance, -, taken⟩ := lived_edits_cover_undo lived
  have counted := taken undo success
  exact ⟨_, _, _, _, lived, undo, success, depth, by omega⟩

end Session

end CodeAgent
