import CodeAgent.Proofs.Act.Trace
import CodeAgent.Session.Basic
import CodeAgent.Session.Lifecycle
import Mathlib.Data.List.Induction

/-! What the operations on a session leave alone, and its bounded stack of changes. -/
namespace CodeAgent.Session

variable (s : Session)

/- Frames -/

theorem referenceFile_eq (path : String) :
    ∃ context, s.referenceFile path = { s with context := context } := by
  unfold referenceFile
  split
  · exact ⟨s.context, rfl⟩
  · exact ⟨_, rfl⟩

theorem addInput_eq (input : String) : ∃ inputs, s.addInput input = { s with inputs := inputs } := by
  unfold addInput
  extract_lets text
  split
  · exact ⟨s.inputs, rfl⟩
  · exact ⟨_, rfl⟩

@[simp] theorem addInput_history (input : String) : (s.addInput input).history = s.history := by
  obtain ⟨inputs, same⟩ := s.addInput_eq input
  rw [same]

@[simp] theorem addInput_stats (input : String) : (s.addInput input).stats = s.stats := by
  obtain ⟨inputs, same⟩ := s.addInput_eq input
  rw [same]

@[simp] theorem addInput_undoStack (input : String) :
    (s.addInput input).undoStack = s.undoStack := by
  obtain ⟨inputs, same⟩ := s.addInput_eq input
  rw [same]

@[simp] theorem addInput_maxUndo (input : String) : (s.addInput input).maxUndo = s.maxUndo := by
  obtain ⟨inputs, same⟩ := s.addInput_eq input
  rw [same]

/- The stack of changes -/

theorem foldl_pushUndo_maxUndo (cs : List Change) :
    (cs.foldl pushUndo s).maxUndo = s.maxUndo := by
  induction cs generalizing s with
  | nil => rfl
  | cons c cs ih => exact ih (s.pushUndo c)

theorem foldl_pushUndo_congr {s s' : Session} (stack : s.undoStack = s'.undoStack)
    (bound : s.maxUndo = s'.maxUndo) (cs : List Change) :
    (cs.foldl pushUndo s).undoStack = (cs.foldl pushUndo s').undoStack := by
  induction cs generalizing s s' with
  | nil => exact stack
  | cons c cs ih =>
    apply ih
    · simp only [pushUndo, stack, bound]
    · exact bound

/-- As many changes as a stack may hold are on top of it when they have been pushed. -/
theorem foldl_pushUndo_undoStack (cs : List Change) (fits : cs.length ≤ s.maxUndo) :
    ∃ older, (cs.foldl pushUndo s).undoStack = cs.reverse ++ older := by
  induction cs using List.reverseRecOn with
  | nil => exact ⟨s.undoStack, rfl⟩
  | append_singleton cs c ih =>
    rw [List.length_append, List.length_singleton] at fits
    obtain ⟨older, top⟩ := ih (by omega)
    rw [List.foldl_append, List.reverse_append]
    simp only [List.foldl_cons, List.foldl_nil, pushUndo, top, foldl_pushUndo_maxUndo]
    split
    · rename_i full
      -- the bound leaves room for the changes themselves, so what goes is older
      have more : older ≠ [] := by
        rintro rfl
        simp only [List.append_nil, List.length_reverse] at full
        omega
      exact ⟨older.dropLast, by simp [List.dropLast_append_of_ne_nil more]⟩
    · exact ⟨older, rfl⟩

end CodeAgent.Session

/-! How sessions begin.
Whether a session starts, is resumed or is loaded, all that was asked of the store is known, and with it
what came of it. -/

namespace CodeAgent.Session

variable {settings : SessionSettings} {project id : String} {l : List Heard}

theorem trace_save {s : Session} {r : Outcome Unit} :
    Act.Trace s.save.run l r ↔ l = [⟨.sessions (.save s), r⟩] := Act.trace_query

/-- What is saved is what a program that ends with its saving returns. -/
theorem trace_saving {s : Session} {r : Outcome Session}
    (run : Act.Trace (s.save >>= fun _ => pure s : Attempt Session).run l r) :
    ∃ saved, l = [⟨.sessions (.save s), saved⟩] ∧ r = saved.map fun _ => s := by
  rcases Attempt.trace_bind.mp run with ⟨f, asked, rfl⟩ | ⟨u, l₁, l₂, rfl, asked, ending⟩
  · exact ⟨.error f, trace_save.mp asked, rfl⟩
  · obtain ⟨rfl, rfl⟩ := Attempt.trace_pure.mp ending
    exact ⟨.ok u, by rw [trace_save.mp asked, List.append_nil], rfl⟩

/-- A session that starts is new but for its bounds, and saved. -/
theorem trace_start {r : Outcome Session} (run : Act.Trace (start settings project).run l r) :
    ∃ id now saved, l = [⟨.newId, id⟩, ⟨.now, now⟩,
        ⟨.sessions (.save ((new project id now).limited settings)), saved⟩] ∧
      r = saved.map fun _ => (new project id now).limited settings := by
  obtain ⟨id, _, l₁, rfl, drawn, run₁⟩ := Attempt.trace_lift_bind.mp run
  obtain ⟨now, _, l₂, rfl, timed, run₂⟩ := Attempt.trace_lift_bind.mp run₁
  obtain rfl := Act.trace_newId.mp drawn
  obtain rfl := Act.trace_now.mp timed
  obtain ⟨saved, rfl, rfl⟩ := trace_saving run₂
  exact ⟨id, now, saved, rfl, rfl⟩

/-- The latest session goes on within its bounds and is saved, or a new one starts. -/
theorem trace_resume {r : Outcome Session} (run : Act.Trace (resume settings project).run l r) :
    ∃ latest rest, l = ⟨.sessions (.latest project), latest⟩ :: rest ∧
      match latest with
      | .error f => rest = [] ∧ r = .error f
      | .ok none => Act.Trace (start settings project).run rest r
      | .ok (some kept) => ∃ now saved,
        rest = [⟨.now, now⟩, ⟨.sessions (.save ((kept.limited settings).touch now)), saved⟩] ∧
          r = saved.map fun _ => (kept.limited settings).touch now := by
  obtain ⟨latest, rest, rfl, run₁⟩ := Act.trace_ask.mp run
  refine ⟨latest, rest, rfl, ?_⟩
  match latest, run₁ with
  | .error f, run₁ => exact Act.trace_pure.mp run₁
  | .ok none, run₁ => exact run₁
  | .ok (some kept), run₁ =>
    obtain ⟨now, _, l₁, rfl, timed, run₂⟩ := Attempt.trace_lift_bind.mp run₁
    obtain rfl := Act.trace_now.mp timed
    obtain ⟨saved, rfl, rfl⟩ := trace_saving run₂
    exact ⟨now, saved, rfl, rfl⟩

/-- What is loaded goes on within its bounds. -/
theorem trace_load {r : Outcome (Option Session)} (run : Act.Trace (load settings id).run l r) :
    ∃ found, l = [⟨.sessions (.load id), found⟩] ∧ r = found.map (Option.map (limited settings)) := by
  obtain ⟨found, rest, rfl, run₁⟩ := Act.trace_ask.mp run
  cases found with
  | error f =>
    obtain ⟨rfl, rfl⟩ := Act.trace_pure.mp run₁
    exact ⟨.error f, rfl, rfl⟩
  | ok kept =>
    obtain ⟨rfl, rfl⟩ := Attempt.trace_pure.mp run₁
    exact ⟨.ok kept, rfl, rfl⟩

/- What they return -/

section

variable {s : Session}

theorem start_eq (run : Act.Trace (start settings project).run l (.ok s)) :
    ∃ id now, s = (new project id now).limited settings := by
  obtain ⟨id, now, saved, -, same⟩ := trace_start run
  cases saved with
  | error f => cases same
  | ok =>
    obtain rfl := Except.ok.inj same
    exact ⟨id, now, rfl⟩

theorem resume_eq (run : Act.Trace (resume settings project).run l (.ok s)) :
    ∃ latest rest, l = ⟨.sessions (.latest project), .ok latest⟩ :: rest ∧
      match latest with
      | none => Act.Trace (start settings project).run rest (.ok s)
      | some kept => ∃ now, s = (kept.limited settings).touch now := by
  obtain ⟨latest, rest, rfl, ending⟩ := trace_resume run
  match latest, ending with
  | .error f, ending => cases ending.2
  | .ok none, ending => exact ⟨none, rest, rfl, ending⟩
  | .ok (some kept), ending =>
    obtain ⟨now, saved, -, same⟩ := ending
    cases saved with
    | error f => cases same
    | ok =>
      obtain rfl := Except.ok.inj same
      exact ⟨some kept, rest, rfl, now, rfl⟩

theorem load_eq (run : Act.Trace (load settings id).run l (.ok (some s))) :
    ∃ kept, l = [⟨.sessions (.load id), .ok (some kept)⟩] ∧ s = kept.limited settings := by
  obtain ⟨found, rfl, same⟩ := trace_load run
  cases found with
  | error f => cases same
  | ok found =>
    obtain ⟨kept, rfl, rfl⟩ := Option.map_eq_some_iff.mp (Except.ok.inj same).symm
    exact ⟨kept, rfl, rfl⟩

end

end CodeAgent.Session
