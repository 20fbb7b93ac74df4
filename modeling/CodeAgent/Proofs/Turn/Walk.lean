import CodeAgent.Proofs.Act.Trace
import CodeAgent.Turn.Gate
import Mathlib.Data.List.Chain

/-! The machine of a turn along a run.
A walk is what the machine does while it answers the questions of a run, and nobody else moves it. -/
namespace CodeAgent

namespace Heard

/-! Answers by their meaning -/

@[match_pattern] abbrev told (e : TurnEvent) : Heard := ⟨.tell e, ()⟩
@[match_pattern] abbrev polled (cancelled : Bool) : Heard := ⟨.cancelled, cancelled⟩
@[match_pattern] abbrev confirmed (summary : String) (approved : Bool) : Heard :=
  ⟨.confirm summary, approved⟩
@[match_pattern] abbrev moved (next : TurnState) : Heard := ⟨.turn (.move next), .ok ()⟩
@[match_pattern] abbrev refused (next : TurnState) (f : Fault) : Heard :=
  ⟨.turn (.move next), .error f⟩

/-- The state that a turn tells it has moved to. -/
def announced? : Heard → Option TurnState
  | ⟨.tell (.moved s), _⟩ => some s
  | _ => none

/-- Approval that was asked for and denied. -/
def denial : Heard → Bool
  | ⟨.confirm _, approved⟩ => !approved
  | _ => false

def ofTurn (h : Heard) : Prop := ∃ c, h.question = .turn c

/-- Neither a question to the machine nor word of a move. -/
def aside (h : Heard) : Bool :=
  match h.question with
  | .turn _ | .tell (.moved _) => false
  | _ => true

theorem not_ofTurn_of_aside {h : Heard} (aside : h.aside = true) : ¬ h.ofTurn := by
  rintro ⟨c, asked⟩
  rw [Heard.aside, asked] at aside
  cases aside

theorem announced?_of_aside {h : Heard} (aside : h.aside = true) : h.announced? = none := by
  obtain ⟨q, answer⟩ := h
  cases q with
  | tell e =>
    cases e with
    | moved s => cases aside
    | _ => rfl
  | _ => rfl

end Heard

/-- The moves that a run tells of. -/
def announced (l : List Heard) : List TurnState := l.filterMap Heard.announced?

@[simp] theorem announced_append (l₁ l₂ : List Heard) :
    announced (l₁ ++ l₂) = announced l₁ ++ announced l₂ := List.filterMap_append ..

@[simp] theorem announced_nil : announced [] = [] := rfl

@[simp] theorem announced_cons (h : Heard) (l : List Heard) :
    announced (h :: l) = h.announced?.toList ++ announced l := by
  rw [announced, List.filterMap_cons]
  cases h.announced? <;> rfl

namespace TurnState

/-- A move of the table, or the interrupt that brings a turn back to ready. -/
def Legal (a b : TurnState) : Prop := a.mayMove b = true ∨ (a.interruptible = true ∧ b = ready)

theorem legal_ready {a : TurnState} (busy : a ≠ ready) : Legal a ready := by
  cases a with
  | ready => exact absurd rfl busy
  | thinking => exact Or.inl rfl
  | toolCall => exact Or.inr ⟨rfl, rfl⟩
  | awaitingConfirmation => exact Or.inl rfl
  | error => exact Or.inl rfl

/-- How a machine in one state takes a question, the states it passes into, and where it is then. -/
inductive Hears : TurnState → Heard → List TurnState → TurnState → Prop where
  | state (a : TurnState) : Hears a ⟨.turn .state, a⟩ [] a
  | moved (a b : TurnState) (may : a.mayMove b = true) : Hears a (.moved b) [b] b
  | refused (a b : TurnState) (mayNot : a.mayMove b = false) :
      Hears a (.refused b (illegal a b)) [] a
  | settled (a : TurnState) (busy : a ≠ ready) : Hears a ⟨.turn .settle, true⟩ [ready] ready
  | rested : Hears ready ⟨.turn .settle, false⟩ [] ready
  | other (a : TurnState) (h : Heard) (elsewhere : ¬ h.ofTurn) : Hears a h [] a

/-- The way of a machine along a run, with the states it passes into. -/
inductive Walk : TurnState → List Heard → List TurnState → TurnState → Prop where
  | nil (a : TurnState) : Walk a [] [] a
  | cons {a b c : TurnState} {h : Heard} {l : List Heard} {step path : List TurnState}
      (first : Hears a h step b) (rest : Walk b l path c) : Walk a (h :: l) (step ++ path) c

theorem walk_nil {a b : TurnState} {path : List TurnState} :
    Walk a [] path b ↔ path = [] ∧ b = a := by
  constructor
  · intro walk
    cases walk
    exact ⟨rfl, rfl⟩
  · rintro ⟨rfl, rfl⟩
    exact .nil b

theorem walk_cons {a c : TurnState} {h : Heard} {l : List Heard} {path : List TurnState} :
    Walk a (h :: l) path c ↔
      ∃ step b rest, path = step ++ rest ∧ Hears a h step b ∧ Walk b l rest c := by
  constructor
  · intro walk
    cases walk with
    | cons first rest => exact ⟨_, _, _, rfl, first, rest⟩
  · rintro ⟨step, b, rest, rfl, first, walk⟩
    exact .cons first walk

theorem walk_append {a c : TurnState} {l₁ l₂ : List Heard} {path : List TurnState} :
    Walk a (l₁ ++ l₂) path c ↔
      ∃ b path₁ path₂, path = path₁ ++ path₂ ∧ Walk a l₁ path₁ b ∧ Walk b l₂ path₂ c := by
  induction l₁ generalizing a path with
  | nil =>
    constructor
    · intro walk
      exact ⟨a, [], path, rfl, .nil a, walk⟩
    · rintro ⟨b, path₁, path₂, rfl, first, second⟩
      obtain ⟨rfl, rfl⟩ := walk_nil.mp first
      exact second
  | cons h l ih =>
    simp only [List.cons_append, walk_cons, ih]
    constructor
    · rintro ⟨step, m, _, rfl, first, b, path₁, path₂, rfl, second, third⟩
      exact ⟨b, step ++ path₁, path₂, (List.append_assoc ..).symm, ⟨step, m, path₁, rfl, first, second⟩,
        third⟩
    · rintro ⟨b, _, path₂, rfl, ⟨step, m, path₁, rfl, first, second⟩, third⟩
      exact ⟨step, m, path₁ ++ path₂, List.append_assoc .., first, b, path₁, path₂, rfl, second, third⟩

theorem hears_other {a b : TurnState} {h : Heard} {step : List TurnState} (elsewhere : ¬ h.ofTurn) :
    Hears a h step b ↔ step = [] ∧ b = a := by
  constructor
  · intro hears
    cases hears with
    | other => exact ⟨rfl, rfl⟩
    | _ => exact absurd ⟨_, rfl⟩ elsewhere
  · rintro ⟨rfl, rfl⟩
    exact .other _ _ elsewhere

theorem walk_elsewhere {a b : TurnState} {l : List Heard} {path : List TurnState}
    (elsewhere : ∀ h ∈ l, ¬ h.ofTurn) : Walk a l path b ↔ path = [] ∧ b = a := by
  induction l generalizing a path with
  | nil => exact walk_nil
  | cons h l ih =>
    have later : ∀ h ∈ l, ¬ h.ofTurn := fun x member => elsewhere x (List.mem_cons_of_mem _ member)
    simp only [walk_cons, hears_other (elsewhere h List.mem_cons_self), ih later]
    constructor
    · rintro ⟨_, _, _, rfl, ⟨rfl, rfl⟩, rfl, rfl⟩
      exact ⟨rfl, rfl⟩
    · rintro ⟨rfl, rfl⟩
      exact ⟨[], b, [], rfl, ⟨rfl, rfl⟩, rfl, rfl⟩

theorem walk_aside {a b : TurnState} {l : List Heard} {path : List TurnState}
    (aside : l.all Heard.aside = true) :
    Walk a l path b ↔ path = announced l ∧ announced l = [] ∧ b = a := by
  rw [List.all_eq_true] at aside
  have silent : announced l = [] := by
    rw [announced, List.filterMap_eq_nil_iff]
    exact fun h member => Heard.announced?_of_aside (aside h member)
  rw [walk_elsewhere fun h member => Heard.not_ofTurn_of_aside (aside h member), silent]
  simp

theorem walk_past {a b : TurnState} {h : Heard} {l : List Heard} {path : List TurnState}
    (walk : Walk a (h :: l) path b) (aside : h.aside = true) : Walk a l path b := by
  obtain ⟨step, m, rest, rfl, hears, onward⟩ := walk_cons.mp walk
  obtain ⟨rfl, rfl⟩ := (hears_other (Heard.not_ofTurn_of_aside aside)).mp hears
  exact onward

theorem walk_beyond {a b : TurnState} {l₁ l₂ : List Heard} {path : List TurnState}
    (walk : Walk a (l₁ ++ l₂) path b) (aside : l₁.all Heard.aside = true) :
    announced l₁ = [] ∧ Walk a l₂ path b := by
  obtain ⟨m, path₁, path₂, rfl, walk₁, walk₂⟩ := walk_append.mp walk
  obtain ⟨rfl, silent, rfl⟩ := (walk_aside aside).mp walk₁
  rw [silent]
  exact ⟨rfl, walk₂⟩

theorem walk_told {a b : TurnState} {path : List TurnState} (e : TurnEvent) :
    Walk a [.told e] path b ↔ path = [] ∧ b = a := by
  apply walk_elsewhere
  rintro h member ⟨c, asked⟩
  obtain rfl := List.mem_singleton.mp member
  cases asked

/-- Every step of a walk is legal, and it ends in the last state it passed into. -/
theorem Walk.legal {a b : TurnState} {l : List Heard} {path : List TurnState} (walk : Walk a l path b) :
    List.IsChain Legal (a :: path) ∧ (a :: path).getLast? = some b := by
  induction walk with
  | nil a => exact ⟨.singleton a, rfl⟩
  | @cons a b c h l step path first rest ih =>
    obtain ⟨chain, last⟩ := ih
    cases first with
    | moved _ _ may => exact ⟨.cons_cons (Or.inl may) chain, by simpa using last⟩
    | settled _ busy => exact ⟨.cons_cons (legal_ready busy) chain, by simpa using last⟩
    | _ => exact ⟨chain, last⟩

theorem exists_hears (a : TurnState) (q : Ask) : ∃ answer step b, Hears a ⟨q, answer⟩ step b := by
  by_cases machine : ∃ c, q = .turn c
  · obtain ⟨c, rfl⟩ := machine
    cases c with
    | state => exact ⟨a, _, _, .state a⟩
    | move next =>
      cases may : a.mayMove next with
      | true => exact ⟨.ok (), _, _, .moved a next may⟩
      | false => exact ⟨.error (illegal a next), _, _, .refused a next may⟩
    | settle =>
      by_cases idle : a = ready
      · subst idle
        exact ⟨false, _, _, .rested⟩
      · exact ⟨true, _, _, .settled a idle⟩
  · obtain ⟨answer⟩ := Act.exists_answer q
    exact ⟨answer, _, _, .other a ⟨q, answer⟩ machine⟩

theorem exists_walk (p : Act α) (a : TurnState) :
    ∃ l value path b, Act.Trace p l value ∧ Walk a l path b := by
  induction p generalizing a with
  | done value => exact ⟨[], value, [], a, .done value, .nil a⟩
  | ask q next ih =>
    obtain ⟨answer, step, b, hears⟩ := exists_hears a q
    obtain ⟨l, value, path, c, run, walk⟩ := ih answer b
    exact ⟨_, value, _, c, .ask q next answer run, .cons hears walk⟩

/-- Whatever is heard from some question on, there is a run that hears what the machine would have said
from there on. -/
theorem exists_walk_from {p : Act α} {q : Ask} {answer : q.Answer} {l rest : List Heard} {value : α}
    {a b : TurnState} {path : List TurnState} (run : Act.Trace p (l ++ ⟨q, answer⟩ :: rest) value)
    (walk : Walk a l path b) :
    ∃ answer' rest' value' path' c, Act.Trace p (l ++ ⟨q, answer'⟩ :: rest') value' ∧
      Walk a (l ++ ⟨q, answer'⟩ :: rest') path' c := by
  induction l generalizing p a path with
  | nil =>
    cases run with
    | ask q next =>
      obtain ⟨answer', step, c, hears⟩ := exists_hears a q
      obtain ⟨rest', value', path', d, onward, walk'⟩ := exists_walk (next answer') c
      exact ⟨answer', rest', value', _, d, .ask q next answer' onward, .cons hears walk'⟩
  | cons h l ih =>
    cases run with
    | ask q' next heard onward =>
      obtain ⟨step, m, path, rfl, hears, walk⟩ := walk_cons.mp walk
      obtain ⟨answer', rest', value', path', c, again, walk'⟩ := ih onward walk
      exact ⟨answer', rest', value', _, c, .ask q' next heard again, .cons hears walk'⟩

end TurnState

namespace Turn

open TurnState

theorem trace_moveTo {next : TurnState} {l : List Heard} {r : Outcome Unit} :
    Act.Trace (moveTo next) l r ↔
      (l = [.moved next, .told (.moved next)] ∧ r = .ok ()) ∨
      ∃ f, l = [.refused next f] ∧ r = .error f := by
  rw [moveTo, Act.trace_bind]
  constructor
  · rintro ⟨answer, _, l₂, rfl, asked, rest⟩
    obtain rfl := Act.trace_turn.mp asked
    cases answer with
    | ok _ =>
      simp only [Act.trace_bind, Act.trace_tell, Act.trace_pure] at rest
      obtain ⟨_, _, _, rfl, rfl, rfl, rfl⟩ := rest
      exact Or.inl ⟨rfl, rfl⟩
    | error f =>
      obtain ⟨rfl, rfl⟩ := Act.trace_pure.mp rest
      exact Or.inr ⟨f, rfl, rfl⟩
  · rintro (⟨rfl, rfl⟩ | ⟨f, rfl, rfl⟩)
    · refine ⟨.ok (), [.moved next], _, rfl, Act.trace_turn.mpr rfl, ?_⟩
      simp only [Act.trace_bind, Act.trace_tell, Act.trace_pure]
      exact ⟨(), [.told (.moved next)], [], rfl, rfl, rfl, trivial⟩
    · exact ⟨.error f, [.refused next f], [], rfl, Act.trace_turn.mpr rfl,
        Act.trace_pure.mpr ⟨rfl, rfl⟩⟩

/- How the machine takes a move is read off its table. -/

theorem hears_moved {a b next : TurnState} {step : List TurnState} :
    Hears a (.moved next) step b ↔ a.mayMove next = true ∧ step = [next] ∧ b = next := by
  constructor
  · intro hears
    cases hears with
    | moved _ _ may => exact ⟨may, rfl, rfl⟩
    | other _ _ elsewhere => exact absurd ⟨_, rfl⟩ elsewhere
  · rintro ⟨may, rfl, rfl⟩
    exact .moved a b may

theorem hears_refused {a b next : TurnState} {f : Fault} {step : List TurnState} :
    Hears a (.refused next f) step b ↔
      a.mayMove next = false ∧ f = illegal a next ∧ step = [] ∧ b = a := by
  constructor
  · intro hears
    cases hears with
    | refused _ _ mayNot => exact ⟨mayNot, rfl, rfl, rfl⟩
    | other _ _ elsewhere => exact absurd ⟨_, rfl⟩ elsewhere
  · rintro ⟨mayNot, rfl, rfl, rfl⟩
    exact .refused _ _ mayNot

theorem moveTo_allowed {a b next : TurnState} {l : List Heard} {r : Outcome Unit}
    {path : List TurnState} (run : Act.Trace (moveTo next) l r) (walk : Walk a l path b)
    (may : a.mayMove next = true) :
    l = [.moved next, .told (.moved next)] ∧ r = .ok () ∧ path = [next] ∧ b = next := by
  rcases trace_moveTo.mp run with ⟨rfl, rfl⟩ | ⟨f, rfl, rfl⟩
  · obtain ⟨step, _, rest, rfl, hears, after⟩ := walk_cons.mp walk
    obtain ⟨_, rfl, rfl⟩ := hears_moved.mp hears
    obtain ⟨rfl, rfl⟩ := (walk_told _).mp after
    exact ⟨rfl, rfl, rfl, rfl⟩
  · obtain ⟨step, _, rest, rfl, hears, walk⟩ := walk_cons.mp walk
    exact absurd may (by simp [(hears_refused.mp hears).1])

theorem moveTo_refused {a b next : TurnState} {l : List Heard} {r : Outcome Unit}
    {path : List TurnState} (run : Act.Trace (moveTo next) l r) (walk : Walk a l path b)
    (mayNot : a.mayMove next = false) :
    l = [.refused next (illegal a next)] ∧ r = .error (illegal a next) ∧ path = [] ∧ b = a := by
  rcases trace_moveTo.mp run with ⟨rfl, rfl⟩ | ⟨f, rfl, rfl⟩
  · obtain ⟨step, _, rest, rfl, hears, walk⟩ := walk_cons.mp walk
    exact absurd (hears_moved.mp hears).1 (by simp [mayNot])
  · obtain ⟨step, _, rest, rfl, hears, after⟩ := walk_cons.mp walk
    obtain ⟨_, rfl, rfl, rfl⟩ := hears_refused.mp hears
    obtain ⟨rfl, rfl⟩ := walk_nil.mp after
    exact ⟨rfl, rfl, rfl, rfl⟩

/-- Settling tells of a move exactly when it is one, and leaves the machine ready. -/
theorem settle_walk {a b : TurnState} {l : List Heard} {path : List TurnState}
    (run : Act.Trace settle l ()) (walk : Walk a l path b) :
    b = ready ∧ path = (if a = ready then [] else [ready]) ∧
      l = if a = ready then [⟨.turn .settle, false⟩]
        else [⟨.turn .settle, true⟩, .told (.moved ready)] := by
  rw [settle, Act.trace_bind] at run
  obtain ⟨answer, _, l₂, rfl, asked, rest⟩ := run
  obtain rfl := Act.trace_turn.mp asked
  obtain ⟨step, m, path, rfl, hears, after⟩ := walk_cons.mp walk
  cases hears with
  | settled _ busy =>
    obtain rfl := Act.trace_tell.mp rest
    obtain ⟨rfl, rfl⟩ := (walk_told _).mp after
    simp [busy]
  | rested =>
    obtain ⟨rfl, -⟩ := Act.trace_pure.mp rest
    obtain ⟨rfl, rfl⟩ := walk_nil.mp after
    simp
  | other _ _ elsewhere => exact absurd ⟨_, rfl⟩ elsewhere

end Turn

end CodeAgent
