import CodeAgent.Proofs.Tool.Registry
import CodeAgent.Proofs.Turn.Walk

/-! Tool calls within a turn.
A tool asks for what its surroundings offer to tools and never for the machine, the model or the
session; so the only moves during a call are those around a question for approval. -/
namespace CodeAgent

/-- The questions that tools are given the means to ask. -/
def Ask.ofTool : Ask → Prop
  | .index _ | .file _ | .confirm _ | .cancelled | .process _ | .now | .newId | .progress _ => True
  | _ => False

namespace Heard

def asksApproval (h : Heard) : Prop := ∃ s, h.question = .confirm s

theorem not_ofTurn_of_ofTool {h : Heard} (tool : h.question.ofTool) : ¬ h.ofTurn := by
  rintro ⟨c, asked⟩
  rw [asked] at tool
  exact tool

theorem announced?_of_ofTool {h : Heard} (tool : h.question.ofTool) : h.announced? = none := by
  obtain ⟨q, answer⟩ := h
  cases q <;> first | rfl | exact tool.elim

theorem denial_of_not_asksApproval {h : Heard} (quiet : ¬ h.asksApproval) : h.denial = false := by
  obtain ⟨q, answer⟩ := h
  cases q with
  | confirm s => exact absurd ⟨s, rfl⟩ quiet
  | _ => rfl

end Heard

namespace Registry

/-- Tools that ask for nothing but what tools are given. -/
def Contained (r : Registry Act) : Prop :=
  ∀ t ∈ r.tools, ∀ arguments, Act.Within Ask.ofTool (fun _ => True) (t.summary arguments) ∧
    Act.Within Ask.ofTool (fun _ => True) (t.body arguments)

/-- What happens in a call of a tool that exists and whose arguments fit. -/
inductive Execution (t : Tool Act) (arguments : Json) : List Heard → Except String ToolOutput → Prop
  where
  | ungated {l : List Heard} {e : BodyEnd} (free : t.gated = false)
      (body : Act.Trace (t.body arguments) l e) : Execution t arguments l e.outcome
  | approved {l₁ l₂ : List Heard} {s : String} {e : BodyEnd} (gated : t.gated = true)
      (summary : Act.Trace (t.summary arguments) l₁ s) (body : Act.Trace (t.body arguments) l₂ e) :
      Execution t arguments (l₁ ++ .confirmed s true :: l₂) e.outcome
  | denied {l : List Heard} {s : String} (gated : t.gated = true)
      (summary : Act.Trace (t.summary arguments) l s) :
      Execution t arguments (l ++ [.confirmed s false]) (.error "Operation cancelled by user")

/-- A call is refused before anything is asked, or its tool is executed. -/
theorem trace_execute {r : Registry Act} {name : String} {arguments : Json} {l : List Heard}
    {out : Except String ToolOutput}
    (run : Act.Trace (r.execute Act.confirm name arguments) l out) :
    (l = [] ∧ ∃ why, out = .error why) ∨
      ∃ t, r.get? name = some t ∧ Execution t arguments l out := by
  rcases exists_admits r name arguments with none | ⟨t, e, found, unfit⟩ | ⟨t, admits⟩
  · rw [execute_unknown none] at run
    obtain ⟨rfl, rfl⟩ := Act.trace_pure.mp run
    exact Or.inl ⟨rfl, _, rfl⟩
  · rw [execute_refused found unfit] at run
    obtain ⟨rfl, rfl⟩ := Act.trace_pure.mp run
    exact Or.inl ⟨rfl, _, rfl⟩
  · refine Or.inr ⟨t, admits.found, ?_⟩
    by_cases gated : t.gated = true
    · rw [execute_gated admits gated] at run
      simp only [Act.trace_bind] at run
      obtain ⟨s, l₁, _, rfl, summary, approved, _, l₂, rfl, asked, rest⟩ := run
      obtain rfl := Act.trace_confirm.mp asked
      cases approved with
      | true =>
        simp only [if_true, Act.trace_bind, Act.trace_pure] at rest
        obtain ⟨e, l₂, _, rfl, body, rfl, rfl⟩ := rest
        simpa using Execution.approved gated summary body
      | false =>
        obtain ⟨rfl, rfl⟩ := Act.trace_pure.mp rest
        simpa using Execution.denied gated summary
    · have free : t.gated = false := by simpa using gated
      rw [execute_ungated admits free] at run
      simp only [Act.trace_bind, Act.trace_pure] at run
      obtain ⟨e, l₁, _, rfl, body, rfl, rfl⟩ := run
      simpa using Execution.ungated free body

theorem within_execute {r : Registry Act} {allowed : Ask → Prop} (name : String) (arguments : Json)
    (asks : ∀ s, allowed (.confirm s))
    (tools : ∀ t ∈ r.tools, Act.Within allowed (fun _ => True) (t.summary arguments) ∧
      Act.Within allowed (fun _ => True) (t.body arguments)) :
    Act.Within allowed (fun _ => True) (r.execute Act.confirm name arguments) := by
  rcases exists_admits r name arguments with none | ⟨t, e, found, unfit⟩ | ⟨t, admits⟩
  · rw [execute_unknown none]
    exact Act.within_pure trivial
  · rw [execute_refused found unfit]
    exact Act.within_pure trivial
  · obtain ⟨summary, body⟩ := tools t (mem_of_get? admits.found).1
    by_cases gated : t.gated = true
    · rw [execute_gated admits gated]
      apply Act.within_bind summary
      intro s _
      apply Act.within_bind (Act.within_query (asks s) fun _ => trivial : Act.Within allowed
        (fun _ => True) (Act.confirm s))
      intro approved _
      cases approved with
      | true => exact Act.within_next body fun _ => Act.within_pure trivial
      | false => exact Act.within_pure trivial
    · have free : t.gated = false := by simpa using gated
      rw [execute_ungated admits free]
      exact Act.within_next body fun _ => Act.within_pure trivial

theorem Contained.within_execute {r : Registry Act} (contained : r.Contained) (name : String)
    (arguments : Json) :
    Act.Within Ask.ofTool (fun _ => True) (r.execute Act.confirm name arguments) :=
  Registry.within_execute name arguments (fun _ => trivial) fun t member => contained t member arguments

end Registry

namespace Turn

open TurnState

/-- What a program hears beside what is heard when its questions for approval move the turn. The turn
is in a call until approval is denied; from then on it is ready and moves no more. -/
inductive Gated : TurnState → List Heard → List Heard → TurnState → Prop where
  | nil (a : TurnState) : Gated a [] [] a
  | other {a b : TurnState} {h : Heard} {raw seg : List Heard} (tool : h.question.ofTool)
      (quiet : ¬ h.asksApproval) (rest : Gated a raw seg b) : Gated a (h :: raw) (h :: seg) b
  | approved {b : TurnState} {s : String} {raw seg : List Heard} (rest : Gated toolCall raw seg b) :
      Gated toolCall (.confirmed s true :: raw)
        (.moved awaitingConfirmation :: .told (.moved awaitingConfirmation) :: .confirmed s true ::
          .moved toolCall :: .told (.moved toolCall) :: seg) b
  | denied {b : TurnState} {s : String} {raw seg : List Heard} (rest : Gated ready raw seg b) :
      Gated toolCall (.confirmed s false :: raw)
        (.moved awaitingConfirmation :: .told (.moved awaitingConfirmation) :: .confirmed s false ::
          .moved ready :: .told (.moved ready) :: seg) b
  | again {b : TurnState} {s : String} {approved : Bool} {raw seg : List Heard}
      (rest : Gated ready raw seg b) :
      Gated ready (.confirmed s approved :: raw)
        (.refused awaitingConfirmation (illegal ready awaitingConfirmation) ::
          .confirmed s approved ::
          .refused (if approved then toolCall else ready)
            (illegal ready (if approved then toolCall else ready)) :: seg) b

theorem trace_discard {p : Act α} {l : List Heard} {u : PUnit} :
    Act.Trace (discard p) l u ↔ ∃ a, Act.Trace p l a := by
  change Act.Trace ((fun _ => PUnit.unit) <$> p) l u ↔ _
  rw [Act.trace_map]
  constructor
  · rintro ⟨a, run, -⟩
    exact ⟨a, run⟩
  · rintro ⟨a, run⟩
    exact ⟨a, run, rfl⟩

theorem gated_ask {q : Ask} (next : q.Answer → Act α) (quiet : ∀ s, q ≠ .confirm s) :
    gated (.ask q next) = .ask q fun answer => gated (next answer) := by
  cases q with
  | confirm s => exact absurd rfl (quiet s)
  | _ => rfl

/-- Every run of a program whose questions for approval move the turn is a run of that program, with
the moves of the machine put in and told of. -/
theorem trace_gated {p : Act α} {a b : TurnState} {seg : List Heard} {value : α} {denied : Bool}
    {path : List TurnState} (run : Act.Trace (gated p) seg (value, denied))
    (asks : Act.Within Ask.ofTool (fun _ => True) p) (walk : Walk a seg path b)
    (start : a = toolCall ∨ a = ready) :
    ∃ raw, Act.Trace p raw value ∧ Gated a raw seg b ∧ denied = raw.any Heard.denial ∧
      path = announced seg := by
  induction p generalizing a b seg denied path with
  | done v =>
    obtain ⟨rfl, same⟩ := Act.trace_pure.mp run
    obtain ⟨rfl, rfl⟩ := Prod.mk.inj same
    obtain ⟨rfl, rfl⟩ := walk_nil.mp walk
    exact ⟨[], .done _, .nil _, rfl, rfl⟩
  | ask q next ih =>
    obtain ⟨tool, onwards⟩ := Act.within_ask.mp asks
    by_cases quiet : ∀ s, q ≠ .confirm s
    · rw [gated_ask next quiet] at run
      obtain ⟨answer, l, rfl, rest⟩ := Act.trace_ask.mp run
      obtain ⟨step, _, path, rfl, hears, onward⟩ := walk_cons.mp walk
      have tool : (⟨q, answer⟩ : Heard).question.ofTool := tool
      obtain ⟨rfl, rfl⟩ := (hears_other (Heard.not_ofTurn_of_ofTool tool)).mp hears
      obtain ⟨raw, ran, gate, rfl, rfl⟩ := ih answer rest (onwards answer) onward start
      have silent : ¬ (⟨q, answer⟩ : Heard).asksApproval := fun ⟨s, asked⟩ => quiet s asked
      refine ⟨⟨q, answer⟩ :: raw, .ask q next answer ran, .other tool silent gate, ?_, ?_⟩
      · simp [Heard.denial_of_not_asksApproval silent]
      · simp [announced, Heard.announced?_of_ofTool tool]
    · have asking : ∃ s, q = .confirm s := by simpa using quiet
      obtain ⟨s, rfl⟩ := asking
      simp only [gated, Act.trace_bind, trace_discard, Act.trace_pure] at run
      obtain ⟨_, l₁, _, rfl, ⟨r₁, first⟩, approved, _, _, rfl, asked, _, l₂, _, rfl, ⟨r₂, second⟩,
        ⟨v, late⟩, l₃, _, rfl, rest, rfl, same⟩ := run
      obtain rfl := Act.trace_confirm.mp asked
      obtain ⟨rfl, rfl⟩ := Prod.mk.inj same
      obtain ⟨m₁, path₁, _, rfl, walk₁, onward⟩ := walk_append.mp walk
      simp only [List.cons_append, List.nil_append, List.append_nil] at onward ⊢
      obtain ⟨_, m₂, _, rfl, hears, onward₂⟩ := walk_cons.mp onward
      obtain ⟨rfl, rfl⟩ := (hears_other (by rintro ⟨c, asked⟩; cases asked)).mp hears
      obtain ⟨m₃, path₂, path₃, rfl, walk₂, walk₃⟩ := walk_append.mp onward₂
      -- in a call both moves around the question are made; once ready both are refused
      rcases start with rfl | rfl
      · obtain ⟨rfl, -, rfl, rfl⟩ := moveTo_allowed first walk₁ rfl
        cases approved with
        | true =>
          rw [if_pos rfl] at second
          obtain ⟨rfl, -, rfl, rfl⟩ := moveTo_allowed second walk₂ rfl
          obtain ⟨raw, ran, gate, rfl, rfl⟩ := ih true rest (onwards true) walk₃ (Or.inl rfl)
          refine ⟨.confirmed s true :: raw, .ask _ next true ran, ?_, ?_, ?_⟩
          · simpa using Gated.approved gate
          · simp [Heard.denial]
          · rfl
        | false =>
          rw [if_neg Bool.false_ne_true] at second
          obtain ⟨rfl, -, rfl, rfl⟩ := moveTo_allowed second walk₂ rfl
          obtain ⟨raw, ran, gate, rfl, rfl⟩ := ih false rest (onwards false) walk₃ (Or.inr rfl)
          refine ⟨.confirmed s false :: raw, .ask _ next false ran, ?_, ?_, ?_⟩
          · simpa using Gated.denied gate
          · simp [Heard.denial]
          · rfl
      · obtain ⟨rfl, -, rfl, rfl⟩ := moveTo_refused first walk₁ rfl
        obtain ⟨rfl, -, rfl, rfl⟩ :=
          moveTo_refused second walk₂ (by cases approved <;> rfl)
        obtain ⟨raw, ran, gate, rfl, rfl⟩ := ih approved rest (onwards approved) walk₃ (Or.inr rfl)
        refine ⟨.confirmed s approved :: raw, .ask _ next approved ran, ?_, ?_, ?_⟩
        · simpa using Gated.again gate
        · simp [Heard.denial, Bool.or_comm]
        · rfl

/-- After a denial the turn is ready and stays so. -/
theorem Gated.stays {a b : TurnState} {raw seg : List Heard} (gate : Gated a raw seg b)
    (start : a = ready) : b = ready := by
  induction gate with
  | nil => exact start
  | other _ _ _ ih => exact ih start
  | approved => cases start
  | denied => cases start
  | again _ ih => exact ih rfl

theorem Gated.ends {a b : TurnState} {raw seg : List Heard} (gate : Gated a raw seg b)
    (start : a = toolCall) : b = if raw.any Heard.denial then ready else toolCall := by
  induction gate with
  | nil => simpa using start
  | other _ quiet _ ih => simpa [Heard.denial_of_not_asksApproval quiet] using ih start
  | approved _ ih => simpa [Heard.denial] using ih rfl
  | denied rest => simpa [Heard.denial] using rest.stays rfl
  | again => cases start

end Turn

end CodeAgent
