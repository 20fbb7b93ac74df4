import CodeAgent.Act.Basic

/-! Runs of programs as lists of what was heard.
A run of a program is any way to answer its questions, one after the other, up to its value. What is
true of all runs is true whatever the surroundings are. -/
namespace CodeAgent

/-- A question with the answer to it. -/
structure Heard where
  question : Ask
  answer : question.Answer

namespace Act

/-- A program can end with a value after it heard these answers to its questions. -/
inductive Trace : Act α → List Heard → α → Prop where
  | done (a : α) : Trace (.done a) [] a
  | ask (q : Ask) (next : q.Answer → Act α) (answer : q.Answer) {l : List Heard} {a : α}
      (rest : Trace (next answer) l a) : Trace (.ask q next) (⟨q, answer⟩ :: l) a

theorem trace_done {a b : α} {l : List Heard} : Trace (.done a) l b ↔ l = [] ∧ b = a := by
  constructor
  · intro run
    cases run
    exact ⟨rfl, rfl⟩
  · rintro ⟨rfl, rfl⟩
    exact .done b

theorem trace_ask {q : Ask} {next : q.Answer → Act α} {l : List Heard} {a : α} :
    Trace (.ask q next) l a ↔ ∃ answer rest, l = ⟨q, answer⟩ :: rest ∧ Trace (next answer) rest a := by
  constructor
  · intro run
    cases run with
    | ask q next answer rest => exact ⟨answer, _, rfl, rest⟩
  · rintro ⟨answer, rest, rfl, run⟩
    exact .ask q next answer run

@[simp] theorem trace_pure {a b : α} {l : List Heard} :
    Trace (pure a) l b ↔ l = [] ∧ b = a := trace_done

@[simp] theorem trace_query {q : Ask} {a : q.Answer} {l : List Heard} :
    Trace (query q) l a ↔ l = [⟨q, a⟩] := by
  simp only [query, trace_ask, trace_done]
  constructor
  · rintro ⟨answer, rest, rfl, rfl, rfl⟩
    rfl
  · rintro rfl
    exact ⟨a, [], rfl, rfl, rfl⟩

@[simp] theorem trace_bind {p : Act α} {f : α → Act β} {l : List Heard} {b : β} :
    Trace (p >>= f) l b ↔ ∃ a l₁ l₂, l = l₁ ++ l₂ ∧ Trace p l₁ a ∧ Trace (f a) l₂ b := by
  change Trace (p.bind f) l b ↔ _
  induction p generalizing l with
  | done a =>
    simp only [bind, trace_done]
    constructor
    · intro run
      exact ⟨a, [], l, rfl, ⟨rfl, rfl⟩, run⟩
    · rintro ⟨_, _, _, rfl, ⟨rfl, rfl⟩, run⟩
      exact run
  | ask q next ih =>
    simp only [bind, trace_ask, ih]
    constructor
    · rintro ⟨answer, _, rfl, a, l₁, l₂, rfl, first, second⟩
      exact ⟨a, ⟨q, answer⟩ :: l₁, l₂, rfl, ⟨answer, l₁, rfl, first⟩, second⟩
    · rintro ⟨a, _, l₂, rfl, ⟨answer, l₁, rfl, first⟩, second⟩
      exact ⟨answer, l₁ ++ l₂, rfl, a, l₁, l₂, rfl, first, second⟩

@[simp] theorem trace_map {p : Act α} {f : α → β} {l : List Heard} {b : β} :
    Trace (f <$> p) l b ↔ ∃ a, Trace p l a ∧ b = f a := by
  rw [← bind_pure_comp]
  simp only [trace_bind, trace_pure]
  constructor
  · rintro ⟨a, l₁, _, rfl, run, rfl, rfl⟩
    exact ⟨a, by simpa using run, rfl⟩
  · rintro ⟨a, run, rfl⟩
    exact ⟨a, l, [], by simp, run, rfl, rfl⟩

section

variable {l : List Heard}

theorem trace_index {c : IndexCall} {a : Outcome c.Result} :
    Trace (index c) l a ↔ l = [⟨.index c, a⟩] := trace_query

theorem trace_sessions {c : SessionCall} {a : Outcome c.Result} :
    Trace (sessions c) l a ↔ l = [⟨.sessions c, a⟩] := trace_query

theorem trace_file {c : FileCall} {a : Except FileError c.Result} :
    Trace (file c) l a ↔ l = [⟨.file c, a⟩] := trace_query

theorem trace_turn {c : TurnCall} {a : c.Result} :
    Trace (turn c) l a ↔ l = [⟨.turn c, a⟩] := trace_query

@[simp] theorem trace_decide {f : Fault} {key : String} {d : Decision} :
    Trace (decide f key) l d ↔ l = [⟨.decide f key, d⟩] := trace_query

@[simp] theorem trace_forgive {key : String} {u : Unit} :
    Trace (forgive key) l u ↔ l = [⟨.forgive key, ()⟩] := trace_query

@[simp] theorem trace_chat {ms : List Message} {ts : List ToolDefinition} {e : ChatEnd} :
    Trace (chat ms ts) l e ↔ l = [⟨.chat ms ts, e⟩] := trace_query

@[simp] theorem trace_abort {u : Unit} : Trace abort l u ↔ l = [⟨.abort, ()⟩] := trace_query

@[simp] theorem trace_confirm {s : String} {b : Bool} :
    Trace (confirm s) l b ↔ l = [⟨.confirm s, b⟩] := trace_query

@[simp] theorem trace_cancelled {b : Bool} : Trace cancelled l b ↔ l = [⟨.cancelled, b⟩] :=
  trace_query

@[simp] theorem trace_process {c : ProcessCall} {e : ProcessEnd} :
    Trace (process c) l e ↔ l = [⟨.process c, e⟩] := trace_query

@[simp] theorem trace_now {t : Int} : Trace now l t ↔ l = [⟨.now, t⟩] := trace_query

@[simp] theorem trace_newId {s : String} : Trace newId l s ↔ l = [⟨.newId, s⟩] := trace_query

@[simp] theorem trace_tell {e : TurnEvent} {u : Unit} :
    Trace (tell e) l u ↔ l = [⟨.tell e, ()⟩] := trace_query

end

/-- The answers decide a run: of two runs that begin with the same answers neither goes on further. -/
theorem Trace.unique {p : Act α} {l₁ l₂ r₁ r₂ : List Heard} {a b : α}
    (first : Trace p l₁ a) (second : Trace p l₂ b) (same : l₁ ++ r₁ = l₂ ++ r₂) :
    l₁ = l₂ ∧ a = b ∧ r₁ = r₂ := by
  induction first generalizing l₂ with
  | done a =>
    obtain ⟨rfl, rfl⟩ := trace_done.mp second
    exact ⟨rfl, rfl, same⟩
  | ask q next answer rest ih =>
    obtain ⟨other, l, rfl, run⟩ := trace_ask.mp second
    simp only [List.cons_append, List.cons.injEq, Heard.mk.injEq, heq_eq_eq, true_and] at same
    obtain ⟨rfl, same⟩ := same
    obtain ⟨rfl, rfl, rfl⟩ := ih run same
    exact ⟨rfl, rfl, rfl⟩

/-- Every question of a program is one that is allowed, and every value it ends with is as expected. -/
inductive Within (allowed : Ask → Prop) (expected : α → Prop) : Act α → Prop where
  | done {a : α} (ended : expected a) : Within allowed expected (.done a)
  | ask {q : Ask} {next : q.Answer → Act α} (asked : allowed q)
      (rest : ∀ answer, Within allowed expected (next answer)) : Within allowed expected (.ask q next)

section

variable {allowed : Ask → Prop} {expected : α → Prop}

theorem within_done {a : α} : Within allowed expected (.done a) ↔ expected a := by
  constructor
  · intro within
    cases within with
    | done ended => exact ended
  · exact .done

theorem within_ask {q : Ask} {next : q.Answer → Act α} :
    Within allowed expected (.ask q next) ↔
      allowed q ∧ ∀ answer, Within allowed expected (next answer) := by
  constructor
  · intro within
    cases within with
    | ask asked rest => exact ⟨asked, rest⟩
  · rintro ⟨asked, rest⟩
    exact .ask asked rest

theorem within_pure {a : α} (ended : expected a) : Within allowed expected (pure a) := .done ended

theorem within_query {q : Ask} {expected : q.Answer → Prop} (asked : allowed q)
    (all : ∀ a, expected a) : Within allowed expected (query q) :=
  .ask asked fun a => .done (all a)

theorem within_bind {p : Act α} {f : α → Act β} {wanted : β → Prop}
    (first : Within allowed expected p) (second : ∀ a, expected a → Within allowed wanted (f a)) :
    Within allowed wanted (p >>= f) := by
  change Within allowed wanted (p.bind f)
  induction first with
  | done ended => exact second _ ended
  | ask asked _ ih => exact .ask asked ih

theorem within_next {p : Act α} {f : α → Act β} {wanted : β → Prop}
    (first : Within allowed (fun _ => True) p) (second : ∀ a, Within allowed wanted (f a)) :
    Within allowed wanted (p >>= f) :=
  within_bind first fun a _ => second a

theorem Within.mono {other : Ask → Prop} {wanted : α → Prop} {p : Act α}
    (within : Within allowed expected p) (asks : ∀ q, allowed q → other q)
    (ends : ∀ a, expected a → wanted a) : Within other wanted p := by
  induction within with
  | done ended => exact .done (ends _ ended)
  | ask asked _ ih => exact .ask (asks _ asked) ih

theorem Within.asks {p : Act α} (within : Within allowed expected p) :
    Within allowed (fun _ => True) p :=
  within.mono (fun _ asked => asked) fun _ _ => trivial

theorem within_map {p : Act α} {f : α → β} {wanted : β → Prop}
    (within : Within allowed (fun a => wanted (f a)) p) : Within allowed wanted (f <$> p) := by
  rw [← bind_pure_comp]
  exact within_bind within fun a h => .done h

theorem Trace.within {p : Act α} {l : List Heard} {a : α} (run : Trace p l a)
    (within : Within allowed expected p) : (∀ h ∈ l, allowed h.question) ∧ expected a := by
  induction run with
  | done a => exact ⟨by simp, within_done.mp within⟩
  | ask q next answer rest ih =>
    obtain ⟨asked, onward⟩ := within_ask.mp within
    obtain ⟨later, ended⟩ := ih (onward answer)
    refine ⟨?_, ended⟩
    intro h member
    rcases List.mem_cons.mp member with rfl | behind
    · exact asked
    · exact later h behind

theorem within_any (p : Act α) : Within (fun _ => True) (fun _ => True) p := by
  induction p with
  | done a => exact .done trivial
  | ask q next ih => exact .ask trivial ih

theorem exists_answer (q : Ask) : Nonempty q.Answer := by
  cases q with
  | index | sessions | file => exact ⟨.error default⟩
  | turn c =>
    cases c with
    | state => exact ⟨.ready⟩
    | move => exact ⟨.ok ()⟩
    | settle => exact ⟨true⟩
  | decide => exact ⟨(default : Decision)⟩
  | chat => exact ⟨ChatEnd.cancelled⟩
  | confirm | cancelled => exact ⟨true⟩
  | process => exact ⟨ProcessEnd.timedOut⟩
  | now => exact ⟨(0 : Int)⟩
  | newId => exact ⟨""⟩
  | forgive | abort | tell | progress => exact ⟨()⟩

theorem exists_trace (p : Act α) : ∃ l a, Trace p l a := by
  induction p with
  | done a => exact ⟨[], a, .done a⟩
  | ask q next ih =>
    obtain ⟨answer⟩ := exists_answer q
    obtain ⟨l, a, run⟩ := ih answer
    exact ⟨_, a, .ask q next answer run⟩

theorem within_of_traces {p : Act α}
    (runs : ∀ l a, Trace p l a → (∀ h ∈ l, allowed h.question) ∧ expected a) :
    Within allowed expected p := by
  induction p with
  | done a => exact .done (runs [] a (.done a)).2
  | ask q next ih =>
    refine .ask ?_ fun answer => ih answer fun l a run => ?_
    · obtain ⟨l, a, run⟩ := exists_trace (.ask q next)
      obtain ⟨answer, rest, rfl, -⟩ := trace_ask.mp run
      exact (runs _ a run).1 ⟨q, answer⟩ List.mem_cons_self
    · obtain ⟨asks, ends⟩ := runs _ a (.ask q next answer run)
      exact ⟨fun h member => asks h (List.mem_cons_of_mem _ member), ends⟩

end

end Act

namespace Attempt

/-- What a program that may fail asks, and what it returns when it does not fail. -/
def Within (allowed : Ask → Prop) (expected : α → Prop) (p : Attempt α) : Prop :=
  Act.Within allowed (fun r => ∀ a, r = .ok a → expected a) p.run

section

variable {allowed : Ask → Prop} {expected : α → Prop}

theorem within_pure {a : α} (ended : expected a) : Within allowed expected (pure a) := by
  apply Act.within_pure
  rintro _ ⟨⟩
  exact ended

theorem within_throw {f : Fault} : Within allowed expected (throw f) := by
  apply Act.within_pure
  rintro _ ⟨⟩

theorem within_ofOutcome {o : Outcome α} (ended : ∀ a, o = .ok a → expected a) :
    Within allowed expected (ExceptT.mk (pure o)) := Act.within_pure ended

theorem within_lift {p : Act α} (within : Act.Within allowed expected p) :
    Within allowed expected (liftM p : Attempt α) := by
  change Act.Within allowed _ (Except.ok <$> p)
  apply Act.within_map
  apply within.mono (fun _ ok => ok)
  rintro a ended _ ⟨⟩
  exact ended

theorem within_of {p : Act (Outcome α)}
    (within : Act.Within allowed (fun r => ∀ a, r = .ok a → expected a) p) :
    Within allowed expected (of p) := within

theorem within_bind {p : Attempt α} {f : α → Attempt β} {wanted : β → Prop}
    (first : Within allowed expected p) (second : ∀ a, expected a → Within allowed wanted (f a)) :
    Within allowed wanted (p >>= f) := by
  change Act.Within allowed _ ((p >>= f).run)
  rw [ExceptT.run_bind]
  apply Act.within_bind first
  intro r h
  cases r with
  | ok a => exact second a (h a rfl)
  | error e => exact within_throw

theorem within_next {p : Attempt α} {f : α → Attempt β} {wanted : β → Prop}
    (first : Within allowed (fun _ => True) p) (second : ∀ a, Within allowed wanted (f a)) :
    Within allowed wanted (p >>= f) :=
  within_bind first fun a _ => second a

theorem within_throw_bind {f : Fault} {g : α → Attempt β} {wanted : β → Prop} :
    Within allowed wanted (throw f >>= g) :=
  within_bind (within_throw : Within allowed (fun _ : α => False) _) fun _ wrong => wrong.elim

theorem within_any (p : Attempt α) : Within (fun _ => True) (fun _ => True) p :=
  (Act.within_any p.run).mono (fun _ => id) fun _ _ _ _ => trivial

theorem Within.mono {other : Ask → Prop} {wanted : α → Prop} {p : Attempt α}
    (within : Within allowed expected p) (asks : ∀ q, allowed q → other q)
    (ends : ∀ a, expected a → wanted a) : Within other wanted p :=
  Act.Within.mono within asks fun _ h a e => ends a (h a e)

end

/- Runs of programs that may fail -/

section

variable {l : List Heard}

theorem trace_pure {a : α} {r : Outcome α} :
    Act.Trace (pure a : Attempt α).run l r ↔ l = [] ∧ r = .ok a := Act.trace_pure

theorem trace_throw {f : Fault} {r : Outcome α} :
    Act.Trace (throw f : Attempt α).run l r ↔ l = [] ∧ r = .error f := Act.trace_pure

theorem trace_bind {p : Attempt α} {f : α → Attempt β} {r : Outcome β} :
    Act.Trace (p >>= f).run l r ↔
      (∃ e, Act.Trace p.run l (.error e) ∧ r = .error e) ∨
      ∃ a l₁ l₂, l = l₁ ++ l₂ ∧ Act.Trace p.run l₁ (.ok a) ∧ Act.Trace (f a).run l₂ r := by
  rw [ExceptT.run_bind, Act.trace_bind]
  constructor
  · rintro ⟨first, l₁, l₂, rfl, ran, rest⟩
    cases first with
    | ok a => exact Or.inr ⟨a, l₁, l₂, rfl, ran, rest⟩
    | error e =>
      obtain ⟨rfl, rfl⟩ := Act.trace_pure.mp rest
      exact Or.inl ⟨e, by simpa using ran, rfl⟩
  · rintro (⟨e, ran, rfl⟩ | ⟨a, l₁, l₂, rfl, ran, rest⟩)
    · exact ⟨.error e, l, [], by simp, ran, Act.trace_pure.mpr ⟨rfl, rfl⟩⟩
    · exact ⟨.ok a, l₁, l₂, rfl, ran, rest⟩

theorem trace_lift_bind {p : Act α} {f : α → Attempt β} {r : Outcome β} :
    Act.Trace (liftM p >>= f : Attempt β).run l r ↔
      ∃ a l₁ l₂, l = l₁ ++ l₂ ∧ Act.Trace p l₁ a ∧ Act.Trace (f a).run l₂ r := by
  have lifted : (liftM p : Attempt α).run = Except.ok <$> p := rfl
  rw [trace_bind]
  simp only [lifted, Act.trace_map]
  constructor
  · rintro (⟨_, ⟨_, -, wrong⟩, -⟩ | ⟨a, l₁, l₂, rfl, ⟨_, ran, same⟩, rest⟩)
    · cases wrong
    · cases same
      exact ⟨a, l₁, l₂, rfl, ran, rest⟩
  · rintro ⟨a, l₁, l₂, rfl, ran, rest⟩
    exact Or.inr ⟨a, l₁, l₂, rfl, ⟨a, ran, rfl⟩, rest⟩

theorem trace_index {c : IndexCall} {r : Outcome c.Result} :
    Act.Trace (index c).run l r ↔ l = [⟨.index c, r⟩] := Act.trace_query

end

end Attempt

end CodeAgent
