import CodeAgent.Proofs.Turn.Approval
import CodeAgent.Turn.Run

/-! The steps of a turn, one by one: what each hears and what it makes of the session. -/
namespace CodeAgent.Turn

open TurnState

namespace Step

/-- A step takes a session to another while it hears these answers, and ends in this way. -/
def Runs (x : Step α) (s : Session) (l : List Heard) (r : Outcome α) (after : Session) : Prop :=
  Act.Trace (x.run.run s) l (r, after)

variable {s after : Session} {l : List Heard}

theorem runs_pure {a : α} {r : Outcome α} :
    Runs (pure a) s l r after ↔ l = [] ∧ r = .ok a ∧ after = s := by
  change Act.Trace (.done (Except.ok a, s)) l (r, after) ↔ _
  rw [Act.trace_done, Prod.mk.injEq]

theorem runs_bind {x : Step α} {f : α → Step β} {r : Outcome β} :
    Runs (x >>= f) s l r after ↔
      (∃ e, Runs x s l (.error e) after ∧ r = .error e) ∨
      ∃ a m l₁ l₂, l = l₁ ++ l₂ ∧ Runs x s l₁ (.ok a) m ∧ Runs (f a) m l₂ r after := by
  unfold Runs
  rw [ExceptT.run_bind, StateT.run_bind, Act.trace_bind]
  constructor
  · rintro ⟨⟨first, m⟩, l₁, l₂, rfl, ran, rest⟩
    cases first with
    | ok a => exact Or.inr ⟨a, m, l₁, l₂, rfl, ran, rest⟩
    | error e =>
      obtain ⟨rfl, same⟩ := Act.trace_pure.mp rest
      obtain ⟨rfl, rfl⟩ := Prod.mk.inj same
      exact Or.inl ⟨e, by simpa using ran, rfl⟩
  · rintro (⟨e, ran, rfl⟩ | ⟨a, m, l₁, l₂, rfl, ran, rest⟩)
    · exact ⟨(.error e, after), l, [], by simp, ran, Act.trace_pure.mpr ⟨rfl, rfl⟩⟩
    · exact ⟨(.ok a, m), l₁, l₂, rfl, ran, rest⟩

theorem runs_lift_bind {p : Act α} {f : α → Step β} {r : Outcome β} :
    Runs (liftM p >>= f) s l r after ↔
      ∃ a l₁ l₂, l = l₁ ++ l₂ ∧ Act.Trace p l₁ a ∧ Runs (f a) s l₂ r after := by
  have lifted : ((liftM p : Step α).run.run s) = (fun a => (Except.ok a, s)) <$> p := by
    change (((fun a => Except.ok a) <$> (liftM p : StateT Session Act α)).run s) = _
    rw [StateT.run_map]
    change Prod.map _ id <$> (p >>= fun a => pure (a, s)) = _
    rw [bind_pure_comp, Functor.map_map]
    rfl
  rw [runs_bind]
  simp only [Runs, lifted, Act.trace_map, Prod.mk.injEq]
  constructor
  · rintro (⟨_, ⟨_, -, wrong, -⟩, -⟩ | ⟨a, m, l₁, l₂, rfl, ⟨_, ran, same, rfl⟩, rest⟩)
    · cases wrong
    · cases same
      exact ⟨a, l₁, l₂, rfl, ran, rest⟩
  · rintro ⟨a, l₁, l₂, rfl, ran, rest⟩
    exact Or.inr ⟨a, s, l₁, l₂, rfl, ⟨a, ran, rfl, rfl⟩, rest⟩

theorem runs_modify {g : Session → Session} {r : Outcome PUnit} :
    Runs (modify g) s l r after ↔ l = [] ∧ r = .ok ⟨⟩ ∧ after = g s := by
  change Act.Trace (.done (Except.ok PUnit.unit, g s)) l (r, after) ↔ _
  rw [Act.trace_done, Prod.mk.injEq]

theorem runs_modify_bind {g : Session → Session} {f : PUnit → Step β} {r : Outcome β} :
    Runs (modify g >>= f) s l r after ↔ Runs (f ⟨⟩) (g s) l r after := by
  rw [runs_bind]
  simp only [runs_modify]
  constructor
  · rintro (⟨_, ⟨-, wrong, -⟩, -⟩ | ⟨_, _, _, l₂, rfl, ⟨rfl, -, rfl⟩, rest⟩)
    · cases wrong
    · exact rest
  · intro rest
    exact Or.inr ⟨⟨⟩, g s, [], l, rfl, ⟨rfl, trivial, rfl⟩, rest⟩

theorem runs_get_bind {f : Session → Step β} {r : Outcome β} :
    Runs (get >>= f) s l r after ↔ Runs (f s) s l r after := by
  rw [runs_bind]
  have got : ∀ {l r after}, Runs get s l r after ↔ l = [] ∧ r = .ok s ∧ after = s := by
    intro l r after
    change Act.Trace (.done (Except.ok s, s)) l (r, after) ↔ _
    rw [Act.trace_done, Prod.mk.injEq]
  simp only [got]
  constructor
  · rintro (⟨_, ⟨-, wrong, -⟩, -⟩ | ⟨_, _, _, l₂, rfl, ⟨rfl, same, rfl⟩, rest⟩)
    · cases wrong
    · cases same
      exact rest
  · intro rest
    exact Or.inr ⟨s, s, [], l, rfl, ⟨rfl, rfl, rfl⟩, rest⟩

theorem runs_ofOutcome {o r : Outcome α} :
    Runs (ofOutcome o) s l r after ↔ l = [] ∧ r = o ∧ after = s := by
  change Act.Trace (.done (o, s)) l (r, after) ↔ _
  rw [Act.trace_done, Prod.mk.injEq]

theorem runs_ofOutcome_ok {a : α} {f : α → Step β} {r : Outcome β} :
    Runs (ofOutcome (.ok a) >>= f) s l r after ↔ Runs (f a) s l r after := by
  rw [runs_bind]
  simp only [runs_ofOutcome]
  constructor
  · rintro (⟨_, ⟨-, wrong, -⟩, -⟩ | ⟨_, _, _, l₂, rfl, ⟨rfl, same, rfl⟩, rest⟩)
    · cases wrong
    · cases same
      exact rest
  · intro rest
    exact Or.inr ⟨a, s, [], l, rfl, ⟨rfl, rfl, rfl⟩, rest⟩

theorem runs_ofOutcome_error {e : Fault} {f : α → Step β} {r : Outcome β} :
    Runs (ofOutcome (.error e) >>= f) s l r after ↔ l = [] ∧ r = .error e ∧ after = s := by
  rw [runs_bind]
  simp only [runs_ofOutcome]
  constructor
  · rintro (⟨_, ⟨rfl, same, rfl⟩, rfl⟩ | ⟨_, _, _, _, -, ⟨-, wrong, -⟩, -⟩)
    · cases same
      exact ⟨rfl, rfl, rfl⟩
    · cases wrong
  · rintro ⟨rfl, rfl, rfl⟩
    exact Or.inl ⟨e, ⟨rfl, rfl, rfl⟩, rfl⟩

end Step

section

variable {s after : Session} {l : List Heard}

theorem runs_addMessage_bind {m : Message} {f : PUnit → Step β} {r : Outcome β} :
    Step.Runs (addMessage m >>= f) s l r after ↔
      ∃ t rest, l = ⟨.now, t⟩ :: rest ∧ Step.Runs (f ⟨⟩) (s.addMessage m t) rest r after := by
  rw [addMessage, bind_assoc, Step.runs_lift_bind]
  simp only [Step.runs_modify_bind, Act.trace_now]
  constructor
  · rintro ⟨t, _, rest, rfl, rfl, run⟩
    exact ⟨t, rest, rfl, run⟩
  · rintro ⟨t, rest, rfl, run⟩
    exact ⟨t, [⟨.now, t⟩], rest, rfl, rfl, run⟩

theorem runs_enter_bind {next b c : TurnState} {path : List TurnState} {f : PUnit → Step β}
    {r : Outcome β} (run : Step.Runs (enter next >>= f) s l r after) (walk : Walk b l path c)
    (may : b.mayMove next = true) :
    ∃ rest path', l = .moved next :: .told (.moved next) :: rest ∧ path = next :: path' ∧
      Step.Runs (f ⟨⟩) s rest r after ∧ Walk next rest path' c := by
  rw [enter, bind_assoc, Step.runs_lift_bind] at run
  obtain ⟨o, l₁, rest, rfl, moved, run⟩ := run
  obtain ⟨m, path₁, path₂, rfl, walk₁, walk₂⟩ := walk_append.mp walk
  obtain ⟨rfl, rfl, rfl, rfl⟩ := moveTo_allowed moved walk₁ may
  exact ⟨rest, path₂, rfl, rfl, Step.runs_ofOutcome_ok.mp run, walk₂⟩

end

/-- What is heard of attempts to ask the model that failed. -/
inductive Asked (messages : List Message) (tools : List ToolDefinition) (key : String) :
    List Heard → Prop where
  | nil : Asked messages tools key []
  | again (e : ModelError) {d : Decision} (retried : d.remedy = .retry) {l : List Heard}
      (rest : Asked messages tools key l) :
      Asked messages tools key
        (⟨.chat messages tools, .failed e⟩ :: ⟨.decide e.toFault key, d⟩ :: l)

/-- How asking the model ends: cancelled, with the fault of the last attempt, or with a reply. A failed
attempt is the last one unless a retry is decided, and of those no more are heeded than are allowed. -/
inductive Queried (messages : List Message) (tools : List ToolDefinition) (key : String) (retries : Nat) :
    List Heard → Option (Outcome Reply) → Prop where
  | cancelled {l : List Heard} (asked : Asked messages tools key l) :
      Queried messages tools key retries (l ++ [⟨.chat messages tools, .cancelled⟩, ⟨.abort, ()⟩]) none
  | failed {l : List Heard} (e : ModelError) (d : Decision) (asked : Asked messages tools key l)
      (heeded : d.remedy = .retry → l.length = 2 * retries) :
      Queried messages tools key retries
        (l ++ [⟨.chat messages tools, .failed e⟩, ⟨.decide e.toFault key, d⟩])
        (some (.error e.toFault))
  | replied {l : List Heard} (r : Reply) (asked : Asked messages tools key l) :
      Queried messages tools key retries (l ++ [⟨.chat messages tools, .reply r⟩, ⟨.forgive key, ()⟩])
        (some (.ok r))

section

variable {messages : List Message} {tools : List ToolDefinition} {key : String} {retries : Nat}
  {l : List Heard}

theorem trace_request {o : Option (Except Failure Reply)}
    (run : Act.Trace (request messages tools).run l o) :
    (∃ r, l = [⟨.chat messages tools, .reply r⟩] ∧ o = some (.ok r)) ∨
    (∃ e, l = [⟨.chat messages tools, .failed e⟩] ∧ o = some (.error (.of (.model e)))) ∨
    (l = [⟨.chat messages tools, .cancelled⟩, ⟨.abort, ()⟩] ∧ o = none) := by
  change Act.Trace (Act.chat messages tools >>= _) l o at run
  obtain ⟨e, _, l₂, rfl, asked, rest⟩ := Act.trace_bind.mp run
  obtain rfl := Act.trace_chat.mp asked
  cases e with
  | reply r =>
    obtain ⟨rfl, rfl⟩ := Act.trace_pure.mp rest
    exact Or.inl ⟨r, rfl, rfl⟩
  | failed e =>
    obtain ⟨rfl, rfl⟩ := Act.trace_pure.mp rest
    exact Or.inr (Or.inl ⟨e, rfl, rfl⟩)
  | cancelled =>
    simp only [Act.trace_bind, Act.trace_abort, Act.trace_pure] at rest
    obtain ⟨_, _, _, rfl, rfl, rfl, rfl⟩ := rest
    exact Or.inr (Or.inr ⟨rfl, rfl⟩)

theorem trace_lift_bind {p : Act α} {f : α → OptionT Act β} {o : Option β} :
    Act.Trace (OptionT.lift p >>= f).run l o ↔
      ∃ a l₁ l₂, l = l₁ ++ l₂ ∧ Act.Trace p l₁ a ∧ Act.Trace (f a).run l₂ o := by
  have same : (OptionT.lift p >>= f).run = p >>= fun a => (f a).run := by
    simp [OptionT.run_bind, Option.elimM]
  rw [same, Act.trace_bind]

/-- One attempt ends the asking, or fails and is followed by what is decided. -/
theorem trace_attempt {again : Fault → Decision → OptionT Act (Outcome Reply)}
    {o : Option (Outcome Reply)}
    (run : Act.Trace (attemptOnce (request messages tools)
      (fun fault => OptionT.lift (Act.decide fault key)) (OptionT.lift (Act.forgive key)) .llm
      again).run l o) :
    Queried messages tools key retries l o ∨
      ∃ e d rest, l = ⟨.chat messages tools, .failed e⟩ :: ⟨.decide e.toFault key, d⟩ :: rest ∧
        Act.Trace (again e.toFault d).run rest o := by
  rw [attemptOnce, OptionT.run_bind, Option.elimM, Act.trace_bind] at run
  obtain ⟨answer, l₁, l₂, rfl, asked, rest⟩ := run
  rcases trace_request asked with ⟨r, rfl, rfl⟩ | ⟨e, rfl, rfl⟩ | ⟨rfl, rfl⟩
  · obtain ⟨_, _, l₂, rfl, forgiven, ending⟩ := trace_lift_bind.mp rest
    obtain rfl := Act.trace_forgive.mp forgiven
    obtain ⟨rfl, rfl⟩ := Act.trace_pure.mp ending
    exact Or.inl (.replied r .nil)
  · obtain ⟨d, _, l₂, rfl, decided, onward⟩ := trace_lift_bind.mp rest
    obtain rfl := Act.trace_decide.mp decided
    exact Or.inr ⟨e, d, l₂, rfl, onward⟩
  · obtain ⟨rfl, rfl⟩ := Act.trace_pure.mp rest
    exact Or.inl (.cancelled .nil)

theorem Asked.aside (asked : Asked messages tools key l) : l.all Heard.aside = true := by
  induction asked with
  | nil => rfl
  | again e _ _ ih => simpa [Heard.aside] using ih

theorem Queried.aside {o : Option (Outcome Reply)} (queried : Queried messages tools key retries l o) :
    l.all Heard.aside = true := by
  cases queried with
  | cancelled asked => simp [asked.aside, Heard.aside]
  | failed e d asked _ => simp [asked.aside, Heard.aside]
  | replied r asked => simp [asked.aside, Heard.aside]

theorem Queried.again {o : Option (Outcome Reply)} (e : ModelError) {d : Decision}
    (retried : d.remedy = .retry) (queried : Queried messages tools key retries l o) :
    Queried messages tools key (retries + 1)
      (⟨.chat messages tools, .failed e⟩ :: ⟨.decide e.toFault key, d⟩ :: l) o := by
  cases queried with
  | cancelled asked => exact .cancelled (.again e retried asked)
  | failed last decision asked heeded =>
    refine .failed last decision (.again e retried asked) fun again => ?_
    simp only [List.length_cons, heeded again]
    omega
  | replied r asked => exact .replied r (.again e retried asked)

theorem trace_queryModel {a : Agent} {o : Option (Outcome Reply)}
    (run : Act.Trace (queryModel a key messages) l o) :
    Queried messages a.registry.definitions key a.maxRetries l o := by
  unfold queryModel at run
  generalize a.maxRetries = n at run
  induction n generalizing l with
  | zero =>
    rcases trace_attempt run with queried | ⟨e, d, rest, rfl, ended⟩
    · exact queried
    · obtain ⟨rfl, rfl⟩ := Act.trace_pure.mp ended
      exact .failed e d .nil fun _ => rfl
  | succ n ih =>
    rcases trace_attempt run with queried | ⟨e, d, rest, rfl, decided⟩
    · exact queried
    · split at decided
      · rename_i retried
        exact .again e retried (ih decided)
      · rename_i other
        obtain ⟨rfl, rfl⟩ := Act.trace_pure.mp decided
        exact .failed e d .nil fun again => absurd again other

theorem trace_system {text : String} (run : Act.Trace (Prompt.system tools) l text) :
    ∃ answer, l = [⟨.index .files, answer⟩] := by
  rw [Prompt.system, Act.trace_bind] at run
  obtain ⟨answer, _, l₂, rfl, asked, rest⟩ := run
  obtain rfl := Act.trace_index.mp asked
  cases answer with
  | ok files =>
    obtain ⟨rfl, -⟩ := Act.trace_pure.mp rest
    exact ⟨.ok files, rfl⟩
  | error f =>
    obtain ⟨rfl, -⟩ := Act.trace_pure.mp rest
    exact ⟨.error f, rfl⟩

theorem trace_persist {s after : Session} {o : Outcome Unit}
    (run : Act.Trace s.persist l (o, after)) :
    ∃ t, after = s.touch t ∧ l = [⟨.now, t⟩, ⟨.sessions (.save after), o⟩] := by
  simp only [Session.persist, Act.trace_bind, Act.trace_now] at run
  obtain ⟨t, _, _, rfl, rfl, saved, l₁, _, rfl, asked, rest⟩ := run
  obtain ⟨rfl, same⟩ := Act.trace_pure.mp rest
  obtain ⟨rfl, rfl⟩ := Prod.mk.inj same
  obtain rfl := Act.trace_sessions.mp asked
  exact ⟨t, rfl, rfl⟩

end

end CodeAgent.Turn
