import CodeAgent.Proofs.Turn.Step

/-! Turns as derivations.
Every run of a turn is built from its rounds and every round from its calls, with what was heard in
each and what it made of the session. The loop moves the machine only where it may be moved. -/
namespace CodeAgent.Turn

open TurnState

def resultOf (call : ToolCall) (outcome : Except String ToolOutput) : ToolResult :=
  ⟨call.id, call.name, outcome, 0⟩

namespace Effect

/-- Only a result that succeeded means more than its message. -/
def ofOutcome (arguments : Json) (outcome : Except String ToolOutput) (s : Session) : Session :=
  match outcome with
  | .ok output => ofOutput arguments output s
  | .error _ => s

/-- What a call that was run means for the session when its result is put to it. -/
def ofResult (a : Agent) (call : ToolCall) (outcome : Except String ToolOutput) (denied : Bool)
    (t : Int) (s : Session) : Session :=
  let s := (ofOutcome call.arguments outcome (ofCall s)).addMessage
    (.result call.id (resultOf call outcome).content !(resultOf call outcome).success) t
  if denied && isEdit a call.name then ofRejectedEdit s else s

end Effect

section

variable (a : Agent)

/-- A call that is run to its end, and whether approval was denied in it. -/
inductive CallRun (call : ToolCall) (s : Session) : List Heard → Bool → Session → Prop where
  | intro {raw seg : List Heard} {outcome : Except String ToolOutput} {b : TurnState} (t : Int)
      (executed : Act.Trace (a.registry.execute Act.confirm call.name call.arguments) raw outcome)
      (ran : Act.Trace (gated (a.registry.execute Act.confirm call.name call.arguments)) seg
        (outcome, raw.any Heard.denial))
      (gate : Gated toolCall raw seg b) :
      CallRun call s
        (seg ++ [.told (.finished call.name (resultOf call outcome).success), ⟨.now, t⟩])
        (raw.any Heard.denial) (Effect.ofResult a call outcome (raw.any Heard.denial) t s)

/-- Calls one after the other, how many of them are run, and why the turn ends with them. -/
inductive CallsRun :
    List ToolCall → Session → List Heard → Nat → Option TurnStatus → Session → Prop where
  | none (s : Session) : CallsRun [] s [] 0 none s
  | unstarted (call : ToolCall) (later : List ToolCall) (s : Session) :
      CallsRun (call :: later) s [.told (.started call.name call.arguments), .polled true] 0
        (some .interrupted) s
  | denied {call : ToolCall} {s after : Session} {l : List Heard} (later : List ToolCall)
      (ran : CallRun a call s l true after) :
      CallsRun (call :: later) s (.told (.started call.name call.arguments) :: .polled false :: l) 1
        (some .rejected) after
  | stopped {call : ToolCall} {s after : Session} {l : List Heard} (later : List ToolCall)
      (ran : CallRun a call s l false after) :
      CallsRun (call :: later) s
        (.told (.started call.name call.arguments) :: .polled false :: (l ++ [.polled true])) 1
        (some .interrupted) after
  | next {call : ToolCall} {later : List ToolCall} {s m after : Session} {l rest : List Heard}
      {n : Nat} {status : Option TurnStatus} (ran : CallRun a call s l false m)
      (onward : CallsRun later m rest n status after) :
      CallsRun (call :: later) s
        (.told (.started call.name call.arguments) :: .polled false :: (l ++ .polled false :: rest))
        (n + 1) status after

/-- What is heard when the machine is moved and it is told. -/
def movedTo (next : TurnState) : List Heard := [.moved next, .told (.moved next)]

/-- What is heard when a text is told beside the calls. -/
def besidesTold (r : Reply) : List Heard := if r.content.isEmpty then [] else [.told (.response r.content)]

def besidesTally (tally : TurnTally) (r : Reply) : TurnTally :=
  if r.content.isEmpty then tally else { tally with response := r.content }

def countTokens (tally : TurnTally) (r : Reply) : TurnTally :=
  { tally with tokens := tally.tokens + r.tokens }

def countCalls (tally : TurnTally) (n : Nat) : TurnTally :=
  { tally with toolCalls := tally.toolCalls + n }

/-- What is heard of a round whose calls do not end the turn. -/
def roundHeard (asked : List Heard) (t : Int) (r : Reply) (calls : List Heard) : List Heard :=
  .polled false :: asked ++ ⟨.now, t⟩ :: besidesTold r ++ movedTo toolCall ++ calls

/-- Rounds up to the end of the turn, and where the machine is then. -/
inductive RoundsRun (system : Message) (key : String) :
    TurnTally → Nat → Nat → Session → List Heard → Outcome TurnReport → Session → TurnState → Prop
  where
  | interrupted (tally : TurnTally) (done left : Nat) (s : Session) :
      RoundsRun system key tally done left s [.polled true] (.ok (tally.report .interrupted)) s thinking
  | abandoned (tally : TurnTally) (done left : Nat) (s : Session) {l : List Heard}
      (asked : Queried (system :: s.messages) a.registry.definitions key a.maxRetries l none) :
      RoundsRun system key tally done left s (.polled false :: l) (.ok (tally.report .interrupted)) s
        thinking
  | failed (tally : TurnTally) (done left : Nat) (s : Session) {l : List Heard} {f : Fault}
      (asked : Queried (system :: s.messages) a.registry.definitions key a.maxRetries l (some (.error f))) :
      RoundsRun system key tally done left s (.polled false :: l) (.error f) s thinking
  | answered (tally : TurnTally) (done left : Nat) (s : Session) {l : List Heard} {r : Reply} (t : Int)
      (asked : Queried (system :: s.messages) a.registry.definitions key a.maxRetries l (some (.ok r)))
      (final : r.hasCalls = false) :
      RoundsRun system key tally done left s
        (.polled false :: l ++ ⟨.now, t⟩ :: .told (.response r.content) :: movedTo ready)
        (.ok ({ countTokens tally r with response := r.content }.report .completed))
        ((Effect.ofReply r a.contextWindow s).addMessage (.assistant r.content) t) ready
  | ended (tally : TurnTally) (done left : Nat) (s : Session) {l calls : List Heard} {r : Reply}
      {n : Nat} {status : TurnStatus} {after : Session} (t : Int)
      (asked : Queried (system :: s.messages) a.registry.definitions key a.maxRetries l (some (.ok r)))
      (calling : r.hasCalls = true)
      (ran : CallsRun a r.calls
        ((Effect.ofReply r a.contextWindow s).addMessage (.calling r.content r.calls) t) calls n
        (some status) after) :
      RoundsRun system key tally done left s
        (roundHeard l t r calls)
        (.ok ((countCalls (besidesTally (countTokens tally r) r) n).report status)) after
        (if status = .rejected then ready else toolCall)
  | limit (tally : TurnTally) (done : Nat) (s : Session) {l calls : List Heard} {r : Reply}
      {n : Nat} {after : Session} (t t' : Int)
      (asked : Queried (system :: s.messages) a.registry.definitions key a.maxRetries l (some (.ok r)))
      (calling : r.hasCalls = true)
      (ran : CallsRun a r.calls
        ((Effect.ofReply r a.contextWindow s).addMessage (.calling r.content r.calls) t) calls n
        none after) :
      RoundsRun system key tally done 0 s
        (roundHeard l t r calls ++ movedTo thinking ++ ⟨.now, t'⟩ :: movedTo ready)
        (.ok ({ countCalls (besidesTally (countTokens tally r) r) n with
          response := limitNote (done + 1) }.report .roundLimit))
        (after.addMessage (.assistant (limitNote (done + 1))) t') ready
  | next (tally : TurnTally) (done left : Nat) (s : Session) {l calls rest : List Heard} {r : Reply}
      {n : Nat} {m after : Session} {o : Outcome TurnReport} {b : TurnState} (t : Int)
      (asked : Queried (system :: s.messages) a.registry.definitions key a.maxRetries l (some (.ok r)))
      (calling : r.hasCalls = true)
      (ran : CallsRun a r.calls
        ((Effect.ofReply r a.contextWindow s).addMessage (.calling r.content r.calls) t) calls n
        none m)
      (onward : RoundsRun system key (countCalls (besidesTally (countTokens tally r) r) n) (done + 1)
        left m rest o after b) :
      RoundsRun system key tally done (left + 1) s
        (roundHeard l t r calls ++ movedTo thinking ++ rest) o after b

/-- What is heard before the rounds. -/
def opening (key : String) (t : Int) (listed : Outcome (List FileRecord)) : List Heard :=
  [⟨.turn .state, ready⟩, ⟨.forgive key, ()⟩, ⟨.now, t⟩, ⟨.index .files, listed⟩] ++ movedTo thinking

/-- What is heard when the machine is brought back to ready. -/
def homecoming (b : TurnState) : List Heard :=
  if b = ready then [⟨.turn .settle, false⟩] else [⟨.turn .settle, true⟩, .told (.moved ready)]

/-- What is heard from the machine after the rounds have left it in a state. -/
def closing : Outcome TurnReport → TurnState → List Heard
  | .error _, _ => movedTo error ++ homecoming error
  | .ok _, b => homecoming b

/-- The session when the rounds begin. -/
def opened (s : Session) (input : String) (t : Int) : Session :=
  (s.addInput input).addMessage (.user input) t

/-- The session that is saved when the rounds have ended. -/
def closed (mark : Nat) (o : Outcome TurnReport) (s : Session) (t : Int) : Session :=
  (if keepsMessages o then s else rollBack mark s).touch t

def savedOutcome (o : Outcome TurnReport) : Outcome Unit → Outcome TurnReport
  | .ok () => o
  | .error f => .error f

/-- A turn is refused, or runs from its opening to the saving of the session. -/
inductive TurnRun (s : Session) (input : String) :
    TurnState → List Heard → Outcome TurnReport → Session → Prop where
  | refused {start : TurnState} (notReady : start ≠ ready) :
      TurnRun s input start [⟨.turn .state, start⟩] (.error busy) s
  | ran {l : List Heard} {o : Outcome TurnReport} {m : Session} {b : TurnState} (text : String)
      (t t' : Int) (listed : Outcome (List FileRecord)) (saved : Outcome Unit)
      (rounds : RoundsRun a (.system text) (retryKey s.id) .zero 0 (a.maxRounds - 1)
        (opened s input t) l o m b) :
      TurnRun s input ready
        (opening (retryKey s.id) t listed ++ l ++ closing o b ++
          [⟨.now, t'⟩, ⟨.sessions (.save (closed s.history.length o m t')), saved⟩])
        (savedOutcome o saved) (closed s.history.length o m t')

end

section

variable {a : Agent} {s after : Session} {l : List Heard} {path : List TurnState} {b : TurnState}

theorem runs_putResult {m : Message} {rejected denied : Bool} {r : Outcome Bool}
    (run : Step.Runs (do
      addMessage m
      if rejected then modify Effect.ofRejectedEdit
      return denied) s l r after) :
    ∃ t, l = [⟨.now, t⟩] ∧ r = .ok denied ∧
      after = if rejected then Effect.ofRejectedEdit (s.addMessage m t) else s.addMessage m t := by
  obtain ⟨t, rest, rfl, ending⟩ := runs_addMessage_bind.mp run
  cases rejected with
  | true =>
    rw [if_pos rfl, Step.runs_modify_bind] at ending
    obtain ⟨rfl, rfl, rfl⟩ := Step.runs_pure.mp ending
    exact ⟨t, rfl, rfl, rfl⟩
  | false =>
    rw [if_neg Bool.false_ne_true] at ending
    obtain ⟨rfl, rfl, rfl⟩ := Step.runs_pure.mp ending
    exact ⟨t, rfl, rfl, rfl⟩

/-- Every run of a call is such a derivation. -/
theorem runs_runCall {call : ToolCall} {r : Outcome Bool} (contained : a.registry.Contained)
    (run : Step.Runs (runCall a call) s l r after) (walk : Walk toolCall l path b) :
    ∃ denied, r = .ok denied ∧ CallRun a call s l denied after ∧ path = announced l ∧
      b = if denied then ready else toolCall := by
  unfold runCall at run
  obtain ⟨⟨outcome, denied⟩, seg, _, rfl, ran, run₁⟩ := Step.runs_lift_bind.mp run
  rw [Step.runs_modify_bind] at run₁
  obtain ⟨_, _, l₂, rfl, told, run₂⟩ := Step.runs_lift_bind.mp run₁
  obtain rfl := Act.trace_tell.mp told
  obtain ⟨m, path₁, path₂, rfl, walk₁, walk₂⟩ := walk_append.mp walk
  obtain ⟨raw, executed, gate, rfl, rfl⟩ :=
    trace_gated ran (contained.within_execute _ _) walk₁ (Or.inl rfl)
  obtain rfl := gate.ends rfl
  have ended : ∃ t, l₂ = [⟨.now, t⟩] ∧ r = .ok (raw.any Heard.denial) ∧
      after = Effect.ofResult a call outcome (raw.any Heard.denial) t s := by
    cases outcome with
    | ok output => exact runs_putResult (Step.runs_modify_bind.mp run₂)
    | error why => exact runs_putResult run₂
  obtain ⟨t, rfl, rfl, rfl⟩ := ended
  obtain ⟨rfl, silent, rfl⟩ := (walk_aside rfl).mp walk₂
  exact ⟨_, rfl, .intro t executed ran gate, (announced_append ..).symm, rfl⟩

theorem runs_runCalls {calls : List ToolCall} {tally : TurnTally}
    {r : Outcome (TurnTally × Option TurnStatus)} (contained : a.registry.Contained)
    (run : Step.Runs (runCalls a tally calls) s l r after) (walk : Walk toolCall l path b) :
    ∃ n status, r = .ok (countCalls tally n, status) ∧ CallsRun a calls s l n status after ∧
      path = announced l ∧ b = if status = some .rejected then ready else toolCall := by
  induction calls generalizing s l path tally with
  | nil =>
    obtain ⟨rfl, rfl, rfl⟩ := Step.runs_pure.mp run
    obtain ⟨rfl, rfl⟩ := walk_nil.mp walk
    exact ⟨0, none, rfl, .none _, rfl, rfl⟩
  | cons call later ih =>
    unfold runCalls at run
    obtain ⟨_, _, l₁, rfl, told, run₁⟩ := Step.runs_lift_bind.mp run
    obtain rfl := Act.trace_tell.mp told
    obtain ⟨stop, _, l₂, rfl, polled, run₂⟩ := Step.runs_lift_bind.mp run₁
    obtain rfl := Act.trace_cancelled.mp polled
    have walk₂ : Walk toolCall l₂ path b := walk_past (walk_past walk rfl) rfl
    cases stop with
    | true =>
      obtain ⟨rfl, rfl, rfl⟩ := Step.runs_pure.mp run₂
      obtain ⟨rfl, rfl⟩ := walk_nil.mp walk₂
      exact ⟨0, some .interrupted, rfl, .unstarted .., rfl, rfl⟩
    | false =>
      rw [if_neg Bool.false_ne_true] at run₂
      rcases Step.runs_bind.mp run₂ with ⟨e, wrong, -⟩ | ⟨denied, m, seg, l₃, rfl, ran, run₃⟩
      · obtain ⟨_, same, -⟩ := runs_runCall contained wrong walk₂
        cases same
      · obtain ⟨c, path₃, path₄, rfl, walk₃, walk₄⟩ := walk_append.mp walk₂
        obtain ⟨_, same, called, rfl, rfl⟩ := runs_runCall contained ran walk₃
        cases same
        cases denied with
        | true =>
          rw [if_pos rfl] at run₃
          obtain ⟨rfl, rfl, rfl⟩ := Step.runs_pure.mp run₃
          obtain ⟨rfl, rfl⟩ := walk_nil.mp walk₄
          refine ⟨1, some .rejected, rfl, ?_, ?_, rfl⟩
          · simpa using CallsRun.denied later called
          · simp [Heard.announced?]
        | false =>
          rw [if_neg Bool.false_ne_true] at run₃
          obtain ⟨stop, _, l₄, rfl, polled, run₄⟩ := Step.runs_lift_bind.mp run₃
          obtain rfl := Act.trace_cancelled.mp polled
          have walk₆ : Walk toolCall l₄ path₄ b := walk_past walk₄ rfl
          cases stop with
          | true =>
            obtain ⟨rfl, rfl, rfl⟩ := Step.runs_pure.mp run₄
            obtain ⟨rfl, rfl⟩ := walk_nil.mp walk₆
            refine ⟨1, some .interrupted, rfl, ?_, ?_, rfl⟩
            · simpa using CallsRun.stopped later called
            · simp [Heard.announced?]
          | false =>
            rw [if_neg Bool.false_ne_true] at run₄
            obtain ⟨n, status, rfl, onward, rfl, rfl⟩ := ih run₄ walk₆
            refine ⟨n + 1, status, ?_, ?_, ?_, rfl⟩
            · simp [countCalls, Nat.add_assoc, Nat.add_comm 1]
            · simpa using CallsRun.next called onward
            · simp [Heard.announced?]

theorem runs_answer {tally : TurnTally} {content : String} {r : Outcome TurnReport}
    (run : Step.Runs (answer tally content) s l r after) (walk : Walk thinking l path b) :
    ∃ t, l = ⟨.now, t⟩ :: .told (.response content) :: movedTo ready ∧
      r = .ok ({ tally with response := content }.report .completed) ∧
      after = s.addMessage (.assistant content) t ∧ path = announced l ∧ b = ready := by
  unfold answer at run
  obtain ⟨t, _, rfl, run₁⟩ := runs_addMessage_bind.mp run
  obtain ⟨_, _, l₂, rfl, told, run₂⟩ := Step.runs_lift_bind.mp run₁
  obtain rfl := Act.trace_tell.mp told
  obtain ⟨rest, path₂, rfl, rfl, run₃, walk₃⟩ :=
    runs_enter_bind run₂ (walk_past (walk_past walk rfl) rfl) rfl
  obtain ⟨rfl, rfl, rfl⟩ := Step.runs_pure.mp run₃
  obtain ⟨rfl, rfl⟩ := walk_nil.mp walk₃
  exact ⟨t, rfl, rfl, rfl, rfl, rfl⟩

theorem runs_exhausted {tally : TurnTally} {done : Nat} {r : Outcome TurnReport}
    (run : Step.Runs (exhausted done tally) s l r after) (walk : Walk thinking l path b) :
    ∃ t, l = ⟨.now, t⟩ :: movedTo ready ∧
      r = .ok ({ tally with response := limitNote done }.report .roundLimit) ∧
      after = s.addMessage (.assistant (limitNote done)) t ∧ path = announced l ∧ b = ready := by
  unfold exhausted at run
  obtain ⟨t, _, rfl, run₁⟩ := runs_addMessage_bind.mp run
  obtain ⟨rest, path₂, rfl, rfl, run₂, walk₂⟩ := runs_enter_bind run₁ (walk_past walk rfl) rfl
  obtain ⟨rfl, rfl, rfl⟩ := Step.runs_pure.mp run₂
  obtain ⟨rfl, rfl⟩ := walk_nil.mp walk₂
  exact ⟨t, rfl, rfl, rfl, rfl, rfl⟩

theorem runs_besides {tally : TurnTally} {r : Reply} {o : Outcome TurnTally}
    (run : Step.Runs (besides tally r) s l o after) :
    ∃ t, l = ⟨.now, t⟩ :: besidesTold r ∧ o = .ok (besidesTally tally r) ∧
      after = s.addMessage (.calling r.content r.calls) t := by
  unfold besides at run
  obtain ⟨t, rest, rfl, run₁⟩ := runs_addMessage_bind.mp run
  split at run₁
  · rename_i empty
    obtain ⟨rfl, rfl, rfl⟩ := Step.runs_pure.mp run₁
    exact ⟨t, by simp [besidesTold, empty], by simp [besidesTally, empty], rfl⟩
  · rename_i spoken
    obtain ⟨_, _, l₂, rfl, told, run₂⟩ := Step.runs_lift_bind.mp run₁
    obtain rfl := Act.trace_tell.mp told
    obtain ⟨rfl, rfl, rfl⟩ := Step.runs_pure.mp run₂
    exact ⟨t, by simp [besidesTold, spoken], by simp [besidesTally, spoken], rfl⟩

theorem besidesTold_aside (r : Reply) : (besidesTold r).all Heard.aside = true := by
  unfold besidesTold
  split <;> rfl

/-- A round ends the turn, or it is heard whole and the turn goes on as it is told to. -/
theorem runs_round {system : Message} {key : String} {tally : TurnTally}
    {further : TurnTally → Step TurnReport} {o : Outcome TurnReport} (done left : Nat)
    (contained : a.registry.Contained)
    (run : Step.Runs (round a system key tally further) s l o after) (walk : Walk thinking l path b) :
    (RoundsRun a system key tally done left s l o after b ∧ path = announced l) ∨
    ∃ asked r t calls n m rest path',
      Queried (system :: s.messages) a.registry.definitions key a.maxRetries asked (some (.ok r)) ∧
      r.hasCalls = true ∧
      CallsRun a r.calls
        ((Effect.ofReply r a.contextWindow s).addMessage (.calling r.content r.calls) t) calls n
        none m ∧
      l = roundHeard asked t r calls ++ movedTo thinking ++ rest ∧
      Step.Runs (further (countCalls (besidesTally (countTokens tally r) r) n)) m rest o after ∧
      Walk thinking rest path' b ∧
      path = announced (roundHeard asked t r calls ++ movedTo thinking) ++ path' := by
  unfold round at run
  obtain ⟨stop, _, l₁, rfl, polled, run₁⟩ := Step.runs_lift_bind.mp run
  obtain rfl := Act.trace_cancelled.mp polled
  cases stop with
  | true =>
    obtain ⟨rfl, rfl, rfl⟩ := Step.runs_pure.mp run₁
    obtain ⟨rfl, rfl⟩ := walk_nil.mp (walk_past walk rfl)
    exact Or.inl ⟨.interrupted .., rfl⟩
  | false =>
    rw [if_neg Bool.false_ne_true, Step.runs_get_bind] at run₁
    obtain ⟨answer, asked, l₂, rfl, query, run₂⟩ := Step.runs_lift_bind.mp run₁
    have queried := trace_queryModel query
    have walk₁ : Walk thinking (asked ++ l₂) path b := walk_past walk rfl
    obtain ⟨silent, walk₂⟩ := walk_beyond walk₁ queried.aside
    rcases answer with _ | f | r
    · obtain ⟨rfl, rfl, rfl⟩ := Step.runs_pure.mp run₂
      obtain ⟨rfl, rfl⟩ := walk_nil.mp walk₂
      exact Or.inl ⟨by simpa using RoundsRun.abandoned tally done left _ queried,
        by simp [silent, Heard.announced?]⟩
    · obtain ⟨rfl, rfl, rfl⟩ := Step.runs_ofOutcome_error.mp run₂
      obtain ⟨rfl, rfl⟩ := walk_nil.mp walk₂
      exact Or.inl ⟨by simpa using RoundsRun.failed tally done left _ queried,
        by simp [silent, Heard.announced?]⟩
    · have run₃ := Step.runs_modify_bind.mp (Step.runs_ofOutcome_ok.mp run₂)
      split at run₃
      · rename_i final
        obtain ⟨t, rfl, rfl, rfl, rfl, rfl⟩ := runs_answer run₃ walk₂
        refine Or.inl ⟨?_, by simp [silent, Heard.announced?]⟩
        exact RoundsRun.answered tally done left s t queried (by simpa using final)
      · rename_i calling
        rcases Step.runs_bind.mp run₃ with ⟨e, wrong, -⟩ | ⟨_, _, _, l₃, rfl, spoken, run₄⟩
        · obtain ⟨_, -, same, -⟩ := runs_besides wrong
          cases same
        · obtain ⟨t, rfl, same, rfl⟩ := runs_besides spoken
          cases same
          have walk₃ : Walk thinking (besidesTold r ++ l₃) path b := walk_past walk₂ rfl
          obtain ⟨silent₃, walk₃⟩ := walk_beyond walk₃ (besidesTold_aside r)
          obtain ⟨l₄, path₄, rfl, rfl, run₅, walk₄⟩ := runs_enter_bind run₄ walk₃ rfl
          rcases Step.runs_bind.mp run₅ with ⟨e, wrong, -⟩ | ⟨_, m, calls, l₅, rfl, called, run₆⟩
          · obtain ⟨_, _, same, -⟩ := runs_runCalls contained wrong walk₄
            cases same
          · obtain ⟨c, path₅, path₆, rfl, walk₅, walk₆⟩ := walk_append.mp walk₄
            obtain ⟨n, status, same, ran, rfl, rfl⟩ := runs_runCalls contained called walk₅
            cases same
            cases status with
            | some status =>
              obtain ⟨rfl, rfl, rfl⟩ := Step.runs_pure.mp run₆
              obtain ⟨rfl, rfl⟩ := walk_nil.mp walk₆
              refine Or.inl ⟨?_, by simp [silent, silent₃, Heard.announced?]⟩
              have whole := RoundsRun.ended tally done left s t queried (by simpa using calling) ran
              simp only [Option.some.injEq]
              convert whole using 1
              · simp [roundHeard, movedTo]
              · rfl
            | none =>
              obtain ⟨rest, path₇, rfl, rfl, run₇, walk₇⟩ := runs_enter_bind run₆ walk₆ rfl
              refine Or.inr ⟨asked, r, t, calls, n, m, rest, path₇, queried, by simpa using calling, ran,
                ?_, run₇, walk₇, ?_⟩
              · simp [roundHeard, movedTo]
              · simp [roundHeard, movedTo, silent, silent₃, Heard.announced?]

theorem runs_rounds {system : Message} {key : String} {tally : TurnTally} {done left : Nat}
    {o : Outcome TurnReport} (contained : a.registry.Contained)
    (run : Step.Runs (rounds a system key tally done left) s l o after)
    (walk : Walk thinking l path b) :
    RoundsRun a system key tally done left s l o after b ∧ path = announced l := by
  induction left generalizing tally done s l path with
  | zero =>
    unfold rounds at run
    rcases runs_round done 0 contained run walk with ended |
      ⟨asked, r, t, calls, n, m, rest, path', queried, calling, ran, rfl, run₁, walk₁, rfl⟩
    · exact ended
    · obtain ⟨t', rfl, rfl, rfl, rfl, rfl⟩ := runs_exhausted run₁ walk₁
      exact ⟨.limit tally done s t t' queried calling ran, (announced_append ..).symm⟩
  | succ left ih =>
    unfold rounds at run
    rcases runs_round done (left + 1) contained run walk with ended |
      ⟨asked, r, t, calls, n, m, rest, path', queried, calling, ran, rfl, run₁, walk₁, rfl⟩
    · exact ended
    · obtain ⟨onward, rfl⟩ := ih run₁ walk₁
      exact ⟨.next tally done left s t queried calling ran onward, (announced_append ..).symm⟩

theorem runs_drive {key : String} {o : Outcome TurnReport} (contained : a.registry.Contained)
    (run : Step.Runs (drive a key) s l o after) (walk : Walk ready l path b) :
    ∃ text listed rest, l = ⟨.index .files, listed⟩ :: movedTo thinking ++ rest ∧
      RoundsRun a (.system text) key .zero 0 (a.maxRounds - 1) s rest o after b ∧
      path = announced l := by
  unfold drive at run
  obtain ⟨text, _, l₁, rfl, asked, run₁⟩ := Step.runs_lift_bind.mp run
  obtain ⟨listed, rfl⟩ := trace_system asked
  obtain ⟨rest, path₂, rfl, rfl, run₂, walk₂⟩ := runs_enter_bind run₁ (walk_past walk rfl) rfl
  obtain ⟨derived, rfl⟩ := runs_rounds contained run₂ walk₂
  exact ⟨text, listed, rest, rfl, derived, by simp [Heard.announced?]⟩

/-- Where the rounds end with a fault the machine is still thinking. -/
theorem RoundsRun.thinking_of_error {system : Message} {key : String} {tally : TurnTally}
    {done left : Nat} {f : Fault}
    (derived : RoundsRun a system key tally done left s l (.error f) after b) : b = thinking := by
  generalize same : (Except.error f : Outcome TurnReport) = o at derived
  induction derived with
  | failed => rfl
  | next _ _ _ _ _ _ _ _ _ ih => exact ih same
  | _ => cases same

theorem trace_close {mark : Nat} {o r : Outcome TurnReport} {start : TurnState}
    (run : Act.Trace (close mark o s) l (r, after)) (walk : Walk start l path b) :
    ∃ t saved, r = savedOutcome o saved ∧ after = closed mark o s t ∧ b = ready ∧
      path = announced l ∧
      l = homecoming start ++ [⟨.now, t⟩, ⟨.sessions (.save after), saved⟩] := by
  unfold close at run
  obtain ⟨_, l₁, _, rfl, settled, run₁⟩ := Act.trace_bind.mp run
  obtain ⟨⟨saved, s'⟩, l₂, l₃, rfl, persisted, run₂⟩ := Act.trace_bind.mp run₁
  obtain ⟨t, rfl, rfl⟩ := trace_persist persisted
  have ended : l₃ = [] ∧ r = savedOutcome o saved ∧ after = closed mark o s t := by
    cases saved with
    | ok _ =>
      obtain ⟨rfl, same⟩ := Act.trace_pure.mp run₂
      exact ⟨rfl, (Prod.mk.inj same).1, (Prod.mk.inj same).2⟩
    | error f =>
      obtain ⟨rfl, same⟩ := Act.trace_pure.mp run₂
      exact ⟨rfl, (Prod.mk.inj same).1, (Prod.mk.inj same).2⟩
  obtain ⟨rfl, rfl, rfl⟩ := ended
  obtain ⟨m, path₁, path₂, rfl, walk₁, walk₂⟩ := walk_append.mp walk
  obtain ⟨rfl, rfl, rfl⟩ := settle_walk settled walk₁
  obtain ⟨rfl, -, rfl⟩ := (walk_aside rfl).mp walk₂
  refine ⟨t, saved, rfl, rfl, rfl, ?_, rfl⟩
  split <;> rfl

/-- Every run of a turn is such a derivation, its moves are those it tells of, and it ends ready
unless it was refused. -/
theorem trace_run {input : String} {start : TurnState} {o : Outcome TurnReport}
    (contained : a.registry.Contained) (run : Act.Trace (Turn.run a s input) l (o, after))
    (walk : Walk start l path b) :
    TurnRun a s input start l o after ∧ path = announced l ∧
      b = start := by
  unfold Turn.run at run
  obtain ⟨state, _, l₁, rfl, asked, run₁⟩ := Act.trace_bind.mp run
  obtain rfl := Act.trace_turn.mp asked
  obtain ⟨step, c, path, rfl, hears, walk₁⟩ := walk_cons.mp walk
  have answered : step = [] ∧ start = state ∧ start = c := by
    cases hears with
    | state => exact ⟨rfl, rfl, rfl⟩
    | other _ _ elsewhere => exact absurd ⟨_, rfl⟩ elsewhere
  obtain ⟨rfl, rfl, rfl⟩ := answered
  split at run₁
  · rename_i notReady
    obtain ⟨rfl, same⟩ := Act.trace_pure.mp run₁
    obtain ⟨rfl, rfl⟩ := Prod.mk.inj same
    obtain ⟨rfl, rfl⟩ := walk_nil.mp walk₁
    exact ⟨.refused notReady, rfl, rfl⟩
  · rename_i atReady
    obtain rfl : start = ready := by simpa using atReady
    obtain ⟨_, _, l₂, rfl, forgiven, run₂⟩ := Act.trace_bind.mp run₁
    obtain rfl := Act.trace_forgive.mp forgiven
    obtain ⟨t, _, l₃, rfl, clock, run₃⟩ := Act.trace_bind.mp run₂
    obtain rfl := Act.trace_now.mp clock
    obtain ⟨⟨outcome, m⟩, l₄, l₅, rfl, driven, run₄⟩ := Act.trace_bind.mp run₃
    have walk₂ : Walk ready (l₄ ++ l₅) path b := walk_past (walk_past walk₁ rfl) rfl
    obtain ⟨c, path₁, path₂, rfl, walk₃, walk₄⟩ := walk_append.mp walk₂
    obtain ⟨text, listed, rest, rfl, derived, rfl⟩ := runs_drive contained driven walk₃
    cases outcome with
    | ok report =>
      obtain ⟨t', saved, rfl, rfl, rfl, rfl, rfl⟩ := trace_close run₄ walk₄
      refine ⟨?_, by simp [Heard.announced?], rfl⟩
      convert TurnRun.ran text t t' listed saved derived using 1
      simp [opening, closing]
    | error f =>
      obtain rfl := derived.thinking_of_error
      obtain ⟨moved, l₆, l₇, rfl, entered, run₅⟩ := Act.trace_bind.mp run₄
      obtain ⟨c, path₃, path₄, rfl, walk₅, walk₆⟩ := walk_append.mp walk₄
      obtain ⟨rfl, rfl, rfl, rfl⟩ := moveTo_allowed entered walk₅ rfl
      obtain ⟨t', saved, rfl, rfl, rfl, rfl, rfl⟩ := trace_close run₅ walk₆
      refine ⟨?_, by simp [Heard.announced?], rfl⟩
      convert TurnRun.ran text t t' listed saved derived using 1
      simp [opening, closing, movedTo]

end

end CodeAgent.Turn
