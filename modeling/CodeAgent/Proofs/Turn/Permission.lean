import CodeAgent.Proofs.Turn.Allowance

/-! What a turn with the standard tools may do, along a run.
Nothing is written or run between calls, a call is begun when the turn is not cancelled, and where no
call runs any more only bookkeeping follows. -/
namespace CodeAgent

/-- What neither begins, ends nor endangers a call. -/
def Heard.goesOn (h : Heard) : Bool :=
  h.harmless && match h.mark with
    | .started .. | .finished | .denied => false
    | _ => true

/-- What may be heard between calls. -/
def Heard.plain (h : Heard) : Bool :=
  match h.question with
  | .file (.write ..) | .process _ | .confirm _ | .tell (.started ..) => false
  | _ => true

theorem Heard.plain_of_bookkeeping {h : Heard} (bookkeeping : h.bookkeeping = true) :
    h.plain = true := by
  obtain ⟨q, answer⟩ := h
  cases q with
  | tell e =>
    cases e with
    | started => cases bookkeeping
    | _ => rfl
  | file | process | confirm => cases bookkeeping
  | _ => rfl

theorem Heard.harmless_of_plain {h : Heard} (plain : h.plain = true) : h.harmless = true := by
  obtain ⟨q, answer⟩ := h
  cases q with
  | file c =>
    cases c with
    | write => cases plain
    | _ => rfl
  | process => cases plain
  | _ => rfl

namespace Turn

open TurnState

/-- What may be heard next in a turn. -/
structure Permits (settings : Settings) (before : List Heard) (h : Heard) : Prop where
  idle : phase before = .idle → h.harmless = true
  starting : ∀ tool arguments, phase before = .starting tool arguments → ∃ stop, h = .polled stop
  within : ∀ call, phase before = .within call → call.Permits settings h
  past : phase before = .past → h.bookkeeping = true

section

variable {settings : Settings} {before l : List Heard}

theorem permits_idle {h : Heard} (idle : phase before = .idle) (harmless : h.harmless = true) :
    Permits settings before h := by
  constructor <;> simp [idle, harmless]

theorem permits_starting {tool : String} {arguments : Json} (stop : Bool)
    (opened : phase before = .starting tool arguments) : Permits settings before (.polled stop) := by
  constructor <;> simp [opened]

theorem permits_within {call : Running} {h : Heard} (running : phase before = .within call)
    (permitted : call.Permits settings h) : Permits settings before h := by
  constructor <;> simp [running, permitted]

theorem permits_past {h : Heard} (past : phase before = .past) (bookkeeping : h.bookkeeping = true) :
    Permits settings before h := by
  constructor <;> simp [past, bookkeeping]

theorem hear_idle {h : Heard} (plain : h.plain = true) : Phase.idle.hear h = .idle := by
  obtain ⟨q, answer⟩ := h
  cases q with
  | tell e =>
    cases e with
    | started => cases plain
    | _ => rfl
  | confirm => cases plain
  | _ => rfl

theorem each_plain (idle : phase before = .idle) (plain : l.all Heard.plain = true) :
    Each (Permits settings) before l ∧ phase (before ++ l) = .idle := by
  induction l generalizing before with
  | nil => exact ⟨trivial, by simpa using idle⟩
  | cons h l ih =>
    obtain ⟨here, later⟩ := Bool.and_eq_true_iff.mp (List.all_cons ▸ plain)
    have onward : phase (before ++ [h]) = .idle := by rw [phase_concat, idle, hear_idle here]
    obtain ⟨each, stays⟩ := ih onward later
    exact ⟨⟨permits_idle idle (Heard.harmless_of_plain here), each⟩, by simpa using stays⟩

theorem each_past (past : phase before = .past) (bookkeeping : l.all Heard.bookkeeping = true) :
    Each (Permits settings) before l := by
  induction l generalizing before with
  | nil => trivial
  | cons h l ih =>
    obtain ⟨here, later⟩ := Bool.and_eq_true_iff.mp (List.all_cons ▸ bookkeeping)
    exact ⟨permits_past past here, ih (phase_past_append past [h]) later⟩

theorem each_bookkeeping (ended : phase before = .idle ∨ phase before = .past)
    (bookkeeping : l.all Heard.bookkeeping = true) :
    Each (Permits settings) before l ∧ phase (before ++ l) = phase before := by
  rcases ended with idle | past
  · rw [idle]
    refine each_plain idle (List.all_eq_true.mpr fun h member => ?_)
    exact Heard.plain_of_bookkeeping (List.all_eq_true.mp bookkeeping h member)
  · exact ⟨each_past past bookkeeping, (phase_past_append past l).trans past.symm⟩

/-- What is heard in a call covers what its tool heard. -/
structure Seen (raw heard : List Heard) : Prop where
  approval : ∀ s, .confirmed s true ∈ raw → .confirmed s true ∈ heard
  quiet : ∀ q, (∀ h ∈ q, ¬ h.asksApproval) → q <:+ raw → q <:+ heard

theorem Seen.permits {raw heard : List Heard} {tool : String} {arguments : Json} {h : Heard}
    (seen : Seen raw heard) (permitted : Running.Permits settings ⟨tool, arguments, raw⟩ h) :
    Running.Permits settings ⟨tool, arguments, heard⟩ h where
  write := fun path content asked => by
    obtain ⟨named, approved, ready⟩ := permitted.write path content asked
    refine ⟨named, fun asks => ?_, seen.quiet _ ?_ ready⟩
    · obtain ⟨s, member⟩ := approved asks
      exact ⟨s, seen.approval s member⟩
    · simp [readyToWrite, Heard.asksApproval]
  process := fun p asked same => by
    obtain ⟨command, given, program, argv, allowed | ⟨asks, s, member⟩⟩ := permitted.process p asked same
    · exact ⟨command, given, program, argv, Or.inl allowed⟩
    · exact ⟨command, given, program, argv, Or.inr ⟨asks, s, seen.approval s member⟩⟩

theorem Seen.other {raw heard : List Heard} (seen : Seen raw heard) (h : Heard) :
    Seen (raw ++ [h]) (heard ++ [h]) where
  approval := fun s member => by
    rcases List.mem_append.mp member with earlier | last
    · exact List.mem_append_left _ (seen.approval s earlier)
    · exact List.mem_append_right _ last
  quiet := fun q quiet ends => by
    rcases List.suffix_concat_iff.mp ends with rfl | ⟨q, rfl, earlier⟩
    · exact List.nil_suffix
    · have covered := seen.quiet q (fun x member => quiet x (List.mem_append_left _ member)) earlier
      exact List.suffix_concat_iff.mpr (Or.inr ⟨q, rfl, covered⟩)

theorem Seen.confirmed {raw heard : List Heard} (seen : Seen raw heard) (s : String) (approved : Bool)
    {around : List Heard} (member : .confirmed s approved ∈ around) :
    Seen (raw ++ [.confirmed s approved]) (heard ++ around) where
  approval := fun s' asked => by
    rcases List.mem_append.mp asked with earlier | last
    · exact List.mem_append_left _ (seen.approval s' earlier)
    · rw [List.mem_singleton.mp last]
      exact List.mem_append_right _ member
  quiet := fun q quiet ends => by
    rcases List.suffix_concat_iff.mp ends with rfl | ⟨q, rfl, -⟩
    · exact List.nil_suffix
    · exact absurd ⟨s, rfl⟩ (quiet (.confirmed s approved) (by simp))

theorem hear_within_ofTool (call : Running) {h : Heard} (tool : h.question.ofTool)
    (quiet : ¬ h.asksApproval) :
    (Phase.within call).hear h = .within { call with heard := call.heard ++ [h] } := by
  obtain ⟨q, answer⟩ := h
  cases q with
  | confirm s => exact absurd ⟨s, rfl⟩ quiet
  | index | file | cancelled | process | now | newId | progress => rfl
  | _ => exact tool.elim

theorem hear_within_goesOn (call : Running) {h : Heard} (onward : h.goesOn = true) :
    (Phase.within call).hear h = .within { call with heard := call.heard ++ [h] } := by
  simp only [Heard.goesOn, Bool.and_eq_true] at onward
  cases mark : h.mark <;> simp_all [Phase.hear]

/-- A call goes on until it ends or approval is denied in it. -/
theorem each_goesOn {call : Running} (running : phase before = .within call)
    (onward : l.all Heard.goesOn = true) :
    Each (Permits settings) before l ∧
      phase (before ++ l) = .within { call with heard := call.heard ++ l } := by
  induction l generalizing before call with
  | nil => exact ⟨trivial, by simpa using running⟩
  | cons h l ih =>
    obtain ⟨here, later⟩ := (by simpa using onward : h.goesOn = true ∧ ∀ x ∈ l, x.goesOn = true)
    have harmless : h.harmless = true := (Bool.and_eq_true_iff.mp here).1
    have running₂ : phase (before ++ [h]) = .within { call with heard := call.heard ++ [h] } := by
      rw [phase_concat, running, hear_within_goesOn call here]
    obtain ⟨each, stays⟩ := ih running₂ (by simpa using later)
    exact ⟨⟨permits_within running (permits_of_harmless harmless), each⟩, by simpa using stays⟩

theorem each_denial {call : Running} (s : String) (running : phase before = .within call) :
    Each (Permits settings) before
      [.moved awaitingConfirmation, .told (.moved awaitingConfirmation), .confirmed s false,
        .moved ready, .told (.moved ready)] ∧
    phase (before ++ [.moved awaitingConfirmation, .told (.moved awaitingConfirmation),
        .confirmed s false, .moved ready, .told (.moved ready)]) = .past := by
  obtain ⟨asks, asking⟩ := @each_goesOn settings before
    [.moved awaitingConfirmation, .told (.moved awaitingConfirmation)] call running rfl
  have past := phase_of_denied
    (before ++ [.moved awaitingConfirmation, .told (.moved awaitingConfirmation)])
  have ends : Each (Permits settings) (before ++ [.moved awaitingConfirmation,
      .told (.moved awaitingConfirmation)] ++ [.confirmed s false])
      [.moved ready, .told (.moved ready)] := each_past (past [] s) rfl
  refine ⟨each_append.mpr ⟨asks, (?_ : Each _ _ (_ :: _))⟩, ?_⟩
  · exact ⟨permits_within asking (permits_of_harmless rfl), ends⟩
  · simpa using past [.moved ready, .told (.moved ready)] s

/-- A call that runs does what is allowed to its tool, and after a denial it is over. -/
theorem Gated.permits {a b : TurnState} {raw seg heard rb : List Heard} {tool : String}
    {arguments : Json} (gate : Gated a raw seg b) (start : a = toolCall)
    (running : phase before = .within ⟨tool, arguments, heard⟩) (seen : Seen rb heard)
    (allowed : Each (Allows settings tool arguments) rb raw) :
    Each (Permits settings) before seg ∧
      if raw.any Heard.denial then phase (before ++ seg) = .past
      else ∃ call, phase (before ++ seg) = .within call := by
  induction gate generalizing before heard rb with
  | nil => exact ⟨trivial, by simpa using ⟨_, running⟩⟩
  | @other _ _ h raw seg ofTool quiet _ ih =>
    obtain ⟨⟨-, permitted⟩, later⟩ := allowed
    have onward : phase (before ++ [h]) = .within ⟨tool, arguments, heard ++ [h]⟩ := by
      rw [phase_concat, running, hear_within_ofTool _ ofTool quiet]
    obtain ⟨each, ends⟩ := ih start onward (seen.other h) later
    refine ⟨⟨permits_within running (seen.permits permitted), each⟩, ?_⟩
    simpa [Heard.denial_of_not_asksApproval quiet] using ends
  | @approved _ s raw seg _ ih =>
    obtain ⟨-, later⟩ := allowed
    obtain ⟨around, onward⟩ := @each_goesOn settings before [.moved awaitingConfirmation,
      .told (.moved awaitingConfirmation), .confirmed s true, .moved toolCall,
      .told (.moved toolCall)] _ running rfl
    obtain ⟨each, ends⟩ := ih rfl onward (seen.confirmed s true (by simp)) later
    exact ⟨each_append.mpr ⟨around, each⟩, by simpa [Heard.denial] using ends⟩
  | @denied _ s raw seg rest =>
    obtain ⟨-, later⟩ := allowed
    obtain ⟨each, past⟩ := @each_denial settings before _ s running
    -- a tool that goes on after a denial would not be allowed to
    cases rest with
    | nil => exact ⟨each, by simpa [Heard.denial] using past⟩
    | other => exact absurd (by simp) (later.1.1 s)
    | again => exact absurd (by simp) (later.1.1 s)
  | again => cases start

end

section

variable {a : Agent} {settings : Settings} {root : String} {s after : Session} {before l : List Heard}

theorem allowed_of_execute {name : String} {arguments : Json} {out : Except String ToolOutput}
    (run : Act.Trace ((Registry.standard root settings).execute Act.confirm name arguments) l out) :
    Each (Allows settings name arguments) [] l := by
  rcases Registry.trace_execute run with ⟨rfl, -⟩ | ⟨t, found, executed⟩
  · trivial
  · obtain ⟨member, rfl⟩ := Registry.mem_of_get? found
    exact each_executed (Tool.kind_of_standard member) executed

/-- A call that was begun ends between calls, or with the turn when approval was denied in it. -/
theorem CallRun.permits {call : ToolCall} {denied : Bool}
    (standard : a.registry = Registry.standard root settings)
    (running : phase before = .within ⟨call.name, call.arguments, []⟩)
    (ran : CallRun a call s l denied after) :
    Each (Permits settings) before l ∧
      phase (before ++ l) = if denied then .past else .idle := by
  cases ran with
  | @intro raw seg outcome b t executed ran gate =>
    rw [standard] at executed
    have seen : Seen [] [] := ⟨fun _ => id, fun _ _ => id⟩
    obtain ⟨each, ends⟩ := gate.permits rfl running seen (allowed_of_execute executed)
    cases denied : raw.any Heard.denial with
    | true =>
      rw [denied, if_pos rfl] at ends
      obtain ⟨closes, stays⟩ := @each_bookkeeping settings _
        [.told (.finished call.name (resultOf call outcome).success), ⟨.now, t⟩] (Or.inr ends)
        rfl
      exact ⟨each_append.mpr ⟨each, closes⟩, by simpa [ends] using stays⟩
    | false =>
      rw [denied, if_neg Bool.false_ne_true] at ends
      obtain ⟨last, running₂⟩ := ends
      have finished : Permits settings (before ++ seg)
          (.told (.finished call.name (resultOf call outcome).success)) :=
        permits_within running₂ (permits_of_harmless rfl)
      have idle : phase (before ++ seg ++
          [.told (.finished call.name (resultOf call outcome).success)]) = .idle := by
        rw [phase_concat, running₂]
        rfl
      obtain ⟨clock, stays⟩ := @each_plain settings _ [⟨.now, t⟩] idle rfl
      exact ⟨each_append.mpr ⟨each, finished, clock⟩, by simpa using stays⟩

theorem each_announced (call : ToolCall) (stop : Bool) (idle : phase before = .idle) :
    Each (Permits settings) before
        [.told (.started call.name call.arguments), .polled stop] ∧
      phase (before ++ [.told (.started call.name call.arguments), .polled stop]) =
        if stop then .past else .within ⟨call.name, call.arguments, []⟩ := by
  have opened : phase (before ++ [.told (.started call.name call.arguments)]) =
      .starting call.name call.arguments := by
    rw [phase_concat, idle]
    rfl
  refine ⟨⟨permits_idle idle rfl, permits_starting stop opened, trivial⟩, ?_⟩
  rw [phase_append, idle]
  cases stop <;> rfl

theorem CallsRun.permits {calls : List ToolCall} {n : Nat} {status : Option TurnStatus}
    (standard : a.registry = Registry.standard root settings) (idle : phase before = .idle)
    (ran : CallsRun a calls s l n status after) :
    Each (Permits settings) before l ∧
      (phase (before ++ l) = .idle ∨ phase (before ++ l) = .past ∧ status.isSome = true) := by
  induction ran generalizing before with
  | none => exact ⟨trivial, Or.inl (by simpa using idle)⟩
  | unstarted call =>
    obtain ⟨each, past⟩ := each_announced call true idle
    exact ⟨each, Or.inr ⟨past, rfl⟩⟩
  | @denied call _ _ _ _ ran =>
    obtain ⟨opens, running⟩ := @each_announced settings _ call false idle
    obtain ⟨each, past⟩ := ran.permits standard running
    exact ⟨each_append.mpr ⟨opens, each⟩, Or.inr ⟨by simpa using past, rfl⟩⟩
  | @stopped call _ _ _ _ ran =>
    obtain ⟨opens, running⟩ := @each_announced settings _ call false idle
    obtain ⟨each, idle₂⟩ := ran.permits standard running
    obtain ⟨poll, idle₃⟩ := @each_plain settings _ [.polled true] idle₂ rfl
    exact ⟨each_append.mpr ⟨opens, each_append.mpr ⟨each, poll⟩⟩, Or.inl (by simpa using idle₃)⟩
  | @next call _ _ _ _ _ rest _ _ ran _ ih =>
    obtain ⟨opens, running⟩ := @each_announced settings _ call false idle
    obtain ⟨each, idle₂⟩ := ran.permits standard running
    obtain ⟨poll, idle₃⟩ := @each_plain settings _ [.polled false] idle₂ rfl
    obtain ⟨onward, ends⟩ := ih idle₃
    refine ⟨each_append.mpr ⟨opens, each_append.mpr ⟨each, each_append.mpr ⟨poll, onward⟩⟩⟩, ?_⟩
    simpa using ends

theorem Asked.plain {messages : List Message} {tools : List ToolDefinition} {key : String}
    (asked : Asked messages tools key l) : l.all Heard.plain = true := by
  induction asked with
  | nil => rfl
  | again e _ _ ih => simpa [Heard.plain] using ih

theorem Queried.plain {messages : List Message} {tools : List ToolDefinition} {key : String}
    {retries : Nat} {o : Option (Outcome Reply)} (queried : Queried messages tools key retries l o) :
    l.all Heard.plain = true := by
  cases queried with
  | cancelled asked => simp [asked.plain, Heard.plain]
  | failed e d asked _ => simp [asked.plain, Heard.plain]
  | replied r asked => simp [asked.plain, Heard.plain]

theorem besidesTold_plain (r : Reply) : (besidesTold r).all Heard.plain = true := by
  unfold besidesTold
  split <;> rfl

theorem closing_bookkeeping (o : Outcome TurnReport) (b : TurnState) :
    (closing o b).all Heard.bookkeeping = true := by
  cases o with
  | error f => rfl
  | ok report => cases b <;> rfl

theorem each_round {messages : List Message} {tools : List ToolDefinition} {key : String} {retries : Nat}
    {calls : List ToolCall} {asked heard : List Heard} {r : Reply} {n : Nat}
    {status : Option TurnStatus} (t : Int) (standard : a.registry = Registry.standard root settings)
    (idle : phase before = .idle) (queried : Queried messages tools key retries asked (some (.ok r)))
    (ran : CallsRun a calls s heard n status after) :
    Each (Permits settings) before (roundHeard asked t r heard) ∧
      (phase (before ++ roundHeard asked t r heard) = .idle ∨
        phase (before ++ roundHeard asked t r heard) = .past ∧ status.isSome = true) := by
  have plain : (.polled false :: asked ++ ⟨.now, t⟩ :: besidesTold r ++ movedTo toolCall).all
      Heard.plain = true := by
    simp [queried.plain, besidesTold_plain, Heard.plain, movedTo]
  obtain ⟨opens, idle₂⟩ := @each_plain settings _ _ idle plain
  obtain ⟨called, ends⟩ := ran.permits standard idle₂
  refine ⟨each_append.mpr ⟨opens, called⟩, ?_⟩
  rw [roundHeard, ← List.append_assoc]
  exact ends

theorem RoundsRun.permits {system : Message} {key : String} {tally : TurnTally} {done left : Nat}
    {o : Outcome TurnReport} {b : TurnState}
    (standard : a.registry = Registry.standard root settings) (idle : phase before = .idle)
    (derived : RoundsRun a system key tally done left s l o after b) :
    Each (Permits settings) before l ∧ (phase (before ++ l) = .idle ∨ phase (before ++ l) = .past) := by
  induction derived generalizing before with
  | interrupted =>
    obtain ⟨each, stays⟩ := @each_plain settings _ [.polled true] idle rfl
    exact ⟨each, Or.inl stays⟩
  | @abandoned _ _ _ _ l queried =>
    obtain ⟨each, stays⟩ := @each_plain settings _ (.polled false :: l) idle queried.plain
    exact ⟨each, Or.inl stays⟩
  | @failed _ _ _ _ l _ queried =>
    obtain ⟨each, stays⟩ := @each_plain settings _ (.polled false :: l) idle queried.plain
    exact ⟨each, Or.inl stays⟩
  | @answered _ _ _ _ l r t queried =>
    have plain : (.polled false :: l ++ ⟨.now, t⟩ :: .told (.response r.content) ::
        movedTo ready).all Heard.plain = true := by
      simp [queried.plain, Heard.plain, movedTo]
    obtain ⟨each, stays⟩ := @each_plain settings _ _ idle plain
    exact ⟨each, Or.inl stays⟩
  | ended _ _ _ _ t queried _ ran =>
    obtain ⟨each, ends⟩ := each_round t standard idle queried ran
    exact ⟨each, ends.imp_right And.left⟩
  | limit _ _ _ t t' queried _ ran =>
    obtain ⟨each, idle₂ | ⟨-, wrong⟩⟩ := each_round t standard idle queried ran
    · obtain ⟨notes, idle₃⟩ := @each_plain settings _
        (movedTo thinking ++ ⟨.now, t'⟩ :: movedTo ready) idle₂ rfl
      rw [List.append_assoc]
      exact ⟨each_append.mpr ⟨each, notes⟩, Or.inl (by simpa using idle₃)⟩
    · cases wrong
  | @next _ _ _ _ l calls rest r _ _ _ _ _ t queried _ ran _ ih =>
    obtain ⟨each, idle₂ | ⟨-, wrong⟩⟩ := each_round t standard idle queried ran
    · obtain ⟨moves, idle₃⟩ := @each_plain settings _ (movedTo thinking) idle₂ rfl
      obtain ⟨onward, ends⟩ := ih idle₃
      rw [List.append_assoc]
      exact ⟨each_append.mpr ⟨each, each_append.mpr ⟨moves, onward⟩⟩, by simpa using ends⟩
    · cases wrong

/-- A turn is permitted all that it does, and no call runs at its end. -/
theorem TurnRun.permits {input : String} {o : Outcome TurnReport}
    (standard : a.registry = Registry.standard root settings)
    (derived : TurnRun a s input ready l o after) : Each (Permits settings) [] l := by
  cases derived with
  | refused notReady => exact absurd rfl notReady
  | @ran l o m b text t t' listed saved rounds =>
    obtain ⟨opens, idle⟩ := @each_plain settings [] (opening (retryKey s.id) t listed) rfl rfl
    obtain ⟨each, ended⟩ := rounds.permits standard idle
    have closes : (closing o b ++ ([⟨.now, t'⟩,
        ⟨.sessions (.save (closed s.history.length o m t')), saved⟩] : List Heard)).all
          Heard.bookkeeping = true := by
      rw [List.all_append, closing_bookkeeping]
      rfl
    obtain ⟨closing, -⟩ := @each_bookkeeping settings _ _ ended closes
    rw [List.append_assoc]
    exact each_append.mpr ⟨each_append.mpr ⟨opens, each⟩, closing⟩

end

end Turn

end CodeAgent
