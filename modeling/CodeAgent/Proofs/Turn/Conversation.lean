import CodeAgent.Proofs.Chat.Pairing
import CodeAgent.Proofs.Turn.Books

/-! The conversations that turns send to the model.
Within a turn every call that is run is answered before the model is asked again, and a turn that fails
or is interrupted takes its messages back. A denial keeps them and runs no further call, so the calls
behind it stay in the history without a result, and no later turn adds one. -/
namespace CodeAgent

namespace Heard

/-- The conversation that the model is asked with. -/
def sent? : Heard → Option (List Message)
  | ⟨.chat messages _, _⟩ => some messages
  | _ => none

/-- How many calls the model asks for. -/
def asksFor : Heard → Nat
  | ⟨.chat _ _, .reply r⟩ => r.calls.length
  | _ => 0

def finishes : Heard → Bool
  | ⟨.tell (.finished ..), _⟩ => true
  | _ => false

end Heard

/-- The conversations that the model is asked with, in their order. -/
def sent (l : List Heard) : List (List Message) := l.filterMap Heard.sent?

@[simp] theorem sent_append (l₁ l₂ : List Heard) : sent (l₁ ++ l₂) = sent l₁ ++ sent l₂ :=
  List.filterMap_append ..

/-- How many calls the model asked for, how many were run to their end, and whether one was denied. -/
structure Tallied (l : List Heard) (asked finished : Nat) (denied : Bool) : Prop where
  asked : (l.map Heard.asksFor).sum = asked
  finished : l.countP Heard.finishes = finished
  denied : l.any Heard.denial = denied

/-- Approval was denied while calls of the model were still to be run. -/
def CutShort (l : List Heard) : Prop :=
  l.any Heard.denial = true ∧ l.countP Heard.finishes < (l.map Heard.asksFor).sum

section

variable {l k : List Heard} {asked asked₁ asked₂ finished finished₁ finished₂ : Nat}
  {denied denied₁ denied₂ : Bool}

theorem Tallied.append (first : Tallied l asked₁ finished₁ denied₁)
    (second : Tallied k asked₂ finished₂ denied₂) :
    Tallied (l ++ k) (asked₁ + asked₂) (finished₁ + finished₂) (denied₁ || denied₂) where
  asked := by rw [List.map_append, List.sum_append, first.asked, second.asked]
  finished := by rw [List.countP_append, first.finished, second.finished]
  denied := by rw [List.any_append, first.denied, second.denied]

theorem Tallied.behind (first : Tallied l 0 0 false) (second : Tallied k asked finished denied) :
    Tallied (l ++ k) asked finished denied := by
  simpa using first.append second

theorem Tallied.before (first : Tallied l asked finished denied) (second : Tallied k 0 0 false) :
    Tallied (l ++ k) asked finished denied := by
  simpa using first.append second

theorem Tallied.cutShort_iff (tallied : Tallied l asked finished denied) :
    CutShort l ↔ denied = true ∧ finished < asked := by
  rw [CutShort, tallied.asked, tallied.finished, tallied.denied]

end

namespace Session

@[simp] theorem messages_addMessage (s : Session) (m : Message) (t : Int) :
    (s.addMessage m t).messages = s.messages ++ [m] := by
  simp [messages, addMessage]

end Session

namespace Turn

open TurnState

section

variable {a : Agent} {s m after : Session} {l : List Heard}

theorem messages_opened (s : Session) (input : String) (t : Int) :
    (opened s input t).messages = s.messages ++ [.user input] := by
  simp [opened, Session.messages, Session.addMessage]

theorem messages_ofReply (s : Session) (r : Reply) (window : Nat) :
    (Effect.ofReply r window s).messages = s.messages := rfl

theorem messages_closed {mark : Nat} {o : Outcome TurnReport} {t : Int} :
    (closed mark o s t).messages = if keepsMessages o then s.messages else s.messages.take mark := by
  unfold closed
  split <;> simp [Session.touch, rollBack, Session.messages]

/-- A result adds its message and no other. -/
theorem messages_ofResult (call : ToolCall) (outcome : Except String ToolOutput) (denied : Bool)
    (t : Int) :
    (Effect.ofResult a call outcome denied t s).messages = s.messages ++
      [.result call.id (resultOf call outcome).content !(resultOf call outcome).success] := by
  obtain ⟨context, same⟩ := ofOutcome_eq (Effect.ofCall s) call.arguments outcome
  simp only [Effect.ofResult, same]
  split <;> simp [Session.messages, Session.addMessage, Effect.ofRejectedEdit, Effect.ofCall]

/- Calls -/

theorem Gated.tallied {a b : TurnState} {raw seg : List Heard} (gate : Gated a raw seg b) :
    sent seg = [] ∧ Tallied seg 0 0 (raw.any Heard.denial) := by
  induction gate with
  | nil => exact ⟨rfl, rfl, rfl, rfl⟩
  | @other a b h raw seg tool quiet rest ih =>
    obtain ⟨silent, tallied⟩ := ih
    have single : sent [h] = [] ∧ Tallied [h] 0 0 false := by
      have free := Heard.denial_of_not_asksApproval quiet
      obtain ⟨q, answer⟩ := h
      cases q with
      | chat => exact tool.elim
      | tell => exact tool.elim
      | _ => exact ⟨rfl, rfl, rfl, by rw [List.any_cons, free]; rfl⟩
    refine ⟨by rw [← List.singleton_append, sent_append, single.1, silent]; rfl, ?_⟩
    rw [List.any_cons, Heard.denial_of_not_asksApproval quiet]
    exact single.2.behind tallied
  | approved rest ih => exact ⟨ih.1, Tallied.behind (l := [_, _, _, _, _]) ⟨rfl, rfl, rfl⟩ ih.2⟩
  | @denied _ s _ _ rest ih =>
    have asked : Tallied [.moved awaitingConfirmation, .told (.moved awaitingConfirmation),
        .confirmed s false, .moved ready, .told (.moved ready)] 0 0 true := ⟨rfl, rfl, rfl⟩
    exact ⟨ih.1, asked.append ih.2⟩
  | @again b s approved raw seg rest ih =>
    have asked : Tallied [.refused awaitingConfirmation (illegal ready awaitingConfirmation),
        .confirmed s approved, .refused (if approved then toolCall else ready)
          (illegal ready (if approved then toolCall else ready))] 0 0 !approved :=
      ⟨rfl, rfl, by simp [Heard.denial]⟩
    exact ⟨ih.1, asked.append ih.2⟩

theorem CallRun.tallied {call : ToolCall} {denied : Bool} (ran : CallRun a call s l denied after) :
    sent l = [] ∧ Tallied l 0 1 denied := by
  cases ran with
  | @intro raw seg outcome b t executed ran gate =>
    obtain ⟨silent, tallied⟩ := gate.tallied
    refine ⟨by rw [sent_append, silent]; rfl, ?_⟩
    have ended : Tallied [.told (.finished call.name (resultOf call outcome).success), ⟨.now, t⟩] 0 1
        false := ⟨rfl, rfl, rfl⟩
    have whole := tallied.append ended
    rwa [Bool.or_false] at whole

theorem CallRun.messages {call : ToolCall} {denied : Bool} (ran : CallRun a call s l denied after) :
    ∃ content failed, after.messages = s.messages ++ [.result call.id content failed] := by
  cases ran with
  | intro t => exact ⟨_, _, messages_ofResult ..⟩

theorem CallsRun.tallied {calls : List ToolCall} {n : Nat} {status : Option TurnStatus}
    (ran : CallsRun a calls s l n status after) :
    sent l = [] ∧ Tallied l 0 n (status = some .rejected) := by
  have begun : ∀ call : ToolCall, Tallied
      [.told (.started call.name call.arguments), .polled false] 0 0 false := fun _ => ⟨rfl, rfl, rfl⟩
  have polled : ∀ stop, Tallied [.polled stop] 0 0 false := fun _ => ⟨rfl, rfl, rfl⟩
  induction ran with
  | none => exact ⟨rfl, rfl, rfl, rfl⟩
  | unstarted => exact ⟨rfl, rfl, rfl, rfl⟩
  | @denied call _ _ _ _ ran =>
    obtain ⟨silent, tallied⟩ := ran.tallied
    exact ⟨silent, (begun call).behind tallied⟩
  | @stopped call _ _ l _ ran =>
    obtain ⟨silent, tallied⟩ := ran.tallied
    refine ⟨?_, (begun call).behind (tallied.before (polled true))⟩
    change sent (l ++ [.polled true]) = []
    rw [sent_append, silent]
    rfl
  | @next call _ _ _ _ l rest n _ ran _ ih =>
    obtain ⟨silent, tallied⟩ := ran.tallied
    refine ⟨?_, ?_⟩
    · change sent (l ++ ([.polled false] ++ rest)) = []
      rw [sent_append, sent_append, silent, ih.1]
      rfl
    · rw [Nat.add_comm n]
      exact (begun call).behind (tallied.append ((polled false).behind ih.2))

/-- The calls that are run are answered, from the first on. -/
theorem CallsRun.messages {calls : List ToolCall} {n : Nat} {status : Option TurnStatus}
    (ran : CallsRun a calls s l n status after) :
    ∃ results, after.messages = s.messages ++ results ∧
      results.map Message.answered? = ((calls.take n).map (·.id)).map some := by
  induction ran with
  | none => exact ⟨[], (List.append_nil _).symm, rfl⟩
  | unstarted => exact ⟨[], (List.append_nil _).symm, rfl⟩
  | denied _ ran =>
    obtain ⟨content, failed, put⟩ := ran.messages
    exact ⟨_, put, rfl⟩
  | stopped _ ran =>
    obtain ⟨content, failed, put⟩ := ran.messages
    exact ⟨_, put, rfl⟩
  | @next call _ _ _ _ _ _ _ _ ran _ ih =>
    obtain ⟨content, failed, put⟩ := ran.messages
    obtain ⟨results, puts, matched⟩ := ih
    refine ⟨.result call.id content failed :: results, by rw [puts, put]; simp, ?_⟩
    rw [List.map_cons, matched]
    rfl

theorem CallsRun.ends {calls : List ToolCall} {n : Nat} {status : Option TurnStatus}
    (ran : CallsRun a calls s l n status after) :
    n ≤ calls.length ∧ (status = Option.none → n = calls.length) ∧
      (status = Option.none ∨ status = some .interrupted ∨ status = some .rejected) := by
  induction ran with
  | none => simp
  | unstarted => simp
  | denied => simp
  | stopped => simp
  | next _ _ ih =>
    obtain ⟨most, all, ends⟩ := ih
    exact ⟨by simpa using most, fun on => by simpa using all on, ends⟩

/- Rounds -/

theorem Queried.tallied {messages : List Message} {tools : List ToolDefinition} {key : String}
    {retries : Nat} {o : Option (Outcome Reply)} (queried : Queried messages tools key retries l o) :
    (∀ ms ∈ sent l, ms = messages) ∧ Tallied l (match o with
      | some (.ok r) => r.calls.length
      | _ => 0) 0 false := by
  have tried : ∀ {l}, Asked messages tools key l → (∀ ms ∈ sent l, ms = messages) ∧
      Tallied l 0 0 false := by
    intro l asked
    induction asked with
    | nil => exact ⟨by simp [sent], rfl, rfl, rfl⟩
    | again e _ rest ih =>
      refine ⟨?_, Tallied.behind (l := [_, _]) ⟨rfl, rfl, rfl⟩ ih.2⟩
      rintro ms (_ | ⟨_, member⟩)
      · rfl
      · exact ih.1 ms member
  have joined : ∀ {front ending : List Heard}, (∀ ms ∈ sent front, ms = messages) →
      sent ending = [messages] → ∀ ms ∈ sent (front ++ ending), ms = messages := by
    intro front ending before last ms member
    rw [sent_append, last] at member
    rcases List.mem_append.mp member with first | second
    · exact before ms first
    · exact List.mem_singleton.mp second
  cases queried with
  | cancelled asked => exact ⟨joined (tried asked).1 rfl, (tried asked).2.before ⟨rfl, rfl, rfl⟩⟩
  | failed e d asked => exact ⟨joined (tried asked).1 rfl, (tried asked).2.before ⟨rfl, rfl, rfl⟩⟩
  | replied r asked =>
    refine ⟨joined (tried asked).1 rfl, Tallied.behind (tried asked).2 ⟨?_, rfl, rfl⟩⟩
    simp [Heard.asksFor]

/-- After the calls of a reply the results of those that were not run are owed. -/
theorem CallsRun.owes {r : Reply} {window n : Nat} {t : Int} {status : Option TurnStatus}
    (ran : CallsRun a r.calls
      ((Effect.ofReply r window s).addMessage (.calling r.content r.calls) t) l n status after) :
    s.messages <+: after.messages ∧
      (Paired s.messages → owed after.messages = some ((r.calls.drop n).map (·.id))) := by
  obtain ⟨results, puts, matched⟩ := ran.messages
  rw [Session.messages_addMessage, messages_ofReply, List.append_assoc] at puts
  refine ⟨⟨_, puts.symm⟩, fun paired => ?_⟩
  have settled := @Message.foldlM_settle_results _ ((r.calls.drop n).map (·.id)) _ matched
  rw [← List.map_append, List.take_append_drop] at settled
  rw [puts, owed_append, paired_iff.mp paired]
  exact Message.foldlM_settle_cons.mpr ⟨_, Message.settle_calling .., settled⟩

theorem roundHeard_tallied {asked calls : List Heard} {r : Reply} {n : Nat} {denied : Bool} (t : Int)
    (replied : Tallied asked r.calls.length 0 false) (called : Tallied calls 0 n denied) :
    Tallied (roundHeard asked t r calls) r.calls.length n denied := by
  have told : Tallied (⟨.now, t⟩ :: besidesTold r) 0 0 false := by
    unfold besidesTold
    split <;> exact ⟨rfl, rfl, rfl⟩
  have moved : Tallied (movedTo toolCall) 0 0 false := ⟨rfl, rfl, rfl⟩
  have front := ((Tallied.behind (l := [.polled false]) ⟨rfl, rfl, rfl⟩ replied).before told).before
    moved
  simpa [roundHeard] using front.append called

theorem sent_roundHeard {asked calls : List Heard} (t : Int) (r : Reply) (silent : sent calls = []) :
    sent (roundHeard asked t r calls) = sent asked := by
  have told : sent (⟨.now, t⟩ :: besidesTold r) = [] := by
    unfold besidesTold
    split <;> rfl
  change sent ([.polled false] ++ asked ++ (⟨.now, t⟩ :: besidesTold r) ++ movedTo toolCall ++ calls) = _
  simp only [sent_append, told, silent, List.append_nil]
  exact List.append_nil _

theorem paired_of_settled_calls {r : Reply} {n : Nat} (all : n = r.calls.length)
    (left : owed m.messages = some ((r.calls.drop n).map (·.id))) : Paired m.messages := by
  rw [all, List.drop_length] at left
  exact paired_iff.mpr left

/-- Every conversation of the rounds is the system's message and a history that goes on from that at
their start; it is paired if that one was. -/
theorem RoundsRun.sends {system : Message} {key : String} {tally : TurnTally} {done left : Nat}
    {o : Outcome TurnReport} {b : TurnState}
    (derived : RoundsRun a system key tally done left s l o after b) :
    ∀ ms ∈ sent l, ∃ history, ms = system :: history ∧ s.messages <+: history ∧
      (Paired s.messages → Paired history) := by
  have first : ∀ {s : Session} {asked : List Heard},
      (∀ ms ∈ sent asked, ms = system :: s.messages) → ∀ ms ∈ sent asked, ∃ history,
        ms = system :: history ∧ s.messages <+: history ∧ (Paired s.messages → Paired history) :=
    fun same ms member => ⟨_, same ms member, List.prefix_refl _, id⟩
  induction derived with
  | interrupted => simp [sent, Heard.sent?]
  | abandoned _ _ _ _ queried => exact first queried.tallied.1
  | failed _ _ _ _ queried => exact first queried.tallied.1
  | @answered _ _ _ _ l r t queried =>
    have ends : sent (⟨.now, t⟩ :: .told (.response r.content) :: movedTo ready) = [] := rfl
    change ∀ ms ∈ sent ([.polled false] ++ l ++ _), _
    rw [sent_append, ends, List.append_nil]
    exact first queried.tallied.1
  | ended _ _ _ _ t queried _ ran =>
    rw [sent_roundHeard t _ ran.tallied.1]
    exact first queried.tallied.1
  | limit _ _ _ t t' queried _ ran =>
    have ends : sent (⟨.now, t'⟩ :: movedTo ready) = [] := rfl
    have moved : sent (movedTo thinking) = [] := rfl
    rw [sent_append, sent_append, sent_roundHeard t _ ran.tallied.1, ends, moved, List.append_nil,
      List.append_nil]
    exact first queried.tallied.1
  | next _ _ _ _ t queried _ ran _ ih =>
    obtain ⟨goesOn, owes⟩ := ran.owes
    have moved : sent (movedTo thinking) = [] := rfl
    rw [sent_append, sent_append, sent_roundHeard t _ ran.tallied.1, moved, List.append_nil]
    intro ms member
    rcases List.mem_append.mp member with now | later
    · exact first queried.tallied.1 ms now
    · obtain ⟨history, same, behind, pairs⟩ := ih ms later
      exact ⟨history, same, goesOn.trans behind, fun paired =>
        pairs (paired_of_settled_calls (ran.ends.2.1 rfl) (owes paired))⟩

/-- The rounds leave as many results owed as calls were not run, and keep a history that owes some only
after a denial. -/
structure Leaves (s : Session) (l : List Heard) (o : Outcome TurnReport) (after : Session)
    (asked finished : Nat) (denied : Bool) : Prop where
  goesOn : s.messages <+: after.messages
  tallied : Tallied l asked finished denied
  kept : denied = true → keepsMessages o = true
  owes : Paired s.messages → ∃ ids, owed after.messages = some ids ∧ asked = finished + ids.length ∧
    (keepsMessages o = true → denied = false → ids = [])

theorem RoundsRun.leaves {system : Message} {key : String} {tally : TurnTally} {done left : Nat}
    {o : Outcome TurnReport} {b : TurnState}
    (derived : RoundsRun a system key tally done left s l o after b) :
    ∃ asked finished denied, Leaves s l o after asked finished denied := by
  have still : ∀ {s : Session} {l : List Heard} {o : Outcome TurnReport}, Tallied l 0 0 false →
      ∃ asked finished denied, Leaves s l o s asked finished denied :=
    fun tallied => ⟨0, 0, false, List.prefix_refl _, tallied, by simp, fun paired =>
      ⟨[], paired_iff.mp paired, rfl, fun _ _ => rfl⟩⟩
  have polled : Tallied [.polled false] 0 0 false := ⟨rfl, rfl, rfl⟩
  induction derived with
  | interrupted => exact still ⟨rfl, rfl, rfl⟩
  | abandoned _ _ _ _ queried => exact still (polled.behind queried.tallied.2)
  | failed _ _ _ _ queried => exact still (polled.behind queried.tallied.2)
  | @answered tally _ _ s l r t queried final =>
    have none : r.calls.length = 0 := by simpa [Reply.hasCalls] using final
    have ends : Tallied (⟨.now, t⟩ :: .told (.response r.content) :: movedTo ready) 0 0 false :=
      ⟨rfl, rfl, rfl⟩
    refine ⟨0, 0, false, ?_, ?_, by simp, fun paired => ⟨[], ?_, rfl, fun _ _ => rfl⟩⟩
    · exact ⟨_, (Session.messages_addMessage ..).symm⟩
    · exact none ▸ (polled.behind queried.tallied.2).before ends
    · rw [Session.messages_addMessage, messages_ofReply, owed_concat, paired_iff.mp paired]
      rfl
  | @ended tally _ _ s l calls r n status after t queried _ ran =>
    obtain ⟨most, -, ends⟩ := ran.ends
    obtain ⟨goesOn, owes⟩ := ran.owes
    refine ⟨_, _, _, goesOn, roundHeard_tallied t queried.tallied.2 ran.tallied.2, ?_, fun paired =>
      ⟨_, owes paired, by simp; omega, ?_⟩⟩
    · intro denied
      obtain rfl : status = .rejected := by simpa using denied
      rfl
    · intro kept free
      rcases ends with wrong | interrupted | rejected
      · cases wrong
      · obtain rfl := Option.some.inj interrupted
        cases kept
      · simp [rejected] at free
  | @limit tally done s l calls r n after t t' queried _ ran =>
    obtain ⟨goesOn, owes⟩ := ran.owes
    have ends : Tallied (⟨.now, t'⟩ :: movedTo ready) 0 0 false := ⟨rfl, rfl, rfl⟩
    have round := roundHeard_tallied t queried.tallied.2 ran.tallied.2
    have moved := round.before (k := movedTo thinking) ⟨rfl, rfl, rfl⟩
    refine ⟨_, _, _, ?_, moved.before ends, fun _ => rfl, fun paired =>
      ⟨[], ?_, (ran.ends.2.1 rfl).symm, fun _ _ => rfl⟩⟩
    · rw [Session.messages_addMessage]
      exact goesOn.trans (List.prefix_append ..)
    · have settled := paired_iff.mp (paired_of_settled_calls (ran.ends.2.1 rfl) (owes paired))
      rw [Session.messages_addMessage, owed_concat, settled]
      rfl
  | @next tally done left s l calls rest r n m after o b t queried _ ran _ ih =>
    obtain ⟨goesOn, owes⟩ := ran.owes
    obtain ⟨asked, finished, denied, behind, tallied, kept, left⟩ := ih
    have round := roundHeard_tallied t queried.tallied.2 ran.tallied.2
    have moved := round.before (k := movedTo thinking) ⟨rfl, rfl, rfl⟩
    refine ⟨_, _, _, goesOn.trans behind, moved.append tallied, by simpa using kept, fun paired => ?_⟩
    have all := ran.ends.2.1 rfl
    obtain ⟨ids, same, count, settled⟩ := left (paired_of_settled_calls all (owes paired))
    exact ⟨ids, same, by omega, by simpa using settled⟩

/- Turns -/

theorem tallied_closing (o : Outcome TurnReport) (b : TurnState) :
    sent (closing o b) = [] ∧ Tallied (closing o b) 0 0 false := by
  cases o with
  | error f => exact ⟨rfl, rfl, rfl, rfl⟩
  | ok report => cases b <;> exact ⟨rfl, rfl, rfl, rfl⟩

/-- The conversations of a turn are paired if the session's was before it; it still is afterwards, unless
the turn was cut short. -/
theorem TurnRun.conversation {input : String} {start : TurnState} {o : Outcome TurnReport}
    (ran : TurnRun a s input start l o after) :
    (∀ ms ∈ sent l, ∃ text history, ms = .system text :: history ∧
      (Paired history ↔ Paired s.messages)) ∧
    (Paired after.messages ↔ Paired s.messages ∧ ¬ CutShort l) := by
  cases ran with
  | refused => exact ⟨by simp [sent, Heard.sent?], by simp [CutShort, Heard.denial]⟩
  | @ran l o m b text t t' listed saved rounds =>
    obtain ⟨silent, closes⟩ := tallied_closing o b
    obtain ⟨asked, finished, denied, goesOn, tallied, kept, owes⟩ := rounds.leaves
    have starts : Tallied (opening (retryKey s.id) t listed) 0 0 false := ⟨rfl, rfl, rfl⟩
    have ends : Tallied [⟨.now, t'⟩, ⟨.sessions (.save (closed s.history.length o m t')), saved⟩] 0 0
      false := ⟨rfl, rfl, rfl⟩
    have whole := ((starts.behind tallied).before closes).before ends
    have opens := messages_opened s input t
    -- an input is no result, so from here on a history that owes one can no more be mended
    have broken : ¬ Paired s.messages → ∀ ms, (opened s input t).messages <+: ms → ¬ Paired ms := by
      intro unpaired ms behind
      rw [paired_iff, owed_none_of_prefix behind (by rw [opens, owed_user, if_neg unpaired])]
      simp
    have paired_opened : Paired s.messages → Paired (opened s input t).messages := by
      intro paired
      rw [paired_iff, opens, owed_user, if_pos paired]
    refine ⟨?_, ?_⟩
    · have said : sent (opening (retryKey s.id) t listed ++ l ++ closing o b ++
          [⟨.now, t'⟩, ⟨.sessions (.save (closed s.history.length o m t')), saved⟩]) = sent l := by
        simp only [sent_append, silent, List.append_nil]
        exact List.append_nil _
      rw [said]
      intro ms member
      obtain ⟨history, same, behind, pairs⟩ := rounds.sends ms member
      refine ⟨text, history, same, fun paired => ?_, fun paired => pairs (paired_opened paired)⟩
      by_contra unpaired
      exact broken unpaired history behind paired
    · have restored : m.messages.take s.history.length = s.messages := by
        rw [opens] at goesOn
        have length : s.history.length = s.messages.length := by simp [Session.messages]
        rw [length]
        exact (List.prefix_iff_eq_take.mp ((List.prefix_append ..).trans goesOn)).symm
      rw [whole.cutShort_iff, messages_closed, restored]
      by_cases paired : Paired s.messages
      · obtain ⟨ids, left, count, settled⟩ := owes (paired_opened paired)
        split
        · rename_i keeps
          rw [paired_iff, left, Option.some.injEq]
          constructor
          · rintro rfl
            exact ⟨paired, fun cut => by simp at count; omega⟩
          · rintro ⟨-, entire⟩
            cases denied with
            | false => exact settled keeps rfl
            | true =>
              have none : ¬ finished < asked := fun fewer => entire ⟨rfl, fewer⟩
              exact List.length_eq_zero_iff.mp (by omega)
        · rename_i drops
          exact ⟨fun _ => ⟨paired, fun cut => drops (kept cut.1)⟩, And.left⟩
      · have unpaired : ¬ Paired (if keepsMessages o then m.messages else s.messages) := by
          split
          · exact broken paired _ goesOn
          · exact paired
        simp [paired, unpaired]

/-- Turns on one session, one after the other, with what is heard in each. -/
inductive Turns : Session → List (List Heard) → Session → Prop where
  | nil (s : Session) : Turns s [] s
  | cons {a : Agent} {s m after : Session} {input : String} {start b : TurnState} {l : List Heard}
      {ls : List (List Heard)} {o : Outcome TurnReport} {path : List TurnState}
      (contained : a.registry.Contained) (run : Act.Trace (Turn.run a s input) l (o, m))
      (walk : Walk start l path b) (rest : Turns m ls after) : Turns s (l :: ls) after

/-- Turns in a world, one for each input. -/
def played {σ : Type} (o : Outside σ) (a : Agent) :
    List String → Session → World σ → List (List Heard) × Session
  | [], s, _ => ([], s)
  | input :: inputs, s, w =>
    let turn := Turn.run a s input
    let (later, after) := played o a inputs (World.run o turn w).1.2 (World.run o turn w).2
    (World.heard o turn w :: later, after)

theorem turns_played {σ : Type} (contained : a.registry.Contained) (o : Outside σ)
    (inputs : List String) (s : Session) (w : World σ) :
    Turns s (played o a inputs s w).1 (played o a inputs s w).2 := by
  induction inputs generalizing s w with
  | nil => exact .nil s
  | cons input inputs ih =>
    obtain ⟨path, walk⟩ := World.walk_run o (Turn.run a s input) w
    exact .cons contained (World.trace_run_pair o _ w) walk (ih _ _)

theorem Turns.split {before later : List (List Heard)} (turns : Turns s (before ++ later) after) :
    ∃ m, Turns s before m ∧ Turns m later after := by
  induction before generalizing s with
  | nil => exact ⟨s, .nil s, turns⟩
  | cons l before ih =>
    cases turns with
    | cons contained run walk rest =>
      obtain ⟨m, first, second⟩ := ih rest
      exact ⟨m, .cons contained run walk first, second⟩

theorem Turns.paired_iff {ls : List (List Heard)} (turns : Turns s ls after) :
    Paired after.messages ↔ Paired s.messages ∧ ∀ l ∈ ls, ¬ CutShort l := by
  induction turns with
  | nil => simp
  | cons contained run walk rest ih =>
    rw [ih, (trace_run contained run walk).1.conversation.2]
    simp [and_assoc]

/-- What is sent to the model in a turn is the system's message and the history, which is paired exactly
if no turn before was cut short by a denial. -/
theorem sent_paired_iff {before later : List (List Heard)} (turns : Turns s (before ++ l :: later) after)
    (paired : Paired s.messages) {ms : List Message} (asked : ms ∈ sent l) :
    ∃ text history, ms = .system text :: history ∧ (Paired history ↔ ∀ l' ∈ before, ¬ CutShort l') := by
  obtain ⟨m, first, second⟩ := turns.split
  cases second with
  | cons contained run walk =>
    obtain ⟨text, history, same, pairs⟩ := (trace_run contained run walk).1.conversation.1 ms asked
    exact ⟨text, history, same, by rw [pairs, first.paired_iff]; simp [paired]⟩

end

/- Two calls in one reply -/

/-- A model that asks for two calls at first and is done then, and a user who always gives one answer. -/
def twice (approved : Bool) : Outside Bool where
  chat := fun _ _ => do
    let asked ← get
    set true
    return .reply (if asked then ⟨"done", [], 1, 1, .endTurn⟩
      else ⟨"", [⟨"1", "insist", .obj []⟩, ⟨"2", "insist", .obj []⟩], 1, 1, .toolUse⟩)
  abort := pure ()
  confirm := fun _ => pure approved
  cancelled := pure false
  process := fun _ => pure .timedOut
  now := pure 0
  newId := pure ""
  tell := fun _ => pure ()
  progress := fun _ => pure ()

def quiet : World Bool := ⟨.empty, .empty, "p", .ready, .new {}, false⟩

/-- A first turn and the turn after it. -/
def twoTurns (approved : Bool) : List (List Heard) × Session :=
  played (twice approved) insistentAgent ["hi", "and now?"] (.new "p" "1" 0) quiet

theorem turns_twoTurns (approved : Bool) : ∃ before last,
    (twoTurns approved).1 = before ++ [last] ∧
      Turns (.new "p" "1" 0) (before ++ last :: []) (twoTurns approved).2 := by
  have turns := turns_played insistent_contained (twice approved) ["hi", "and now?"] (.new "p" "1" 0)
    quiet
  have some : (twoTurns approved).1 ≠ [] := by
    rw [twoTurns, played]
    exact List.cons_ne_nil _ _
  have ends := List.dropLast_append_getLast some
  refine ⟨_, _, ends.symm, ?_⟩
  rw [ends]
  exact turns

theorem sent_paired_iff_approving : ∃ before last, (twoTurns true).1 = before ++ [last] ∧
    ∃ ms ∈ sent last, ∃ text history, ms = .system text :: history ∧
      (Paired history ↔ ∀ l ∈ before, ¬ CutShort l) := by
  obtain ⟨before, last, ends, turns⟩ := turns_twoTurns true
  have spoken : (twoTurns true).1.getLast?.map (fun l => (sent l).isEmpty) = some false := by
    decide +kernel
  rw [ends, List.getLast?_concat] at spoken
  obtain ⟨ms, asked⟩ := List.exists_mem_of_ne_nil _
    (List.isEmpty_eq_false_iff.mp (Option.some.inj spoken))
  exact ⟨before, last, ends, ms, asked, sent_paired_iff turns .nil asked⟩

/-- After a denial of the first of two calls the second stays in what is sent without a result. -/
theorem sent_unpaired_denying :
    ∃ before last after, Turns (.new "p" "1" 0) (before ++ [last]) after ∧
      ∃ ms ∈ sent last, ∀ text history, ms = .system text :: history → ¬ Paired history := by
  obtain ⟨before, last, ends, turns⟩ := turns_twoTurns false
  have unpaired : (twoTurns false).1.getLast?.map (fun l => (sent l).any fun ms => !Paired ms.tail) =
      some true := by
    decide +kernel
  rw [ends, List.getLast?_concat] at unpaired
  obtain ⟨ms, asked, open'⟩ := List.any_eq_true.mp (Option.some.inj unpaired)
  refine ⟨before, last, _, turns, ms, asked, ?_⟩
  rintro text history rfl paired
  simp [paired] at open'

end Turn

end CodeAgent
