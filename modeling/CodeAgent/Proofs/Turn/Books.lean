import CodeAgent.Proofs.Session.Lifecycle
import CodeAgent.Proofs.Turn.Account
import CodeAgent.Proofs.Turn.Legal
import Mathlib

/-! The books of a turn: what the session counts is what the account of the turn says, whatever way the
turn ends. -/
namespace CodeAgent.Turn

open TurnState

/-- A session whose counters and changes went on by the entries of an account. -/
structure Booked (a : Agent) (s : Session) (es : List Entry) (s' : Session) : Prop where
  history : s.history <+: s'.history
  toolCalls : s'.stats.toolCalls = s.stats.toolCalls + es.countP Entry.isCall
  tokens : s'.stats.totalTokens = s.stats.totalTokens + (es.map Entry.tokens).sum
  editsApplied : s'.stats.editsApplied =
    s.stats.editsApplied + (es.filterMap Entry.change?).length
  editsRejected : s'.stats.editsRejected =
    s.stats.editsRejected + es.countP (Entry.rejectedEdit a)
  undoStack : s'.undoStack = ((es.filterMap Entry.change?).foldl Session.pushUndo s).undoStack
  maxUndo : s'.maxUndo = s.maxUndo

section

variable {a : Agent} {s m after : Session} {es es' : List Entry} {l : List Heard}

theorem Booked.of_frame (history : s.history <+: after.history) (stats : after.stats = s.stats)
    (undoStack : after.undoStack = s.undoStack) (maxUndo : after.maxUndo = s.maxUndo) :
    Booked a s [] after where
  history := history
  toolCalls := by simp [stats]
  tokens := by simp [stats]
  editsApplied := by simp [stats]
  editsRejected := by simp [stats]
  undoStack := undoStack
  maxUndo := maxUndo

theorem Booked.trans (first : Booked a s es m) (second : Booked a m es' after) :
    Booked a s (es ++ es') after where
  history := first.history.trans second.history
  toolCalls := by rw [second.toolCalls, first.toolCalls, List.countP_append, Nat.add_assoc]
  tokens := by rw [second.tokens, first.tokens, List.map_append, List.sum_append, Nat.add_assoc]
  editsApplied := by
    rw [second.editsApplied, first.editsApplied, List.filterMap_append, List.length_append,
      Nat.add_assoc]
  editsRejected := by
    rw [second.editsRejected, first.editsRejected, List.countP_append, Nat.add_assoc]
  undoStack := by
    rw [second.undoStack, List.filterMap_append, List.foldl_append]
    apply Session.foldl_pushUndo_congr first.undoStack
    rw [first.maxUndo, Session.foldl_pushUndo_maxUndo]
  maxUndo := second.maxUndo.trans first.maxUndo

theorem booked_addMessage (s : Session) (message : Message) (t : Int) :
    Booked a s [] (s.addMessage message t) :=
  .of_frame ⟨_, rfl⟩ rfl rfl rfl

theorem booked_opened (s : Session) (input : String) (t : Int) :
    Booked a s [] (opened s input t) :=
  .of_frame ⟨[⟨t, .user input⟩], by simp [opened, Session.addMessage]⟩ (by simp [opened, Session.addMessage])
    (by simp [opened, Session.addMessage]) (by simp [opened, Session.addMessage])

theorem booked_ofReply (s : Session) (r : Reply) (window : Nat) :
    Booked a s [.reply r] (Effect.ofReply r window s) where
  history := List.prefix_refl _
  toolCalls := rfl
  tokens := by simp [Effect.ofReply, Session.updateTokenUsage, Entry.tokens]
  editsApplied := rfl
  editsRejected := rfl
  undoStack := rfl
  maxUndo := rfl

/-- A result brings files into view and its change onto the stack. -/
theorem ofOutcome_eq (s : Session) (arguments : Json) (outcome : Except String ToolOutput) :
    ∃ context, Effect.ofOutcome arguments outcome s = { s with
      context := context
      undoStack := ((change? outcome).toList.foldl Session.pushUndo s).undoStack
      stats := { s.stats with
        editsApplied := s.stats.editsApplied + (change? outcome).toList.length } } := by
  cases outcome with
  | error why => exact ⟨s.context, rfl⟩
  | ok output =>
    simp only [Effect.ofOutcome, Effect.ofOutput, change?]
    cases output.change with
    | some c =>
      obtain ⟨context, same⟩ := s.referenceFile_eq c.path
      refine ⟨context, ?_⟩
      simp only [Effect.ofChange, same]
      rfl
    | none =>
      simp only [Effect.ofLook]
      split
      · exact ⟨s.context, rfl⟩
      · rename_i given
        exact s.referenceFile_eq _

theorem booked_ofResult (s : Session) (call : ToolCall) (outcome : Except String ToolOutput)
    (denied : Bool) (t : Int) :
    Booked a s [.call call.name call.arguments outcome denied]
      (Effect.ofResult a call outcome denied t s) := by
  obtain ⟨context, same⟩ := ofOutcome_eq (Effect.ofCall s) call.arguments outcome
  have pushed : [Entry.call call.name call.arguments outcome denied].filterMap Entry.change? =
      (change? outcome).toList := by
    cases change : change? outcome <;> simp [Entry.change?, change]
  have stack : ((change? outcome).toList.foldl Session.pushUndo (Effect.ofCall s)).undoStack =
      ((change? outcome).toList.foldl Session.pushUndo s).undoStack :=
    @Session.foldl_pushUndo_congr (Effect.ofCall s) s rfl rfl _
  simp only [Effect.ofResult, same, stack]
  cases rejected : denied && isEdit a call.name with
  | true =>
    constructor
    · exact ⟨_, rfl⟩
    · rfl
    · rfl
    · rw [pushed]
      rfl
    · simp [Entry.rejectedEdit, rejected, Effect.ofRejectedEdit, Effect.ofCall, Session.addMessage]
    · rw [pushed]
      rfl
    · rfl
  | false =>
    constructor
    · exact ⟨_, rfl⟩
    · rfl
    · rfl
    · rw [pushed]
      rfl
    · simp [Entry.rejectedEdit, rejected, Effect.ofCall, Session.addMessage]
    · rw [pushed]
      rfl
    · rfl

/-- Where calls end by a denial it is the last of them that was denied. -/
def DeniedLast (es : List Entry) (rejected : Prop) : Prop :=
  (rejected → ∃ before name arguments outcome,
    es = before ++ [.call name arguments outcome true] ∧ ∀ e ∈ before, e.denied = false) ∧
  (¬ rejected → ∀ e ∈ es, e.denied = false)

theorem deniedLast_of_not {rejected : Prop} (stays : ¬ rejected)
    (free : ∀ e ∈ es, e.denied = false) : DeniedLast es rejected :=
  ⟨fun h => absurd h stays, fun _ => free⟩

theorem DeniedLast.behind {rejected : Prop} (last : DeniedLast es' rejected)
    (free : ∀ e ∈ es, e.denied = false) : DeniedLast (es ++ es') rejected := by
  constructor
  · intro h
    obtain ⟨before, name, arguments, outcome, rfl, none⟩ := last.1 h
    refine ⟨es ++ before, name, arguments, outcome, (List.append_assoc ..).symm, ?_⟩
    intro e member
    rcases List.mem_append.mp member with first | second
    · exact free e first
    · exact none e second
  · intro h e member
    rcases List.mem_append.mp member with first | second
    · exact free e first
    · exact last.2 h e second

theorem CallRun.books {call : ToolCall} {denied : Bool} (ran : CallRun a call s l denied after) :
    ∃ outcome, Booked a s [.call call.name call.arguments outcome denied] after ∧
      ∀ l' es, Account a l' es →
        Account a (.told (.started call.name call.arguments) :: .polled false :: (l ++ l'))
          (.call call.name call.arguments outcome denied :: es) := by
  cases ran with
  | @intro raw seg outcome b t executed ran gate =>
    refine ⟨outcome, booked_ofResult s call outcome _ t, ?_⟩
    intro l' es account
    have ended : Account a ([.told (.finished call.name (resultOf call outcome).success), ⟨.now, t⟩] ++ l')
        ([] ++ es) := account_append (account_uncounted rfl) account
    rw [List.append_assoc]
    exact .call _ _ ran ended

theorem CallsRun.books {calls : List ToolCall} {n : Nat} {status : Option TurnStatus}
    (ran : CallsRun a calls s l n status after) :
    ∃ es, Account a l es ∧ Booked a s es after ∧ es.countP Entry.isCall = n ∧
      (es.map Entry.tokens).sum = 0 ∧ DeniedLast es (status = some .rejected) := by
  induction ran with
  | none s =>
    exact ⟨[], .nil, .of_frame (List.prefix_refl _) rfl rfl rfl, rfl, rfl,
      deniedLast_of_not (by simp) (by simp)⟩
  | unstarted call later s =>
    exact ⟨[], .unstarted _ _ .nil, .of_frame (List.prefix_refl _) rfl rfl rfl, rfl, rfl,
      deniedLast_of_not (by simp) (by simp)⟩
  | denied later ran =>
    obtain ⟨outcome, booked, account⟩ := ran.books
    exact ⟨_, by simpa using account [] [] .nil, booked, rfl, rfl,
      fun _ => ⟨[], _, _, outcome, rfl, by simp⟩, fun wrong => absurd rfl wrong⟩
  | stopped later ran =>
    obtain ⟨outcome, booked, account⟩ := ran.books
    exact ⟨_, account [.polled true] [] (account_uncounted rfl), booked, rfl, rfl,
      deniedLast_of_not (by simp) (by simp [Entry.denied])⟩
  | @next call later s m after l rest n status ran onward ih =>
    obtain ⟨outcome, booked, account⟩ := ran.books
    obtain ⟨es, rests, kept, count, tokens, last⟩ := ih
    refine ⟨.call call.name call.arguments outcome false :: es,
      account (.polled false :: rest) es (.other rfl rests), booked.trans kept, ?_, ?_, ?_⟩
    · rw [List.countP_cons, count]
      rfl
    · rw [List.map_cons, List.sum_cons, tokens]
      rfl
    · have free : ∀ e ∈ [Entry.call call.name call.arguments outcome false], e.denied = false := by
        simp [Entry.denied]
      exact last.behind free

theorem roundHeard_account {asked calls : List Heard} {r : Reply} (t : Int)
    (replied : Account a asked [.reply r]) (called : Account a calls es) :
    Account a (roundHeard asked t r calls) (.reply r :: es) := by
  have told : Account a (⟨.now, t⟩ :: besidesTold r) [] :=
    .other rfl (account_uncounted (uncounted_besides r))
  have moved : Account a (movedTo toolCall) [] := account_uncounted rfl
  have whole := account_append (account_append (account_append replied told) moved) called
  simpa [roundHeard] using Account.other (h := .polled false) rfl whole

theorem booked_round {r : Reply} {t : Int} {window : Nat}
    (called : Booked a ((Effect.ofReply r window s).addMessage (.calling r.content r.calls) t) es
      after) :
    Booked a s (.reply r :: es) after :=
  ((booked_ofReply s r window).trans (booked_addMessage _ _ t)).trans called

theorem DeniedLast.reply {rejected : Prop} (last : DeniedLast es rejected) (r : Reply) :
    DeniedLast (.reply r :: es) rejected := by
  have free : ∀ e ∈ [Entry.reply r], e.denied = false := by simp [Entry.denied]
  exact last.behind free

theorem roundTally_books (tally : TurnTally) (r : Reply) {n : Nat}
    (count : es.countP Entry.isCall = n) (tokens : (es.map Entry.tokens).sum = 0) :
    (countCalls (besidesTally (countTokens tally r) r) n).toolCalls =
      tally.toolCalls + (Entry.reply r :: es).countP Entry.isCall ∧
    (countCalls (besidesTally (countTokens tally r) r) n).tokens =
      tally.tokens + ((Entry.reply r :: es).map Entry.tokens).sum := by
  subst count
  rw [List.map_cons, List.sum_cons, tokens]
  unfold besidesTally
  split
  · exact ⟨rfl, rfl⟩
  · exact ⟨rfl, rfl⟩

/-- The rounds of a turn, with their account. -/
theorem RoundsRun.books {system : Message} {key : String} {tally : TurnTally} {done left : Nat}
    {o : Outcome TurnReport} {b : TurnState}
    (derived : RoundsRun a system key tally done left s l o after b) :
    ∃ es, Account a l es ∧ Booked a s es after ∧
      (∀ r, o = .ok r → r.toolCalls = tally.toolCalls + es.countP Entry.isCall ∧
        r.tokens = tally.tokens + (es.map Entry.tokens).sum) ∧
      DeniedLast es (∃ r, o = .ok r ∧ r.status = .rejected) := by
  induction derived with
  | interrupted tally done left s =>
    refine ⟨[], account_uncounted rfl, .of_frame (List.prefix_refl _) rfl rfl rfl, ?_,
      deniedLast_of_not ?_ (by simp)⟩
    · rintro _ ⟨⟩
      exact ⟨rfl, rfl⟩
    · rintro ⟨_, ⟨⟩, wrong⟩
      cases wrong
  | abandoned tally done left s queried =>
    refine ⟨[], .other rfl queried.account, .of_frame (List.prefix_refl _) rfl rfl rfl, ?_,
      deniedLast_of_not ?_ (by simp)⟩
    · rintro _ ⟨⟩
      exact ⟨rfl, rfl⟩
    · rintro ⟨_, ⟨⟩, wrong⟩
      cases wrong
  | failed tally done left s queried =>
    refine ⟨[], .other rfl queried.account, .of_frame (List.prefix_refl _) rfl rfl rfl, ?_,
      deniedLast_of_not ?_ (by simp)⟩
    · rintro _ ⟨⟩
    · rintro ⟨_, wrong, -⟩
      cases wrong
  | @answered tally done left s l r t queried final =>
    refine ⟨[.reply r], ?_, (booked_ofReply s r _).trans (booked_addMessage _ _ t), ?_,
      deniedLast_of_not ?_ (by simp [Entry.denied])⟩
    · have ends : Account a (⟨.now, t⟩ :: .told (.response r.content) :: movedTo ready) [] :=
        account_uncounted rfl
      exact account_append (Account.other rfl queried.account) ends
    · rintro _ ⟨⟩
      exact ⟨rfl, by simp [countTokens, TurnTally.report, Entry.tokens]⟩
    · rintro ⟨_, ⟨⟩, wrong⟩
      cases wrong
  | @ended tally done left s l calls r n status after t queried calling ran =>
    obtain ⟨es, account, booked, count, tokens, last⟩ := ran.books
    refine ⟨.reply r :: es, roundHeard_account t queried.account account, booked_round booked, ?_, ?_⟩
    · rintro _ ⟨⟩
      exact roundTally_books tally r count tokens
    · have ends := last.reply r
      simpa [TurnTally.report] using ends
  | @limit tally done s l calls r n after t t' queried calling ran =>
    obtain ⟨es, account, booked, count, tokens, last⟩ := ran.books
    have rounds := roundHeard_account t queried.account account
    have ends : Account a (movedTo thinking ++ ⟨.now, t'⟩ :: movedTo ready) [] :=
      account_uncounted rfl
    have booked' := (booked_round booked).trans (booked_addMessage _ (.assistant (limitNote (done + 1))) t')
    refine ⟨.reply r :: es, ?_, by simpa using booked', ?_, ?_⟩
    · simpa using account_append rounds ends
    · rintro _ ⟨⟩
      exact roundTally_books tally r count tokens
    · refine deniedLast_of_not ?_ ((last.reply r).2 (by simp))
      rintro ⟨_, ⟨⟩, wrong⟩
      cases wrong
  | @next tally done left s l calls rest r n m after o b t queried calling ran onward ih =>
    obtain ⟨es, account, booked, count, tokens, last⟩ := ran.books
    obtain ⟨es', accounts, booked', report, last'⟩ := ih
    have rounds := roundHeard_account t queried.account account
    have moved : Account a (movedTo thinking) [] := account_uncounted rfl
    refine ⟨(.reply r :: es) ++ es', ?_, (booked_round booked).trans booked', ?_, ?_⟩
    · simpa using account_append (account_append rounds moved) accounts
    · intro report' same
      obtain ⟨calls', tokens'⟩ := report report' same
      obtain ⟨called, spent⟩ := roundTally_books tally r count tokens
      rw [calls', tokens', called, spent, List.countP_append, List.map_append, List.sum_append]
      exact ⟨Nat.add_assoc .., Nat.add_assoc ..⟩
    · exact last'.behind ((last.reply r).2 (by simp))

end

/-- The session that is stored under an id after a run, when one was stored before it. -/
def stored (id : String) : Option Session → List Heard → Option Session :=
  List.foldl fun kept h =>
    match h with
    | ⟨.sessions (.save s), .ok _⟩ => if s.id = id then some s else kept
    | ⟨.sessions (.delete other), .ok _⟩ => if other = id then none else kept
    | ⟨.sessions .clear, .ok _⟩ => none
    | _ => kept

/-- The books of a whole turn with an account and an outcome. -/
structure Books (a : Agent) (s : Session) (es : List Entry) (o : Outcome TurnReport)
    (s' : Session) : Prop where
  history : s.history <+: s'.history
  /-- A turn that failed or was interrupted leaves no messages behind. -/
  rolledBack : (∀ r, o = .ok r → r.status = .interrupted) → s'.history = s.history
  toolCalls : s'.stats.toolCalls = s.stats.toolCalls + es.countP Entry.isCall
  tokens : s'.stats.totalTokens = s.stats.totalTokens + (es.map Entry.tokens).sum
  editsApplied : s'.stats.editsApplied =
    s.stats.editsApplied + (es.filterMap Entry.change?).length
  undoStack : s'.undoStack = ((es.filterMap Entry.change?).foldl Session.pushUndo s).undoStack
  rejected : ∀ r, o = .ok r → r.status = .rejected → ∃ before name arguments outcome,
    es = before ++ [.call name arguments outcome true] ∧
    s'.stats.editsRejected = s.stats.editsRejected + if isEdit a name then 1 else 0
  notRejected : (∀ r, o = .ok r → r.status ≠ .rejected) →
    s'.stats.editsRejected = s.stats.editsRejected
  reported : ∀ r, o = .ok r → r.toolCalls = es.countP Entry.isCall ∧
    r.tokens = (es.map Entry.tokens).sum

section

variable {a : Agent} {s m after : Session} {es : List Entry} {l : List Heard}

theorem countP_rejectedEdit (free : ∀ e ∈ es, e.denied = false) :
    es.countP (Entry.rejectedEdit a) = 0 := by
  rw [List.countP_eq_zero]
  intro e member
  have allowed := free e member
  cases e with
  | reply r => simp [Entry.rejectedEdit]
  | call name arguments outcome denied =>
    obtain rfl : denied = false := allowed
    simp [Entry.rejectedEdit]

theorem books_closed {o : Outcome TurnReport} {t : Int} (booked : Booked a s es m)
    (report : ∀ r, o = .ok r → r.toolCalls = es.countP Entry.isCall ∧
      r.tokens = (es.map Entry.tokens).sum)
    (last : DeniedLast es (∃ r, o = .ok r ∧ r.status = .rejected)) :
    Books a s es o (closed s.history.length o m t) := by
  have taken : m.history.take s.history.length = s.history :=
    (List.prefix_iff_eq_take.mp booked.history).symm
  have fields : (closed s.history.length o m t).stats = m.stats ∧
      (closed s.history.length o m t).undoStack = m.undoStack ∧
      (closed s.history.length o m t).history =
        if keepsMessages o then m.history else s.history := by
    unfold closed
    cases keepsMessages o with
    | true => exact ⟨rfl, rfl, rfl⟩
    | false => exact ⟨rfl, rfl, taken⟩
  obtain ⟨stats, undoStack, history⟩ := fields
  constructor
  · rw [history]
    split
    · exact booked.history
    · exact List.prefix_refl _
  · intro interrupted
    have drops : keepsMessages o = false := by
      cases o with
      | error f => rfl
      | ok r => simp [keepsMessages, interrupted r rfl]
    rw [history, drops]
    rfl
  · rw [stats, booked.toolCalls]
  · rw [stats, booked.tokens]
  · rw [stats, booked.editsApplied]
  · rw [undoStack, booked.undoStack]
  · intro r same status
    obtain ⟨before, name, arguments, outcome, rfl, free⟩ := last.1 ⟨r, same, status⟩
    refine ⟨before, name, arguments, outcome, rfl, ?_⟩
    rw [stats, booked.editsRejected, List.countP_append, countP_rejectedEdit free, Nat.zero_add]
    simp [Entry.rejectedEdit, List.countP_cons]
  · intro other
    have none : ¬ ∃ r, o = .ok r ∧ r.status = .rejected := fun ⟨r, same, status⟩ => other r same status
    rw [stats, booked.editsRejected, countP_rejectedEdit (last.2 none), Nat.add_zero]
  · exact report

/-- The account of a turn, with the books of the outcome that it had before the session was saved. -/
theorem TurnRun.account {input : String} {o : Outcome TurnReport}
    (ran : TurnRun a s input ready l o after) :
    ∃ es inner saved, Account a l es ∧ Books a s es inner after ∧ o = savedOutcome inner saved ∧
      ∃ front, l = front ++ [⟨.sessions (.save after), saved⟩] := by
  cases ran with
  | refused notReady => exact absurd rfl notReady
  | @ran l o m b text t t' listed saved rounds =>
    obtain ⟨es, account, booked, report, last⟩ := rounds.books
    have opens : Account a (opening (retryKey s.id) t listed) [] := account_uncounted rfl
    have closes : Account a (closing o b) [] := account_uncounted (uncounted_closing o b)
    have ends : Account a [⟨.now, t'⟩,
        ⟨.sessions (.save (closed s.history.length o m t')), saved⟩] [] := account_uncounted rfl
    refine ⟨es, o, saved, ?_, books_closed ((booked_opened s input t).trans booked) ?_ last, rfl,
      opening (retryKey s.id) t listed ++ l ++ closing o b ++ [⟨.now, t'⟩], by simp⟩
    · have whole := account_append (account_append (account_append opens account) closes) ends
      simpa using whole
    · intro r same
      obtain ⟨calls, tokens⟩ := report r same
      exact ⟨by rw [calls, TurnTally.zero, Nat.zero_add], by rw [tokens, TurnTally.zero, Nat.zero_add]⟩

theorem TurnRun.books {input : String} {o : Outcome TurnReport}
    (ran : TurnRun a s input ready l o after)
    (saves : ∀ saved r, (⟨.sessions (.save saved), r⟩ : Heard) ∈ l → r = .ok ()) :
    ∃ es, Account a l es ∧ Books a s es o after ∧
      ∀ before, stored after.id before l = some after := by
  obtain ⟨es, inner, saved, account, books, rfl, front, rfl⟩ := ran.account
  obtain rfl : saved = .ok () := saves after saved (by simp)
  refine ⟨es, account, books, fun before => ?_⟩
  rw [stored, List.foldl_append]
  simp

/-- The books of a turn are exact in every outcome: they follow from the one account of what was heard.
A turn that is refused changes nothing. -/
theorem run_keeps_books {input : String} {start b : TurnState} {o : Outcome TurnReport}
    {path : List TurnState} (contained : a.registry.Contained)
    (run : Act.Trace (Turn.run a s input) l (o, after)) (walk : Walk start l path b)
    (saves : ∀ saved r, (⟨.sessions (.save saved), r⟩ : Heard) ∈ l → r = .ok ()) :
    (start = ready → ∃ es, (∀ other, Account a l other ↔ other = es) ∧ Books a s es o after ∧
      ∀ before, stored after.id before l = some after) ∧
    (start ≠ ready → l = [⟨.turn .state, start⟩] ∧ o = .error busy ∧ after = s) := by
  obtain ⟨derived, -, -⟩ := trace_run contained run walk
  constructor
  · rintro rfl
    obtain ⟨es, account, books, kept⟩ := derived.books saves
    refine ⟨es, ?_, books, kept⟩
    intro other
    exact ⟨fun same => same.unique account, fun same => same ▸ account⟩
  · intro notReady
    cases derived with
    | refused => exact ⟨rfl, rfl, rfl⟩
    | ran => exact absurd rfl notReady

end

theorem run_keeps_books_insistent :
    ∃ l es after, l = World.heard denying insistentTurn emptyWorld ∧ Account insistentAgent l es ∧
      after.stats.toolCalls = 1 ∧ after.stats.editsRejected = 1 ∧
      stored after.id none l = some after := by
  obtain ⟨path, walk⟩ := World.walk_run denying insistentTurn emptyWorld
  have run := World.trace_run_pair denying insistentTurn emptyWorld
  obtain ⟨ready, -⟩ := run_keeps_books insistent_contained run walk
    fun saved r member => World.saved_of_heard member
  obtain ⟨es, account, books, kept⟩ := ready rfl
  exact ⟨_, es, _, rfl, (account es).mpr rfl, by decide +kernel, by decide +kernel, kept none⟩

end CodeAgent.Turn
