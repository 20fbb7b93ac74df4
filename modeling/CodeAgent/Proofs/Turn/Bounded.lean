import CodeAgent.Proofs.Turn.Conversation
import CodeAgent.Proofs.Turn.Recovering

/-! How long a turn goes on.
It ends whatever it hears. Each of its queries begins with no retry counted, so it is asked once more
than may be retried at most; and a query is followed by another only when the calls of its reply were
all run, which happens once less than the rounds that are allowed. -/
namespace CodeAgent

namespace Act

/-- Whoever answers goes by what was heard before and by what is asked. -/
def Answered (behave : List Heard → (q : Ask) → q.Answer) : (before l : List Heard) → Prop
  | _, [] => True
  | before, h :: l => h.answer = behave before h.question ∧ Answered behave (before ++ [h]) l

/-- A program ends whoever answers. -/
theorem ends (p : Act α) (behave : List Heard → (q : Ask) → q.Answer) (before : List Heard) :
    ∃ l a, Trace p l a ∧ Answered behave before l := by
  induction p generalizing before with
  | done a => exact ⟨[], a, .done a, trivial⟩
  | ask q next ih =>
    obtain ⟨l, a, run, answered⟩ := ih (behave before q) (before ++ [⟨q, behave before q⟩])
    exact ⟨_, a, .ask q next _ run, rfl, answered⟩

end Act

namespace Heard

/-- A reply of the model. -/
def reply? : Heard → Option Reply
  | ⟨.chat _ _, .reply r⟩ => some r
  | _ => none

def asksModel (h : Heard) : Bool := h.sent?.isSome

/-- Word that the turn is cancelled. -/
def cancels : Heard → Bool
  | ⟨.cancelled, stop⟩ => stop
  | ⟨.chat _ _, .cancelled⟩ => true
  | _ => false

theorem asksModel_of_reply? {h : Heard} {r : Reply} (replied : h.reply? = some r) :
    h.asksModel = true := by
  obtain ⟨q, answer⟩ := h
  cases q with
  | chat => rfl
  | _ => cases replied

end Heard

/-- The replies of the model, in their order. -/
def replies (l : List Heard) : List Reply := l.filterMap Heard.reply?

@[simp] theorem replies_append (l₁ l₂ : List Heard) : replies (l₁ ++ l₂) = replies l₁ ++ replies l₂ :=
  List.filterMap_append ..

/-- The model is asked again where a retry is decided, and only there. -/
def Obeyed : List Heard → Prop
  | [] => True
  | ⟨.decide _ _, d⟩ :: l => (d.remedy = .retry ↔ l.head?.any Heard.asksModel) ∧ Obeyed l
  | _ :: l => Obeyed l

section

variable {l rest : List Heard}

/-- Neither the model is asked nor the recovery. -/
def Heard.modelFree (h : Heard) : Bool := !h.asksModel && !h.toRecovery

theorem obeyed_cons {h : Heard} (elsewhere : h.toRecovery = false) : Obeyed (h :: l) ↔ Obeyed l := by
  obtain ⟨q, answer⟩ := h
  cases q with
  | decide => cases elsewhere
  | _ => rfl

theorem obeyed_modelFree (free : l.all Heard.modelFree = true) : Obeyed (l ++ rest) ↔ Obeyed rest := by
  induction l with
  | nil => rfl
  | cons h l ih =>
    obtain ⟨first, later⟩ := Bool.and_eq_true_iff.mp free
    have elsewhere : h.toRecovery = false := by
      simpa using (Bool.and_eq_true_iff.mp first).2
    exact (obeyed_cons elsewhere).trans (ih later)

theorem sent_modelFree (free : l.all Heard.modelFree = true) : sent l = [] := by
  refine List.filterMap_eq_nil_iff.mpr fun h member => ?_
  simpa [Heard.asksModel] using (Bool.and_eq_true_iff.mp (List.all_eq_true.mp free h member)).1

theorem recovers_modelFree {r r' : Recovery} (free : l.all Heard.modelFree = true) :
    Recovers r (l ++ rest) r' ↔ Recovers r rest r' :=
  recovers_elsewhere fun h member => by
    simpa using (Bool.and_eq_true_iff.mp (List.all_eq_true.mp free h member)).2

theorem replies_of_unsent (unsent : sent l = []) : replies l = [] := by
  refine List.filterMap_eq_nil_iff.mpr fun h member => ?_
  have none := List.filterMap_eq_nil_iff.mp unsent h member
  cases replied : h.reply? with
  | none => rfl
  | some r =>
    have asks := Heard.asksModel_of_reply? replied
    simp [Heard.asksModel, none] at asks

end

namespace Turn

open TurnState

section

variable {a : Agent} {s m after : Session} {l : List Heard} {r r' : Recovery}

/- Calls leave the model alone -/

theorem Gated.modelFree {b c : TurnState} {raw seg : List Heard} (gate : Gated b raw seg c) :
    seg.all Heard.modelFree = true := by
  induction gate with
  | nil => rfl
  | @other _ _ h _ _ tool _ _ ih =>
    obtain ⟨q, answer⟩ := h
    cases q <;> first | exact ih | exact tool.elim
  | approved _ ih => exact ih
  | denied _ ih => exact ih
  | again _ ih => exact ih

theorem CallRun.modelFree {call : ToolCall} {denied : Bool} (ran : CallRun a call s l denied after) :
    l.all Heard.modelFree = true := by
  cases ran with
  | intro _ _ _ gate =>
    rw [List.all_append, gate.modelFree]
    rfl

theorem CallsRun.modelFree {calls : List ToolCall} {n : Nat} {status : Option TurnStatus}
    (ran : CallsRun a calls s l n status after) : l.all Heard.modelFree = true := by
  induction ran with
  | none => rfl
  | unstarted => rfl
  | denied _ ran => exact ran.modelFree
  | @stopped _ _ _ l _ ran =>
    change (l ++ [Heard.polled true]).all Heard.modelFree = true
    rw [List.all_append, ran.modelFree]
    rfl
  | @next _ _ _ _ _ l rest _ _ ran _ ih =>
    change (l ++ Heard.polled false :: rest).all Heard.modelFree = true
    rw [List.all_append, ran.modelFree]
    exact ih

/-- What is heard of a round behind its query. -/
theorem modelFree_behind {calls : List Heard} (t : Int) (reply : Reply)
    (free : calls.all Heard.modelFree = true) :
    (⟨.now, t⟩ :: besidesTold reply ++ movedTo toolCall ++ calls).all Heard.modelFree = true := by
  have told : (besidesTold reply).all Heard.modelFree = true := by
    unfold besidesTold
    split <;> rfl
  rw [List.all_append, List.all_append, free, List.all_cons, told]
  rfl

/- A query -/

/-- A query that is asked with no retry counted: so many requests for one conversation. -/
structure Attempted (key : String) (messages : List Message) (r : Recovery) (l : List Heard)
    (o : Option (Outcome Reply)) (r' : Recovery) (n : Nat) : Prop where
  said : sent l = List.replicate n messages
  few : n ≤ r.options.maxRetries + 1
  forgiven : ∀ reply, o = some (.ok reply) → r'.retryCount key = 0
  obeyed : ∀ rest, rest.head?.any Heard.asksModel = false → Obeyed rest → Obeyed (l ++ rest)

/-- Each attempt that failed was followed by a retry, which was counted. -/
structure Retried (key : String) (messages : List Message) (r : Recovery) (l : List Heard)
    (r' : Recovery) (n : Nat) : Prop where
  length : l.length = 2 * n
  said : sent l = List.replicate n messages
  counted : r'.retryCount key = r.retryCount key + n
  bounded : r.retryCount key ≤ r.options.maxRetries → r'.retryCount key ≤ r.options.maxRetries
  obeyed : ∀ rest, rest.head?.any Heard.asksModel = true → Obeyed rest →
    (l ++ rest).head?.any Heard.asksModel = true ∧ Obeyed (l ++ rest)

section

variable {messages : List Message} {tools : List ToolDefinition} {key : String}

theorem Asked.retried (asked : Asked messages tools key l) (recovers : Recovers r l r') :
    ∃ n, Retried key messages r l r' n := by
  induction asked generalizing r with
  | nil =>
    obtain rfl := recovers_nil.mp recovers
    exact ⟨0, rfl, rfl, rfl, id, fun rest asks obeyed => ⟨asks, obeyed⟩⟩
  | @again e d retried l rest ih =>
    obtain ⟨choice, r₁, decides, onward⟩ := recovers_decide.mp ((recovers_other rfl).mp recovers)
    obtain ⟨n, later⟩ := ih onward
    have room := decides.room retried
    have once := decides.counted retried
    have counted := later.counted
    refine ⟨n + 1, ?_, ?_, by omega, fun _ => ?_, fun rest asks obeys => ?_⟩
    · rw [List.length_cons, List.length_cons, later.length]
      omega
    · exact congrArg (messages :: ·) later.said
    · rw [← decides.options]
      refine later.bounded ?_
      rw [decides.options]
      omega
    · obtain ⟨again, obeyed⟩ := later.obeyed rest asks obeys
      exact ⟨rfl, iff_of_true retried again, obeyed⟩

theorem Queried.attempted {o : Option (Outcome Reply)}
    (queried : Queried messages tools key r.options.maxRetries l o) (recovers : Recovers r l r')
    (fresh : r.retryCount key = 0) : ∃ n, Attempted key messages r l o r' n := by
  -- after the retries that were made there is one request more
  have last {l₀ : List Heard} {m : Recovery} {n : Nat} (retried : Retried key messages r l₀ m n)
      (tail : List Heard) (once : sent tail = [messages]) :
      sent (l₀ ++ tail) = List.replicate (n + 1) messages ∧ n + 1 ≤ r.options.maxRetries + 1 := by
    have counted := retried.counted
    have bounded := retried.bounded (by omega)
    exact ⟨by rw [sent_append, retried.said, once, List.replicate_succ'], by omega⟩
  cases queried with
  | cancelled asked =>
    obtain ⟨m, first, -⟩ := recovers_append.mp recovers
    obtain ⟨n, retried⟩ := asked.retried first
    obtain ⟨said, few⟩ := last retried [⟨.chat messages tools, .cancelled⟩, ⟨.abort, ()⟩] rfl
    refine ⟨n + 1, said, few, nofun, fun rest _ obeys => ?_⟩
    rw [List.append_assoc]
    exact (retried.obeyed ([_, _] ++ rest) rfl obeys).2
  | @failed l₀ e d asked heeded =>
    obtain ⟨m, first, second⟩ := recovers_append.mp recovers
    obtain ⟨n, retried⟩ := asked.retried first
    obtain ⟨said, few⟩ :=
      last retried [⟨.chat messages tools, .failed e⟩, ⟨.decide e.toFault key, d⟩] rfl
    obtain ⟨choice, r₁, decides, -⟩ := recovers_decide.mp ((recovers_other rfl).mp second)
    -- a retry that is not made would be one more than may be decided
    have other : ¬ d.remedy = .retry := fun retry => by
      have room := decides.room retry
      have length := retried.length
      have counted := retried.counted
      have heeded := heeded retry
      have options := first.options
      rw [options] at room
      omega
    refine ⟨n + 1, said, few, nofun, fun rest ends obeys => ?_⟩
    rw [List.append_assoc]
    have heeds : Obeyed ([⟨.chat messages tools, .failed e⟩, ⟨.decide e.toFault key, d⟩] ++ rest) :=
      ⟨iff_of_false other (by simpa using ends), obeys⟩
    exact (retried.obeyed ([_, _] ++ rest) rfl heeds).2
  | @replied l₀ reply asked =>
    obtain ⟨m, first, second⟩ := recovers_append.mp recovers
    obtain ⟨n, retried⟩ := asked.retried first
    obtain ⟨said, few⟩ := last retried [⟨.chat messages tools, .reply reply⟩, ⟨.forgive key, ()⟩] rfl
    obtain rfl := recovers_nil.mp (recovers_forgive.mp ((recovers_other rfl).mp second))
    refine ⟨n + 1, said, few, fun _ _ => ?_, fun rest _ obeys => ?_⟩
    · rw [Recovery.retryCount, Recovery.reset, Table.get?_erase_self]
      rfl
    · rw [List.append_assoc]
      exact (retried.obeyed ([_, _] ++ rest) rfl obeys).2

end

/- Rounds -/

/-- So many rounds with no more requests for each than retries allow, and each decision heeded. -/
structure Limited (r : Recovery) (l : List Heard) (rounds : Nat) : Prop where
  sends : (sent l).length ≤ rounds * (r.options.maxRetries + 1)
  each : ∀ messages, (sent l).count messages ≤ r.options.maxRetries + 1
  obeyed : ∀ rest, rest.head?.any Heard.asksModel = false → Obeyed rest → Obeyed (l ++ rest)

theorem ends_append {l rest : List Heard} (here : l.head?.any Heard.asksModel = false)
    (there : rest.head?.any Heard.asksModel = false) :
    (l ++ rest).head?.any Heard.asksModel = false := by
  cases l with
  | nil => exact there
  | cons => exact here

theorem ends_modelFree {tail : List Heard} (free : tail.all Heard.modelFree = true) :
    tail.head?.any Heard.asksModel = false := by
  cases tail with
  | nil => rfl
  | cons h tail =>
    simpa using (Bool.and_eq_true_iff.mp (Bool.and_eq_true_iff.mp free).1).1

/-- A query and what is heard behind it make one round. -/
theorem Attempted.limited {key : String} {messages : List Message} {o : Option (Outcome Reply)} {n : Nat}
    {tail : List Heard} (attempted : Attempted key messages r l o r' n)
    (free : tail.all Heard.modelFree = true) : Limited r (.polled false :: (l ++ tail)) 1 := by
  have said : sent (.polled false :: (l ++ tail)) = List.replicate n messages := by
    change sent (l ++ tail) = _
    rw [sent_append, sent_modelFree free, List.append_nil, attempted.said]
  refine ⟨?_, fun ms => ?_, fun rest ends obeys => ?_⟩
  · rw [said, List.length_replicate, Nat.one_mul]
    exact attempted.few
  · rw [said]
    exact List.count_le_length.trans (List.length_replicate ▸ attempted.few)
  · change Obeyed (l ++ tail ++ rest)
    rw [List.append_assoc]
    exact attempted.obeyed _ (ends_append (ends_modelFree free) ends) ((obeyed_modelFree free).mpr obeys)

theorem Limited.interrupted (r : Recovery) (rounds : Nat) : Limited r [.polled true] rounds :=
  ⟨Nat.zero_le _, fun _ => Nat.zero_le _, fun _ _ obeys => obeys⟩

theorem Limited.mono {rounds more : Nat} (limited : Limited r l rounds) (le : rounds ≤ more) :
    Limited r l more :=
  { limited with sends := limited.sends.trans (Nat.mul_le_mul_right _ le) }

/-- The next rounds are about other conversations. -/
theorem Limited.next {l' : List Heard} {rounds : Nat} (first : Limited r l 1)
    (later : Limited r l' rounds) (starts : l'.head?.any Heard.asksModel = false)
    (apart : ∀ ms ∈ sent l, ms ∉ sent l') : Limited r (l ++ l') (rounds + 1) where
  sends := by
    have here := first.sends
    have there := later.sends
    rw [sent_append, List.length_append, Nat.add_mul]
    omega
  each ms := by
    rw [sent_append, List.count_append]
    by_cases here : ms ∈ sent l
    · rw [List.count_eq_zero.mpr (apart ms here)]
      exact first.each ms
    · rw [List.count_eq_zero.mpr here, Nat.zero_add]
      exact later.each ms
  obeyed rest ends obeys := by
    rw [List.append_assoc]
    exact first.obeyed _ (ends_append starts ends) (later.obeyed rest ends obeys)

theorem roundHeard_eq (asked calls : List Heard) (t : Int) (reply : Reply) :
    roundHeard asked t reply calls =
      .polled false :: (asked ++ (⟨.now, t⟩ :: besidesTold reply ++ movedTo toolCall ++ calls)) := by
  simp [roundHeard]

theorem RoundsRun.starts {system : Message} {key : String} {tally : TurnTally} {done left : Nat}
    {o : Outcome TurnReport} {b : TurnState}
    (derived : RoundsRun a system key tally done left s l o after b) :
    l.head?.any Heard.asksModel = false := by
  cases derived <;> rfl

/-- The rounds of a turn, when no retry is counted at first. -/
theorem RoundsRun.limited {system : Message} {key : String} {tally : TurnTally} {done left : Nat}
    {o : Outcome TurnReport} {b : TurnState}
    (derived : RoundsRun a system key tally done left s l o after b) (recovers : Recovers r l r')
    (allowed : r.options.maxRetries = a.maxRetries) (fresh : r.retryCount key = 0) :
    Limited r l (left + 1) := by
  induction derived generalizing r with
  | interrupted => exact .interrupted r _
  | abandoned _ _ _ _ queried | failed _ _ _ _ queried =>
    obtain ⟨n, attempted⟩ := (allowed ▸ queried).attempted ((recovers_other rfl).mp recovers) fresh
    have nothing : ([] : List Heard).all Heard.modelFree = true := rfl
    have limited := attempted.limited nothing
    rw [List.append_nil] at limited
    exact limited.mono (by omega)
  | answered _ _ _ _ t queried =>
    obtain ⟨m, first, -⟩ := recovers_append.mp ((recovers_other rfl).mp recovers)
    obtain ⟨n, attempted⟩ := (allowed ▸ queried).attempted first fresh
    exact (attempted.limited rfl).mono (by omega)
  | ended _ _ _ _ t queried _ ran =>
    rw [roundHeard_eq] at recovers ⊢
    obtain ⟨m, first, -⟩ := recovers_append.mp ((recovers_other rfl).mp recovers)
    obtain ⟨n, attempted⟩ := (allowed ▸ queried).attempted first fresh
    exact (attempted.limited (modelFree_behind t _ ran.modelFree)).mono (by omega)
  | @limit _ _ _ l₀ calls reply n after t t' queried _ ran =>
    have whole : roundHeard l₀ t reply calls ++ movedTo thinking ++ ⟨.now, t'⟩ :: movedTo ready =
        .polled false :: (l₀ ++ (⟨.now, t⟩ :: besidesTold reply ++ movedTo toolCall ++ calls ++
          (movedTo thinking ++ ⟨.now, t'⟩ :: movedTo ready))) := by
      simp [roundHeard_eq]
    rw [whole] at recovers ⊢
    obtain ⟨m, first, -⟩ := recovers_append.mp ((recovers_other rfl).mp recovers)
    obtain ⟨n, attempted⟩ := (allowed ▸ queried).attempted first fresh
    refine (attempted.limited ?_).mono (by omega)
    rw [List.all_append, modelFree_behind t _ ran.modelFree]
    rfl
  | @next _ _ _ s l₀ calls rest reply n m after o b t queried _ ran onward ih =>
    have whole : roundHeard l₀ t reply calls ++ movedTo thinking ++ rest =
        .polled false :: (l₀ ++ (⟨.now, t⟩ :: besidesTold reply ++ movedTo toolCall ++ calls ++
          movedTo thinking)) ++ rest := by
      simp [roundHeard_eq]
    have free : (⟨.now, t⟩ :: besidesTold reply ++ movedTo toolCall ++ calls ++
        movedTo thinking).all Heard.modelFree = true := by
      rw [List.all_append, modelFree_behind t _ ran.modelFree]
      rfl
    rw [whole] at recovers ⊢
    obtain ⟨r₂, first, second⟩ := recovers_append.mp recovers
    obtain ⟨r₁, first, behind⟩ := recovers_append.mp ((recovers_other rfl).mp first)
    rw [← List.append_nil (_ ++ movedTo thinking), recovers_modelFree free] at behind
    obtain rfl := recovers_nil.mp behind
    obtain ⟨n, attempted⟩ := (allowed ▸ queried).attempted first fresh
    have later := ih second (by rw [first.options, allowed]) (attempted.forgiven _ rfl)
    refine (attempted.limited free).next ⟨?_, ?_, later.obeyed⟩ onward.starts ?_
    · rw [← first.options]
      exact later.sends
    · rw [← first.options]
      exact later.each
    · -- by then the history has grown
      intro ms here there
      have asked : ms ∈ sent l₀ := by
        change ms ∈ sent (l₀ ++ _) at here
        rwa [sent_append, sent_modelFree free, List.append_nil] at here
      obtain ⟨history, same, behind, -⟩ := onward.sends ms there
      obtain ⟨results, grown, -⟩ := ran.messages
      rw [queried.tallied.1 ms asked] at same
      obtain rfl := (List.cons.inj same).2
      have longer := behind.length_le
      rw [grown, Session.messages_addMessage, messages_ofReply] at longer
      simp at longer

/- The end of the rounds -/

theorem Queried.replies {messages : List Message} {tools : List ToolDefinition} {key : String}
    {retries : Nat} {o : Option (Outcome Reply)} (queried : Queried messages tools key retries l o) :
    replies l = match o with
      | some (.ok reply) => [reply]
      | _ => [] := by
  have tried {l : List Heard} (asked : Asked messages tools key l) : CodeAgent.replies l = [] := by
    induction asked with
    | nil => rfl
    | again _ _ _ ih => exact ih
  cases queried with
  | cancelled asked => rw [replies_append, tried asked]; rfl
  | failed e d asked => rw [replies_append, tried asked]; rfl
  | replied reply asked => rw [replies_append, tried asked]; rfl

theorem Queried.cancels_of_none {messages : List Message} {tools : List ToolDefinition} {key : String}
    {retries : Nat} (queried : Queried messages tools key retries l none) :
    l.any Heard.cancels = true := by
  cases queried with
  | cancelled => rw [List.any_append, Bool.or_eq_true]; exact Or.inr rfl

theorem CallsRun.cancels_of_interrupted {calls : List ToolCall} {n : Nat}
    (ran : CallsRun a calls s l n (some .interrupted) after) : l.any Heard.cancels = true := by
  generalize interrupted : some TurnStatus.interrupted = status at ran
  induction ran with
  | none => cases interrupted
  | unstarted => rfl
  | denied => cases interrupted
  | stopped => simp [Heard.cancels]
  | next _ _ ih => simp [ih interrupted]

/-- The turn stopped for want of rounds. -/
def AtLimit (o : Outcome TurnReport) : Prop := ∃ report, o = .ok report ∧ report.status = .roundLimit

/-- The model replied so many times, always with calls, and approval was never denied. -/
def Insisted (l : List Heard) (rounds : Nat) : Prop :=
  (replies l).length = rounds ∧ (∀ reply ∈ replies l, reply.hasCalls = true) ∧
    l.any Heard.denial = false

/-- What is heard of a round tells its reply, and whether a call was denied. -/
theorem insisted_round {messages : List Message} {tools : List ToolDefinition} {key : String}
    {retries n : Nat} {l₀ calls : List Heard} {reply : Reply} {status : Option TurnStatus} (t : Int)
    (queried : Queried messages tools key retries l₀ (some (.ok reply)))
    (ran : CallsRun a reply.calls s calls n status after) :
    replies (roundHeard l₀ t reply calls) = [reply] ∧
      (roundHeard l₀ t reply calls).any Heard.denial = decide (status = some .rejected) := by
  refine ⟨?_, (roundHeard_tallied t queried.tallied.2 ran.tallied.2).denied⟩
  have silent := replies_of_unsent (sent_modelFree (modelFree_behind t reply ran.modelFree))
  rw [roundHeard_eq]
  change replies (l₀ ++ _) = _
  rw [replies_append, queried.replies, silent, List.append_nil]

theorem RoundsRun.atLimit_iff {system : Message} {key : String} {tally : TurnTally} {done left : Nat}
    {o : Outcome TurnReport} {b : TurnState}
    (derived : RoundsRun a system key tally done left s l o after b)
    (uncancelled : l.any Heard.cancels = false) : AtLimit o ↔ Insisted l (left + 1) := by
  induction derived with
  | interrupted => cases uncancelled
  | @abandoned _ _ _ _ l queried =>
    change l.any Heard.cancels = false at uncancelled
    rw [queried.cancels_of_none] at uncancelled
    cases uncancelled
  | @failed _ _ _ _ l f queried =>
    have unanswered : replies (.polled false :: l) = [] := queried.replies
    refine iff_of_false ?_ fun insisted => by simp [Insisted, unanswered] at insisted
    rintro ⟨report, same, -⟩
    cases same
  | @answered _ _ _ _ l reply t queried final =>
    refine iff_of_false ?_ fun insisted => ?_
    · rintro ⟨report, same, stops⟩
      cases same
      cases stops
    · have answered : reply ∈ replies (.polled false :: l ++
          ⟨.now, t⟩ :: .told (.response reply.content) :: movedTo ready) := by
        change reply ∈ replies (l ++ _)
        rw [replies_append, queried.replies]
        exact List.mem_cons_self
      rw [insisted.2.1 reply answered] at final
      cases final
  | @ended _ _ _ _ l calls reply n status after t queried _ ran =>
    have rejected : status = .rejected := by
      rcases ran.ends.2.2 with none | interrupted | rejected
      · cases none
      · have cancels := (Option.some.inj interrupted ▸ ran).cancels_of_interrupted
        simp [roundHeard, cancels] at uncancelled
      · exact Option.some.inj rejected
    subst rejected
    refine iff_of_false ?_ fun insisted => ?_
    · rintro ⟨report, same, stops⟩
      cases same
      cases stops
    · have denied := (insisted_round t queried ran).2
      rw [insisted.2.2] at denied
      cases denied
  | @limit _ _ _ l₀ calls reply n after t t' queried calling ran =>
    obtain ⟨replied, undenied⟩ := insisted_round t queried ran
    refine iff_of_true ⟨_, rfl, rfl⟩ ?_
    have ends : replies (⟨.now, t'⟩ :: movedTo ready) = [] := rfl
    have moved : replies (movedTo thinking) = [] := rfl
    refine ⟨?_, ?_, ?_⟩
    · rw [replies_append, replies_append, replied, moved, ends]
      rfl
    · rw [replies_append, replies_append, replied, moved, ends]
      simpa using calling
    · rw [List.any_append, List.any_append, undenied]
      rfl
  | @next _ _ left s l₀ calls rest reply n m after o b t queried calling ran onward ih =>
    obtain ⟨replied, undenied⟩ := insisted_round t queried ran
    have moved : replies (movedTo thinking) = [] := rfl
    rw [List.any_append, Bool.or_eq_false_iff] at uncancelled
    rw [ih uncancelled.2, Insisted, Insisted, replies_append, replies_append, replied, moved, List.any_append,
      List.any_append, undenied]
    have quiet : (movedTo thinking).any Heard.denial = false := rfl
    simp [quiet, calling]

/- Turns -/

/-- The last that is heard is that the session was saved. -/
def Saved (l : List Heard) : Prop := ∃ s, l.getLast? = some ⟨.sessions (.save s), .ok ()⟩

/-- What a turn keeps to. -/
structure Bounded (a : Agent) (l : List Heard) (o : Outcome TurnReport) : Prop where
  sends : (sent l).length ≤ max 1 a.maxRounds * (a.maxRetries + 1)
  each : ∀ messages, (sent l).count messages ≤ a.maxRetries + 1
  obeyed : Obeyed l
  atLimit : l.any Heard.cancels = false →
    (AtLimit o ↔ Insisted l (max 1 a.maxRounds) ∧ Saved l)

theorem closing_modelFree (o : Outcome TurnReport) (b : TurnState) :
    (closing o b).all Heard.modelFree = true := by
  cases o with
  | error f => rfl
  | ok report => cases b <;> rfl

theorem atLimit_savedOutcome (o : Outcome TurnReport) (saved : Outcome Unit) :
    AtLimit (savedOutcome o saved) ↔ AtLimit o ∧ saved = .ok () := by
  cases saved with
  | ok u => exact (and_iff_left rfl).symm
  | error f => exact iff_of_false nofun fun both => nomatch both.2

theorem TurnRun.keeps_limits {input : String} {start : TurnState} {o : Outcome TurnReport}
    (ran : TurnRun a s input start l o after) (recovers : Recovers r l r')
    (allowed : r.options.maxRetries = a.maxRetries) : Bounded a l o := by
  cases ran with
  | refused =>
    refine ⟨Nat.zero_le _, fun _ => Nat.zero_le _, trivial, fun _ => iff_of_false nofun fun both => ?_⟩
    have length : 0 = max 1 a.maxRounds := both.1.1
    omega
  | @ran l o m b text t t' listed saved rounds =>
    -- what is heard before the rounds, and behind them
    let front : List Heard := opening (retryKey s.id) t listed
    let back : List Heard :=
      closing o b ++ [⟨.now, t'⟩, ⟨.sessions (.save (closed s.history.length o m t')), saved⟩]
    have whole : opening (retryKey s.id) t listed ++ l ++ closing o b ++
        [⟨.now, t'⟩, ⟨.sessions (.save (closed s.history.length o m t')), saved⟩] =
        front ++ (l ++ back) := by
      simp [front, back]
    have free : back.all Heard.modelFree = true := by
      rw [List.all_append, closing_modelFree]
      rfl
    rw [whole] at recovers ⊢
    have onward : Recovers (r.reset (some (retryKey s.id))) (l ++ back) r' :=
      (recovers_modelFree (l := ⟨.now, t⟩ :: ⟨.index .files, listed⟩ :: movedTo thinking) rfl).mp
        (recovers_forgive.mp ((recovers_other rfl).mp recovers))
    obtain ⟨r₁, first, -⟩ := recovers_append.mp onward
    have fresh : (r.reset (some (retryKey s.id))).retryCount (retryKey s.id) = 0 := by
      rw [Recovery.retryCount, Recovery.reset, Table.get?_erase_self]
      rfl
    have limited := rounds.limited first allowed fresh
    have bound : (r.reset (some (retryKey s.id))).options.maxRetries = a.maxRetries := allowed
    have most : a.maxRounds - 1 + 1 = max 1 a.maxRounds := by omega
    have said : sent (front ++ (l ++ back)) = sent l := by
      rw [sent_append, sent_append, sent_modelFree free, List.append_nil]
      rfl
    refine ⟨?_, ?_, ?_, fun uncancelled => ?_⟩
    · rw [said, ← most, ← bound]
      exact limited.sends
    · rw [said, ← bound]
      exact limited.each
    · have ends := limited.obeyed back (ends_modelFree free) (by
        rw [← List.append_nil back, obeyed_modelFree free]
        trivial)
      exact ends
    · have within : l.any Heard.cancels = false := by
        rw [List.any_append, List.any_append, Bool.or_eq_false_iff, Bool.or_eq_false_iff] at uncancelled
        exact uncancelled.2.1
      have replied : replies (front ++ (l ++ back)) = replies l := by
        rw [replies_append, replies_append, replies_of_unsent (sent_modelFree free), List.append_nil]
        rfl
      have undenied : (front ++ (l ++ back)).any Heard.denial = l.any Heard.denial := by
        have opens : front.any Heard.denial = false := rfl
        have closes : back.any Heard.denial = false := by
          rw [List.any_append, (tallied_closing o b).2.denied]
          rfl
        rw [List.any_append, List.any_append, opens, closes, Bool.or_false, Bool.false_or]
      have last : (front ++ (l ++ back)).getLast? =
          some ⟨.sessions (.save (closed s.history.length o m t')), saved⟩ := by
        simp [back]
      have kept : Saved (front ++ (l ++ back)) ↔ saved = .ok () := by
        rw [Saved, last]
        constructor
        · rintro ⟨s', same⟩
          cases same
          rfl
        · rintro rfl
          exact ⟨_, rfl⟩
      rw [atLimit_savedOutcome, rounds.atLimit_iff within, kept, Insisted, Insisted, replied, undenied,
        most]

end

/-- A turn ends whatever it hears. Where the recovery allows as many retries as the agent knows of, it
asks the model no more often than rounds and retries allow. Unless it is cancelled, it stops at the
limit of its rounds exactly if the model always called for tools and no approval was denied; and then
only the saving of the session can still fail. -/
theorem run_keeps_limits {a : Agent} (contained : a.registry.Contained) (s : Session) (input : String) :
    (∀ behave, ∃ l r, Act.Trace (Turn.run a s input) l r ∧ Act.Answered behave [] l) ∧
      ∀ {l : List Heard} {o : Outcome TurnReport} {after : Session} {start b : TurnState}
        {path : List TurnState} {r r' : Recovery}, Act.Trace (Turn.run a s input) l (o, after) →
        Walk start l path b → Recovers r l r' → r.options.maxRetries = a.maxRetries → Bounded a l o :=
  ⟨fun behave => Act.ends _ behave [], fun run walk recovers allowed =>
    (trace_run contained run walk).1.keeps_limits recovers allowed⟩

/- A turn that takes all that it may -/

/-- Two rounds of two attempts each. -/
def tryingAgent : Agent := ⟨⟨[insistent]⟩, 2, 1, 1⟩

/-- A model that fails every other time, and calls the tool when it does not. -/
def faltering : Outside Bool where
  chat := fun _ _ => do
    let failed ← get
    set !failed
    return if failed then .reply ⟨"", [⟨"1", "insist", .obj []⟩], 1, 1, .toolUse⟩
      else .failed (.serverError "busy" none)
  abort := pure ()
  confirm := fun _ => pure true
  cancelled := pure false
  process := fun _ => pure .timedOut
  now := pure 0
  newId := pure ""
  tell := fun _ => pure ()
  progress := fun _ => pure ()

def falteringWorld : World Bool := ⟨.empty, .empty, "p", .ready, .new ⟨1, false, false⟩, false⟩

def falteringTurn : Act (Outcome TurnReport × Session) := Turn.run tryingAgent (.new "p" "1" 0) "hi"

theorem run_keeps_limits_faltering :
    tryingAgent.registry.Contained ∧
      Bounded tryingAgent (World.heard faltering falteringTurn falteringWorld)
        (World.run faltering falteringTurn falteringWorld).1.1 ∧
      (sent (World.heard faltering falteringTurn falteringWorld)).length = 2 * (1 + 1) ∧
      AtLimit (World.run faltering falteringTurn falteringWorld).1.1 := by
  obtain ⟨path, walk⟩ := World.walk_run faltering falteringTurn falteringWorld
  have run := World.trace_run_pair faltering falteringTurn falteringWorld
  have recovers := World.recovers_run faltering falteringTurn falteringWorld
  have contained : tryingAgent.registry.Contained := insistent_contained
  have bounded := (run_keeps_limits contained (.new "p" "1" 0) "hi").2 run walk recovers rfl
  have stopped : (World.run faltering falteringTurn falteringWorld).1.1.toOption.map (·.status) =
      some .roundLimit := by decide +kernel
  refine ⟨contained, bounded, by decide +kernel, ?_⟩
  cases ended : (World.run faltering falteringTurn falteringWorld).1.1 with
  | ok report =>
    rw [ended] at stopped
    exact ⟨report, rfl, Option.some.inj stopped⟩
  | error f =>
    rw [ended] at stopped
    cases stopped

end Turn

end CodeAgent
