import CodeAgent.Recovery

/-! The budget of retries.
What is decided on a fault follows from the options, the kind of the fault, what the user would choose
and the retries counted under its key; so calls under other keys never change it. The count is that of
the retries decided since it was last forgotten, and it stays within the bound. -/
namespace CodeAgent

/- What is decided -/

/-- The user's choice, if it is offered, and otherwise the preset. -/
def FaultKind.pick (kind : FaultKind) : Option Remedy → Remedy
  | some chosen => if chosen ∈ kind.policy.remedies then chosen else kind.policy.preset
  | none => kind.policy.preset

theorem FaultKind.pick_offered (kind : FaultKind) (choice : Option Remedy) :
    kind.pick choice ∈ kind.policy.remedies := by
  cases choice with
  | none => exact kind.preset_mem_remedies
  | some chosen =>
    rw [pick]
    split
    · assumption
    · exact kind.preset_mem_remedies

namespace RecoveryOptions

variable (o : RecoveryOptions) (kind : FaultKind) (choice : Option Remedy)

/-- The remedy that is wished for: an automatic one, an abort where one cannot go on, else the user's. -/
def wish : Remedy :=
  (Recovery.automatic o kind).getD (if kind.policy.recoverable then kind.pick choice else .abort)

/-- What is decided after so many retries. -/
def verdict (count : Nat) : Decision :=
  if o.wish kind choice ≠ .retry then ⟨o.wish kind choice, none⟩
  else if count < o.maxRetries then ⟨.retry, some (count + 1)⟩
  else ⟨.abort, none⟩

theorem automatic_offered {remedy : Remedy} (automatic : Recovery.automatic o kind = some remedy) :
    remedy ∈ kind.policy.remedies := by
  cases kind <;> simp [Recovery.automatic] at automatic <;> simp [← automatic.2, FaultKind.policy]

theorem wish_offered : o.wish kind choice ∈ kind.policy.remedies := by
  rw [wish]
  cases automatic : Recovery.automatic o kind with
  | some remedy => exact o.automatic_offered kind automatic
  | none =>
    rw [Option.getD_none]
    split
    · exact kind.pick_offered choice
    · exact kind.abort_mem_remedies

theorem wish_unrecoverable (unrecoverable : kind.policy.recoverable = false) :
    o.wish kind choice = .abort := by
  cases kind <;> first | rfl | cases unrecoverable

variable (count : Nat)

theorem verdict_offered : (o.verdict kind choice count).remedy ∈ kind.policy.remedies := by
  rw [verdict]
  split
  · exact o.wish_offered kind choice
  · split
    · rename_i retry _
      exact Decidable.not_not.mp retry ▸ o.wish_offered kind choice
    · exact kind.abort_mem_remedies

/-- A retry says which one it is, and only a retry does. -/
theorem verdict_attempt :
    (o.verdict kind choice count).attempt =
      if (o.verdict kind choice count).remedy = .retry then some (count + 1) else none := by
  by_cases retry : o.wish kind choice = .retry
  · by_cases room : count < o.maxRetries <;> simp [verdict, retry, room]
  · simp [verdict, retry]

theorem verdict_full (retry : o.wish kind choice = .retry) :
    o.verdict kind choice o.maxRetries = ⟨.abort, none⟩ := by
  rw [verdict, if_neg (not_not_intro retry), if_neg (Nat.lt_irrefl _)]

theorem lt_of_verdict (retry : (o.verdict kind choice count).remedy = .retry) :
    count < o.maxRetries := by
  rw [verdict] at retry
  split at retry
  · contradiction
  · split at retry
    · assumption
    · cases retry

end RecoveryOptions

/-- A decision on a fault of this kind, counted under the key. -/
structure Decides (r : Recovery) (kind : FaultKind) (choice : Option Remedy) (key : String)
    (d : Decision) (r' : Recovery) : Prop where
  options : r'.options = r.options
  decision : d = r.options.verdict kind choice (r.retryCount key)
  retries : r'.retries =
    if d.remedy = .retry then r.retries.insert key (r.retryCount key + 1) else r.retries

namespace Decides

variable {r r' : Recovery} {kind : FaultKind} {choice : Option Remedy} {key : String} {d : Decision}

theorem counted (decides : Decides r kind choice key d r') (retry : d.remedy = .retry) :
    r'.retryCount key = r.retryCount key + 1 := by
  rw [Recovery.retryCount, decides.retries, if_pos retry, Table.get?_insert_self, Option.getD_some]

/-- A retry is only decided where there is room for one. -/
theorem room (decides : Decides r kind choice key d r') (retry : d.remedy = .retry) :
    r.retryCount key < r.options.maxRetries :=
  RecoveryOptions.lt_of_verdict _ _ _ _ (decides.decision ▸ retry)

end Decides

namespace Recovery

variable (r : Recovery)

theorem settle_wish (kind : FaultKind) (choice : Option Remedy) (key : String) :
    Decides r kind choice key (r.settle (r.options.wish kind choice) key).1
      (r.settle (r.options.wish kind choice) key).2 := by
  rw [settle]
  by_cases retry : r.options.wish kind choice = .retry
  · rw [if_neg (not_not_intro retry)]
    by_cases full : r.retryCount key + 1 > r.options.maxRetries
    · rw [if_pos full]
      refine ⟨rfl, ?_, rfl⟩
      rw [RecoveryOptions.verdict, if_neg (not_not_intro retry), if_neg (by omega)]
    · rw [if_neg full]
      refine ⟨rfl, ?_, rfl⟩
      rw [RecoveryOptions.verdict, if_neg (not_not_intro retry), if_pos (by omega)]
  · rw [if_pos retry]
    exact ⟨rfl, by rw [RecoveryOptions.verdict, if_pos retry], by rw [if_neg retry]⟩

/-- What the user would choose is what the next answer says. -/
def choice (f : Fault) : Option Remedy := r.answers.map (·.headD f.preset)

/-- A user who is asked changes neither the options nor the counts. -/
theorem consult_spec (f : Fault) :
    (r.consult f).1 = f.kind.pick (r.choice f) ∧ (r.consult f).2.options = r.options ∧
      (r.consult f).2.retries = r.retries := by
  rw [consult, choice]
  cases r.answers <;> exact ⟨rfl, rfl, rfl⟩

theorem handle_decides (f : Fault) (key : Option String) :
    Decides r f.kind (r.choice f) (key.getD f.kind.name) (r.handle f key).1 (r.handle f key).2 := by
  have wished := r.settle_wish f.kind (r.choice f) (key.getD f.kind.name)
  unfold handle
  cases automatic : Recovery.automatic r.options f.kind with
  | some remedy =>
    rw [RecoveryOptions.wish, automatic, Option.getD_some] at wished
    exact wished
  | none =>
    cases recoverable : f.recoverable with
    | false =>
      rw [RecoveryOptions.wish_unrecoverable _ _ _ recoverable] at wished
      exact wished
    | true =>
      obtain ⟨remedy, options, retries⟩ := r.consult_spec f
      have wish : (r.consult f).2.options.wish f.kind (r.choice f) = (r.consult f).1 := by
        rw [options, RecoveryOptions.wish, automatic, Option.getD_none]
        exact (if_pos recoverable).trans remedy.symm
      have asked := (r.consult f).2.settle_wish f.kind (r.choice f) (key.getD f.kind.name)
      rw [wish] at asked
      have count (k : String) : (r.consult f).2.retryCount k = r.retryCount k := by
        rw [retryCount, retries, retryCount]
      refine ⟨asked.options.trans options, ?_, ?_⟩
      · rw [← options, ← count]
        exact asked.decision
      · rw [← retries, ← count]
        exact asked.retries

end Recovery

/- Calls -/

/-- What a recovery is called for: a fault, an attempt that has ended, a reset. -/
inductive RecoveryCall (α : Type) where
  | handle (fault : Fault) (key : Option String)
  | guard (outcome : Except Failure α) (kind : FaultKind) (key : Option String)
  | reset (key : Option String)

namespace RecoveryCall

variable {α : Type}

/-- The fault that is decided on, and the key that it counts under. -/
def fault? : RecoveryCall α → Option (Fault × String)
  | handle f key => some (f, key.getD f.kind.name)
  | guard (.error failure) kind key => some (failure.classify kind, key.getD kind.name)
  | _ => none

/-- Whether the count of the key starts anew. -/
def clears (key : String) : RecoveryCall α → Bool
  | guard (.ok _) kind key' => key'.getD kind.name = key
  | reset (some key') => key' = key
  | reset none => true
  | _ => false

/-- Whether the call is about the key. -/
def covers (key : String) (c : RecoveryCall α) : Bool := c.clears key || c.fault?.any (·.2 = key)

end RecoveryCall

namespace Recovery

variable {α : Type} (choose : Option (Fault → Remedy)) (r : Recovery)

/-- With a user to ask who chooses by the fault alone. -/
def hearing (f : Fault) : Recovery := { r with answers := choose.map fun choose => [choose f] }

/-- The decision of a call, if it is about a fault, and the recovery after it. -/
def call : RecoveryCall α → Option Decision × Recovery
  | .handle f key =>
    let (d, r) := (r.hearing choose f).handle f key
    (some d, r)
  | .guard outcome kind key =>
    let r := match outcome with
      | .ok _ => r
      | .error failure => r.hearing choose (failure.classify kind)
    match r.guard outcome kind key with
    | (.done _, r) => (none, r)
    | (.failed _ d, r) => (some d, r)
  | .reset key => (none, r.reset key)

theorem call_decides {c : RecoveryCall α} {f : Fault} {key : String} (about : c.fault? = some (f, key)) :
    ∃ d, (r.call choose c).1 = some d ∧
      Decides r f.kind (choose.map (· f)) key d (r.call choose c).2 := by
  have decides (k : Option String) : Decides r f.kind (choose.map (· f)) (k.getD f.kind.name)
      ((r.hearing choose f).handle f k).1 ((r.hearing choose f).handle f k).2 := by
    have heard := (r.hearing choose f).handle_decides f k
    rw [choice, hearing, Option.map_map] at heard
    exact ⟨heard.options, heard.decision, heard.retries⟩
  cases c with
  | handle f' k =>
    cases about
    exact ⟨_, rfl, decides k⟩
  | guard outcome kind k =>
    cases outcome with
    | ok => cases about
    | error failure =>
      cases about
      exact ⟨_, rfl, decides (some _)⟩
  | reset => cases about

/-- A call that is not about a fault forgets counts, and does no more. -/
theorem call_undecided {c : RecoveryCall α} (about : c.fault? = none) :
    (r.call choose c).1 = none ∧ (r.call choose c).2.options = r.options ∧
      ∀ k, (r.call choose c).2.retryCount k = if c.clears k then 0 else r.retryCount k := by
  have reset (key k : String) : (r.reset (some key)).retryCount k =
      if decide (key = k) then 0 else r.retryCount k := by
    rw [retryCount, Recovery.reset, Table.get?_erase]
    by_cases same : key = k
    · simp [same]
    · simp [same, Ne.symm same, retryCount]
  cases c with
  | handle f k => cases about
  | guard outcome kind key =>
    cases outcome with
    | ok => exact ⟨rfl, rfl, reset (key.getD kind.name)⟩
    | error failure => cases about
  | reset key =>
    cases key with
    | none => exact ⟨rfl, rfl, fun k => rfl⟩
    | some key => exact ⟨rfl, rfl, reset key⟩

theorem call_options (c : RecoveryCall α) : (r.call choose c).2.options = r.options := by
  cases about : c.fault? with
  | none => exact (r.call_undecided choose about).2.1
  | some e =>
    obtain ⟨d, -, decides⟩ := r.call_decides choose about
    exact decides.options

end Recovery

/-- A call that was made, and what was decided. -/
structure RecoveryEvent (α : Type) where
  call : RecoveryCall α
  decision : Option Decision

/-- Whether a retry was decided that counts under the key. -/
def RecoveryEvent.retries {α : Type} (key : String) (e : RecoveryEvent α) : Bool :=
  e.call.fault?.any (·.2 = key) && e.decision.any (·.remedy = .retry)

namespace Recovery

variable {α : Type} (choose : Option (Fault → Remedy)) (r : Recovery)

theorem clears_of_fault {c : RecoveryCall α} {f : Fault} {key : String} (about : c.fault? = some (f, key))
    (k : String) : c.clears k = false := by
  cases c with
  | handle => rfl
  | guard outcome => cases outcome with
    | ok => cases about
    | error => rfl
  | reset => cases about

/-- A call counts what it decides, under one key. -/
theorem retryCount_call (c : RecoveryCall α) (k : String) :
    (r.call choose c).2.retryCount k =
      if c.clears k then 0
      else r.retryCount k + if RecoveryEvent.retries k ⟨c, (r.call choose c).1⟩ then 1 else 0 := by
  cases about : c.fault? with
  | none =>
    rw [(r.call_undecided choose about).2.2]
    simp [RecoveryEvent.retries, about]
  | some e =>
    obtain ⟨f, key⟩ := e
    obtain ⟨d, decided, decides⟩ := r.call_decides choose about
    rw [clears_of_fault about, if_neg Bool.false_ne_true, RecoveryEvent.retries, about, decided,
      retryCount, decides.retries]
    by_cases retry : d.remedy = .retry
    · by_cases here : key = k
      · simp [retry, here]
      · simp [retry, here, Ne.symm here, Table.get?_insert, retryCount]
    · simp [retry, retryCount]

/-- The recovery after these calls, newest first. -/
def after (o : RecoveryOptions) : List (RecoveryCall α) → Recovery
  | [] => .new o
  | c :: before => ((after o before).call choose c).2

/-- The calls with what was decided. -/
def events (o : RecoveryOptions) : List (RecoveryCall α) → List (RecoveryEvent α)
  | [] => []
  | c :: before => ⟨c, ((after choose o before).call choose c).1⟩ :: events o before

/-- The retries decided under the key since its count was last forgotten. -/
def retriesSince (key : String) (events : List (RecoveryEvent α)) : Nat :=
  (events.takeWhile fun e => !e.call.clears key).countP (·.retries key)

variable {o : RecoveryOptions} {calls : List (RecoveryCall α)}

theorem options_after : (after choose o calls).options = o := by
  induction calls with
  | nil => rfl
  | cons c before ih => exact (call_options choose _ c).trans ih

theorem retryCount_after (k : String) :
    (after choose o calls).retryCount k = retriesSince k (events choose o calls) := by
  induction calls with
  | nil => rfl
  | cons c before ih =>
    rw [after, retryCount_call, ih, events, retriesSince, retriesSince, List.takeWhile_cons]
    cases c.clears k <;> simp [List.countP_cons]

theorem lt_of_retries {c : RecoveryCall α} {k : String}
    (retries : RecoveryEvent.retries k ⟨c, (r.call choose c).1⟩) :
    r.retryCount k < r.options.maxRetries := by
  cases about : c.fault? with
  | none => simp [RecoveryEvent.retries, about] at retries
  | some e =>
    obtain ⟨d, decided, decides⟩ := r.call_decides choose about
    simp only [RecoveryEvent.retries, about, decided, Option.any_some, Bool.and_eq_true,
      decide_eq_true_eq] at retries
    obtain ⟨rfl, retry⟩ := retries
    exact decides.room retry

theorem retryCount_le (k : String) : (after choose o calls).retryCount k ≤ o.maxRetries := by
  induction calls with
  | nil => exact Nat.zero_le _
  | cons c before ih =>
    rw [after, retryCount_call]
    split
    · exact Nat.zero_le _
    · split
      · rename_i retries
        have room := lt_of_retries choose _ retries
        rwa [options_after] at room
      · exact ih

/-- What a call that is about a key decides depends on the count of that key alone. -/
theorem decision_congr {r' : Recovery} {c : RecoveryCall α} {k : String} (covers : c.covers k)
    (options : r'.options = r.options) (count : r'.retryCount k = r.retryCount k) :
    (r'.call choose c).1 = (r.call choose c).1 := by
  cases about : c.fault? with
  | none => rw [(r.call_undecided choose about).1, (r'.call_undecided choose about).1]
  | some e =>
    obtain ⟨f, key⟩ := e
    rw [RecoveryCall.covers, clears_of_fault about, about, Bool.false_or] at covers
    obtain rfl : key = k := of_decide_eq_true covers
    obtain ⟨d, decided, decides⟩ := r.call_decides choose about
    obtain ⟨d', decided', decides'⟩ := r'.call_decides choose about
    rw [decided, decided', decides.decision, decides'.decision, options, count]

/-- Calls that are not about a key leave its count alone. -/
theorem retryCount_filter (k : String) :
    (after choose o (calls.filter (·.covers k))).retryCount k = (after choose o calls).retryCount k := by
  induction calls with
  | nil => rfl
  | cons c before ih =>
    rw [List.filter_cons]
    split
    · rename_i covers
      have same := decision_congr choose (after choose o before) covers
        ((options_after choose).trans (options_after choose).symm) ih
      rw [after, after, retryCount_call, retryCount_call, ih, same]
    · rename_i uncovered
      obtain ⟨clears, about⟩ : c.clears k = false ∧ c.fault?.any (·.2 = k) = false := by
        simpa [RecoveryCall.covers] using uncovered
      rw [ih, after, retryCount_call, clears, RecoveryEvent.retries, about]
      rfl

/-- What is decided on a key is what would be decided without all other calls. -/
theorem events_filter (k : String) :
    (events choose o calls).filter (·.call.covers k) = events choose o (calls.filter (·.covers k)) := by
  induction calls with
  | nil => rfl
  | cons c before ih =>
    rw [events, List.filter_cons, List.filter_cons, ih]
    split
    · rename_i covers
      rw [events, decision_congr choose (after choose o before) covers
        ((options_after choose).trans (options_after choose).symm) (retryCount_filter choose k)]
    · rfl

/-- What every decision on a fault that counts under a key obeys. -/
structure DecidedWell (r : Recovery) (f : Fault) (choice : Option Remedy) (key : String) (d : Decision)
    (r' : Recovery) : Prop where
  verdict : d = r.options.verdict f.kind choice (r.retryCount key)
  offered : d.remedy ∈ f.remedies
  fatal : f.kind = .storage ∨ f.kind = .unknown → d.remedy = .abort
  goesOn : d.goesOn ↔ d.remedy ≠ .abort
  attempt : d.attempt = if d.remedy = .retry then some (r'.retryCount key) else none
  full : r.options.wish f.kind choice = .retry → r.retryCount key = r.options.maxRetries →
    d.remedy = .abort ∧ r'.retries = r.retries

theorem decidedWell {r r' : Recovery} {f : Fault} {choice : Option Remedy} {key : String} {d : Decision}
    (decides : Decides r f.kind choice key d r') : DecidedWell r f choice key d r' where
  verdict := decides.decision
  offered := decides.decision ▸ RecoveryOptions.verdict_offered _ _ _ _
  fatal kind := by
    have unrecoverable : f.kind.policy.recoverable = false := by
      rcases kind with same | same <;> rw [same] <;> rfl
    rw [decides.decision, RecoveryOptions.verdict,
      RecoveryOptions.wish_unrecoverable _ _ _ unrecoverable]
    rfl
  goesOn := by simp [Decision.goesOn]
  attempt := by
    have attempt := r.options.verdict_attempt f.kind choice (r.retryCount key)
    rw [← decides.decision] at attempt
    by_cases retry : d.remedy = .retry
    · rw [attempt, if_pos retry, if_pos retry, decides.counted retry]
    · rw [attempt, if_neg retry, if_neg retry]
  full retry full := by
    have decision := decides.decision
    rw [full, RecoveryOptions.verdict_full _ _ _ retry] at decision
    exact ⟨by rw [decision], by rw [decides.retries, decision]; rfl⟩

/-- The law of the budget after some calls: what is counted under each key, and how any call that may
follow is decided. -/
structure Budgeted (choose : Option (Fault → Remedy)) (o : RecoveryOptions)
    (calls : List (RecoveryCall α)) : Prop where
  options : (after choose o calls).options = o
  counted (key : String) :
    (after choose o calls).retryCount key = retriesSince key (events choose o calls)
  bounded (key : String) : (after choose o calls).retryCount key ≤ o.maxRetries
  /-- The next retry can be counted in thirty-two bits. -/
  inWord (key : String) : (after choose o calls).retryCount key + 1 < UInt32.size
  alone (key : String) : (events choose o calls).filter (·.call.covers key) =
    events choose o (calls.filter (·.covers key))
  undecided (c : RecoveryCall α) :
    ((after choose o calls).call choose c).1 = none ↔ c.fault? = none
  decided (c : RecoveryCall α) (f : Fault) (key : String) : c.fault? = some (f, key) →
    ∃ d, ((after choose o calls).call choose c).1 = some d ∧
      DecidedWell (after choose o calls) f (choose.map (· f)) key d (after choose o (c :: calls))

/-- Whatever a recovery is called for, its retries stay within their budget. -/
theorem retries_budgeted {o : RecoveryOptions} (fits : o.maxRetries < UInt32.size - 1)
    (choose : Option (Fault → Remedy)) (calls : List (RecoveryCall α)) : Budgeted choose o calls where
  options := options_after choose
  counted := retryCount_after choose
  bounded := retryCount_le choose
  inWord key := by
    have bounded : (after choose o calls).retryCount key ≤ o.maxRetries := retryCount_le choose key
    omega
  alone := events_filter choose
  undecided c := by
    refine ⟨fun none => ?_, fun about => (call_undecided choose _ about).1⟩
    cases about : c.fault? with
    | none => rfl
    | some e =>
      obtain ⟨d, decided, -⟩ := call_decides choose (after choose o calls) about
      rw [none] at decided
      cases decided
  decided c f key about := by
    obtain ⟨d, decided, decides⟩ := call_decides choose (after choose o calls) about
    exact ⟨d, decided, decidedWell decides⟩

/-- A fault without a key, and then one whose key is the name of the first one's kind. -/
def sharing : List (RecoveryCall Unit) :=
  [.handle (.timeout "slow") (some "llm"), .handle (.llm "busy") none]

theorem retries_budgeted_sharing :
    1 < UInt32.size - 1 ∧ Budgeted none ⟨1, false, false⟩ sharing ∧
      (events none ⟨1, false, false⟩ sharing).map (·.decision) =
        [some ⟨.abort, none⟩, some ⟨.retry, some 1⟩] :=
  ⟨by decide, retries_budgeted (by decide) none sharing, by decide⟩

end Recovery

end CodeAgent
