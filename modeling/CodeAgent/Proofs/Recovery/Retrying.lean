import CodeAgent.Proofs.Recovery.Budget

/-! Attempts that are made again and again.
Every attempt that fails is decided on, and only a retry, which the budget of its key has to have room
for, leads to another one. So the bound on the loop is never what ends it. -/
namespace CodeAgent

/-- The kind that a cause has by itself. -/
def Cause.kind? : Cause → Option FaultKind
  | .fault f => some f.kind
  | .model e => some e.toFault.kind
  | .other _ => none

namespace Failure

theorem kind_classify (kind : FaultKind) (failure : Failure) :
    (failure.classify kind).kind = failure.cause.kind?.getD kind := by
  obtain ⟨cause, context⟩ := failure
  cases cause <;> rfl

/-- A cause that has a kind is the same fault whatever was put around it. -/
theorem classify_of_kind {failure : Failure} {own : FaultKind}
    (known : failure.cause.kind? = some own) (kind : FaultKind) :
    failure.classify kind = (Failure.of failure.cause).classify own := by
  obtain ⟨cause, context⟩ := failure
  cases cause with
  | other text => cases known
  | _ => rfl

end Failure

namespace Recovery

variable {α : Type}

section

variable (kind : FaultKind) (key : String)

/-- The decision on a failed attempt, and the recovery after it. -/
def weigh (r : Recovery) (failure : Failure) : Decision × Recovery :=
  r.handle (failure.classify kind) (some key)

/-- The recovery as an attempt finds it, when all those before it failed. -/
def facing (r : Recovery) (outcome : Nat → Except Failure α) : Nat → Recovery
  | 0 => r
  | n + 1 =>
    match outcome n with
    | .ok _ => facing r outcome n
    | .error failure => ((facing r outcome n).weigh kind key failure).2

/-- What is decided on an attempt that failed, when all those before it did. -/
def decided (r : Recovery) (outcome : Nat → Except Failure α) (n : Nat) (failure : Failure) : Decision :=
  ((r.facing kind key outcome n).weigh kind key failure).1

end

variable {r : Recovery} {outcome : Nat → Except Failure α} {kind : FaultKind} {key : String}
  {failure : Failure}

/-- What comes behind a first failure is what comes first for the recovery after it. -/
theorem facing_succ (first : outcome 0 = .error failure) (n : Nat) :
    r.facing kind key outcome (n + 1) =
      (r.weigh kind key failure).2.facing kind key (fun i => outcome (i + 1)) n := by
  induction n with
  | zero => simp only [facing, first]
  | succ n ih =>
    rw [facing, ih, facing]

theorem decided_succ (first : outcome 0 = .error failure) (n : Nat) (later : Failure) :
    r.decided kind key outcome (n + 1) later =
      (r.weigh kind key failure).2.decided kind key (fun i => outcome (i + 1)) n later := by
  rw [decided, facing_succ first, decided]

theorem weigh_decides (r : Recovery) (kind : FaultKind) (key : String) (failure : Failure) :
    Decides r (failure.classify kind).kind (r.choice (failure.classify kind)) key
      (r.weigh kind key failure).1 (r.weigh kind key failure).2 :=
  r.handle_decides (failure.classify kind) (some key)

end Recovery

namespace Decides

variable {r r' : Recovery} {kind : FaultKind} {choice : Option Remedy} {key : String} {d : Decision}

theorem uncounted (decides : Decides r kind choice key d r') (other : d.remedy ≠ .retry) (k : String) :
    r'.retryCount k = r.retryCount k := by
  rw [Recovery.retryCount, decides.retries, if_neg other, Recovery.retryCount]

theorem elsewhere (decides : Decides r kind choice key d r') {k : String} (other : k ≠ key) :
    r'.retryCount k = r.retryCount k := by
  have retries := decides.retries
  split at retries
  · rw [Recovery.retryCount, retries, Table.get?_insert, if_neg other, Recovery.retryCount]
  · rw [Recovery.retryCount, retries, Recovery.retryCount]

theorem numbered (decides : Decides r kind choice key d r') (retry : d.remedy = .retry) :
    d = ⟨.retry, some (r.retryCount key + 1)⟩ := by
  have attempt := r.options.verdict_attempt kind choice (r.retryCount key)
  rw [← decides.decision, if_pos retry] at attempt
  obtain ⟨remedy, number⟩ := d
  obtain rfl : remedy = .retry := retry
  obtain rfl : number = some (r.retryCount key + 1) := attempt
  rfl

end Decides

namespace Recovery

variable {α : Type}

/-- How attempts end after so many retries: with a value, and the count of the key starts anew, or with
the fault that the last failure counts as, for which no retry was decided. -/
inductive Ends (r : Recovery) (outcome : Nat → Except Failure α) (kind : FaultKind) (key : String)
    (granted : Nat) : Outcome α → Recovery → Prop where
  | done {value : α} {r' : Recovery} (last : outcome granted = .ok value)
      (forgotten : r'.retryCount key = 0) : Ends r outcome kind key granted (.ok value) r'
  | failed {failure : Failure} {r' : Recovery} (last : outcome granted = .error failure)
      (other : (r.decided kind key outcome granted failure).remedy ≠ .retry)
      (counted : r'.retryCount key = r.retryCount key + granted) :
      Ends r outcome kind key granted (.error (failure.classify kind)) r'

/-- All that there is to say about attempts after which so many retries were granted. -/
structure Persisted (r : Recovery) (outcome : Nat → Except Failure α) (kind : FaultKind) (key : String)
    (granted : Nat) (result : Outcome α) (r' : Recovery) : Prop where
  budget : r.retryCount key + granted ≤ r.options.maxRetries
  retried : ∀ n < granted, ∃ failure, outcome n = .error failure ∧
    r.decided kind key outcome n failure = ⟨.retry, some (r.retryCount key + n + 1)⟩
  verdicts : ∀ n ≤ granted, ∀ failure, outcome n = .error failure →
    r.decided kind key outcome n failure = r.options.verdict (failure.classify kind).kind
      ((r.facing kind key outcome n).choice (failure.classify kind)) (r.retryCount key + n)
  ends : Ends r outcome kind key granted result r'
  elsewhere : ∀ k, k ≠ key → r'.retryCount k = r.retryCount k

variable {r r' : Recovery} {outcome : Nat → Except Failure α} {kind : FaultKind} {key : String}
  {failure : Failure}

theorem retryCount_reset (r : Recovery) (key k : String) :
    (r.reset (some key)).retryCount k = if k = key then 0 else r.retryCount k := by
  rw [retryCount, reset, Table.get?_erase]
  split
  · rfl
  · rfl

theorem persisted_done {value : α} (first : outcome 0 = .ok value)
    (room : r.retryCount key ≤ r.options.maxRetries) :
    Persisted r outcome kind key 0 (.ok value) (r.reset (some key)) where
  budget := room
  retried n none := absurd none (Nat.not_lt_zero n)
  verdicts n none failure failed := by
    obtain rfl := Nat.le_zero.mp none
    rw [first] at failed
    cases failed
  ends := .done first (by rw [retryCount_reset, if_pos rfl])
  elsewhere k other := by rw [retryCount_reset, if_neg other]

theorem persisted_failed (first : outcome 0 = .error failure)
    (other : (r.weigh kind key failure).1.remedy ≠ .retry)
    (room : r.retryCount key ≤ r.options.maxRetries) :
    Persisted r outcome kind key 0 (.error (failure.classify kind) : Outcome α)
      (r.weigh kind key failure).2 where
  budget := room
  retried n none := absurd none (Nat.not_lt_zero n)
  verdicts n none failure failed := by
    obtain rfl := Nat.le_zero.mp none
    exact (r.weigh_decides kind key failure).decision
  ends := .failed first other ((r.weigh_decides kind key failure).uncounted other key)
  elsewhere k _ := (r.weigh_decides kind key failure).uncounted other k

/-- One retry before all the others. -/
theorem Persisted.again {granted : Nat} {result : Outcome α} (first : outcome 0 = .error failure)
    (retry : (r.weigh kind key failure).1.remedy = .retry)
    (rest : Persisted (r.weigh kind key failure).2 (fun n => outcome (n + 1)) kind key granted result r') :
    Persisted r outcome kind key (granted + 1) result r' := by
  have decides := r.weigh_decides kind key failure
  have counted := decides.counted retry
  have options := decides.options
  obtain ⟨budget, retried, verdicts, ends, elsewhere⟩ := rest
  rw [counted, options] at budget
  constructor
  · omega
  · intro n before
    cases n with
    | zero => exact ⟨failure, first, decides.numbered retry⟩
    | succ n =>
      obtain ⟨later, failed, decision⟩ := retried n (by omega)
      refine ⟨later, failed, ?_⟩
      rw [decided_succ first, decision, counted]
      congr 2
      omega
  · intro n within later failed
    cases n with
    | zero =>
      rw [first] at failed
      cases failed
      exact decides.decision
    | succ n =>
      have verdict := verdicts n (by omega) later failed
      rw [decided_succ first, facing_succ first, verdict, counted, options]
      congr 1
      omega
  · cases ends with
    | done last forgotten => exact .done last forgotten
    | failed last other kept =>
      refine .failed last ?_ ?_
      · rwa [decided_succ first]
      · rw [kept, counted]
        omega
  · intro k other
    rw [elsewhere k other, decides.elsewhere other]

section

variable {made : Nat} {again : Fault → Decision → StateM Attempts (Outcome α)}

theorem attemptOnce_done {value : α} (first : outcome made = .ok value) :
    attemptOnce (Attempts.next outcome) (Attempts.decide key) (Attempts.forgive key) kind again
      ⟨r, made⟩ = (.ok value, ⟨r.reset (some key), made + 1⟩) := by
  simp only [attemptOnce, Attempts.next, bind, StateT.bind, first]
  rfl

theorem attemptOnce_failed (first : outcome made = .error failure) :
    attemptOnce (Attempts.next outcome) (Attempts.decide key) (Attempts.forgive key) kind again
      ⟨r, made⟩ = again (failure.classify kind) (r.weigh kind key failure).1
        ⟨(r.weigh kind key failure).2, made + 1⟩ := by
  simp only [attemptOnce, Attempts.next, bind, StateT.bind, first]
  rfl

end

/-- As long as the loop may go on for all that is left of the budget, it is the budget that ends it. -/
theorem withRetry_persisted (outcome : Nat → Except Failure α) (kind : FaultKind) (key : String)
    {bound made : Nat} {r : Recovery} (room : r.retryCount key ≤ r.options.maxRetries)
    (enough : r.options.maxRetries ≤ r.retryCount key + bound) :
    ∃ granted result after, withRetry (Attempts.next outcome) (Attempts.decide key)
        (Attempts.forgive key) kind bound ⟨r, made⟩ = (result, after) ∧
      after.made = made + granted + 1 ∧
      Persisted r (fun n => outcome (made + n)) kind key granted result after.recovery := by
  induction bound generalizing made r with
  | zero =>
    rw [withRetry]
    cases first : outcome made with
    | ok value => exact ⟨0, _, _, attemptOnce_done first, rfl, persisted_done first room⟩
    | error failure =>
      -- the budget is used up, so no retry is decided
      have other : (r.weigh kind key failure).1.remedy ≠ .retry := by
        intro retry
        have left := (r.weigh_decides kind key failure).room retry
        omega
      exact ⟨0, _, _, attemptOnce_failed first, rfl, persisted_failed first other room⟩
  | succ bound ih =>
    rw [withRetry]
    cases first : outcome made with
    | ok value => exact ⟨0, _, _, attemptOnce_done first, rfl, persisted_done first room⟩
    | error failure =>
      rw [attemptOnce_failed first]
      have decides := r.weigh_decides kind key failure
      by_cases retry : (r.weigh kind key failure).1.remedy = .retry
      · rw [if_pos retry]
        have counted := decides.counted retry
        have options := decides.options
        have left := decides.room retry
        have room' : (r.weigh kind key failure).2.retryCount key ≤
            (r.weigh kind key failure).2.options.maxRetries := by
          rw [counted, options]
          omega
        have enough' : (r.weigh kind key failure).2.options.maxRetries ≤
            (r.weigh kind key failure).2.retryCount key + bound := by
          rw [counted, options]
          omega
        obtain ⟨granted, result, after, run, number, rest⟩ := @ih (made + 1) _ room' enough'
        refine ⟨granted + 1, result, after, run, by omega, .again first retry ?_⟩
        have shifted : (fun n => outcome (made + (n + 1))) = fun n => outcome (made + 1 + n) := by
          funext n
          congr 1
          omega
        rwa [shifted]
      · rw [if_neg retry]
        exact ⟨0, _, _, rfl, rfl, persisted_failed first retry room⟩

/-- Attempts go on exactly while retries are decided on their failures, and retries are decided only as
long as the budget of the key lasts. -/
theorem persist_exact {r : Recovery} {key : String}
    (fits : r.options.maxRetries < UInt32.size - 1)
    (room : r.retryCount key ≤ r.options.maxRetries)
    (outcome : Nat → Except Failure α) (kind : FaultKind) :
    ∃ granted, (r.persist outcome kind key).2.made = granted + 1 ∧
      granted + 1 ≤ r.options.maxRetries - r.retryCount key + 1 ∧
      r.retryCount key + granted + 1 < UInt32.size ∧
      Persisted r outcome kind key granted (r.persist outcome kind key).1
        (r.persist outcome kind key).2.recovery ∧
      ∀ failure : Failure, (failure.classify kind).kind = failure.cause.kind?.getD kind ∧
        ∀ own, failure.cause.kind? = some own →
          failure.classify kind = (Failure.of failure.cause).classify own := by
  obtain ⟨granted, result, after, run, made, persisted⟩ :=
    withRetry_persisted outcome kind key room (Nat.le_add_left _ (r.retryCount key))
  have whole : (fun n => outcome (0 + n)) = outcome := by
    funext n
    rw [Nat.zero_add]
  rw [whole] at persisted
  have budget := persisted.budget
  rw [persist, run]
  rw [Nat.zero_add] at made
  refine ⟨granted, made, by omega, by omega, persisted, ?_⟩
  intro failure
  exact ⟨failure.kind_classify kind, fun own known => Failure.classify_of_kind known kind⟩

/-- One of two retries is used up when the model times out for good. -/
def strained : Recovery := ((new ⟨2, false, false⟩).handle (.llm "busy") (some "k")).2

def timingOut : Nat → Except Failure Unit
  | 0 => .error ⟨.other "flaky", ["asking"]⟩
  | _ => .error ⟨.model (.timeout "60s"), ["asking", "once more"]⟩

theorem persist_exact_timingOut :
    strained.options.maxRetries < UInt32.size - 1 ∧
      strained.retryCount "k" ≤ strained.options.maxRetries ∧
      Persisted strained timingOut .llm "k" 1 (.error (.timeout "Request timed out: 60s"))
        (strained.persist timingOut .llm "k").2.recovery := by
  refine ⟨by decide, by decide, ?_⟩
  obtain ⟨granted, made, -, -, persisted, -⟩ :=
    @persist_exact Unit strained "k" (by decide) (by decide) timingOut .llm
  have twice : (strained.persist timingOut .llm "k").2.made = 2 := by decide
  have ended : (strained.persist timingOut .llm "k").1 =
      .error (.timeout "Request timed out: 60s") := rfl
  obtain rfl : granted = 1 := by omega
  rwa [ended] at persisted

end Recovery

end CodeAgent
