import CodeAgent.Proofs.Turn.Rounds

/-! The account of a turn, read off what was heard: the replies of the model, and the calls that were
run with their outcomes. -/
namespace CodeAgent

namespace Turn

open TurnState

/-- The change that a successful result declares. -/
def change? : Except String ToolOutput → Option Change
  | .ok output => output.change
  | .error _ => none

/-- What counts in a turn. -/
inductive Entry where
  | reply (r : Reply)
  | call (name : String) (arguments : Json) (outcome : Except String ToolOutput) (denied : Bool)

namespace Entry

def tokens : Entry → Nat
  | reply r => r.tokens
  | call .. => 0

def isCall : Entry → Bool
  | reply _ => false
  | call .. => true

def change? : Entry → Option Change
  | reply _ => none
  | call _ _ outcome _ => Turn.change? outcome

def denied : Entry → Bool
  | reply _ => false
  | call _ _ _ denied => denied

/-- Approval was denied in a call of a tool that edits. -/
def rejectedEdit (a : Agent) : Entry → Bool
  | reply _ => false
  | call name _ _ denied => denied && isEdit a name

end Entry

end Turn

namespace Heard

/-- What stands beside the entries of an account: it begins none, and the files are not asked. -/
def uncounted : Heard → Bool
  | ⟨.chat _ _, .reply _⟩ => false
  | ⟨.tell (.started ..), _⟩ => false
  | ⟨.file _, _⟩ => false
  | _ => true

end Heard

namespace Turn

section

variable (a : Agent)

/-- A call counts when the turn was not cancelled before it; its entry is how it ran. -/
inductive Account : List Heard → List Entry → Prop where
  | nil : Account [] []
  | other {h : Heard} {l : List Heard} {es : List Entry} (uncounted : h.uncounted = true)
      (rest : Account l es) : Account (h :: l) es
  | reply (ms : List Message) (ts : List ToolDefinition) (r : Reply) {l : List Heard}
      {es : List Entry} (rest : Account l es) :
      Account (⟨.chat ms ts, .reply r⟩ :: l) (.reply r :: es)
  | unstarted (name : String) (arguments : Json) {l : List Heard} {es : List Entry}
      (rest : Account l es) : Account (.told (.started name arguments) :: .polled true :: l) es
  | call (name : String) (arguments : Json) {seg l : List Heard} {es : List Entry}
      {outcome : Except String ToolOutput} {denied : Bool}
      (ran : Act.Trace (gated (a.registry.execute Act.confirm name arguments)) seg (outcome, denied))
      (rest : Account l es) :
      Account (.told (.started name arguments) :: .polled false :: (seg ++ l))
        (.call name arguments outcome denied :: es)

end

section

variable {a : Agent} {l : List Heard} {es : List Entry}

/-- A run has one account. -/
theorem Account.unique {other : List Entry} (account : Account a l es) (same : Account a l other) :
    es = other := by
  induction account generalizing other with
  | nil =>
    cases same
    rfl
  | other uncounted _ ih =>
    cases same with
    | other _ rest => exact ih rest
    | reply => cases uncounted
    | unstarted => cases uncounted
    | call => cases uncounted
  | reply ms ts r _ ih =>
    cases same with
    | other uncounted => cases uncounted
    | reply _ _ _ rest => rw [ih rest]
  | unstarted name arguments _ ih =>
    cases same with
    | other uncounted => cases uncounted
    | unstarted _ _ rest => exact ih rest
  | call name arguments ran _ ih =>
    generalize whole : Heard.told (.started name arguments) :: _ = l at same
    cases same with
    | nil => cases whole
    | other uncounted =>
      obtain ⟨rfl, -⟩ := List.cons.inj whole
      cases uncounted
    | reply => cases (List.cons.inj whole).1
    | unstarted =>
      obtain ⟨-, behind⟩ := List.cons.inj whole
      cases (List.cons.inj behind).1
    | call _ _ again rest =>
      obtain ⟨started, behind⟩ := List.cons.inj whole
      obtain ⟨-, ends⟩ := List.cons.inj behind
      cases started
      -- the run of the call decides where it ends, so what follows it is the same too
      obtain ⟨rfl, ended, rfl⟩ := ran.unique again ends
      cases ended
      rw [ih rest]

theorem account_append {l' : List Heard} {es' : List Entry} (first : Account a l es)
    (second : Account a l' es') : Account a (l ++ l') (es ++ es') := by
  induction first with
  | nil => exact second
  | other uncounted _ ih => exact .other uncounted ih
  | reply ms ts r _ ih => exact .reply ms ts r ih
  | unstarted name arguments _ ih => exact .unstarted name arguments ih
  | call name arguments ran _ ih =>
    simp only [List.cons_append, List.append_assoc]
    exact .call name arguments ran ih

theorem account_uncounted (uncounted : l.all Heard.uncounted = true) : Account a l [] := by
  induction l with
  | nil => exact .nil
  | cons h l ih =>
    simp only [List.all_cons, Bool.and_eq_true] at uncounted
    exact .other uncounted.1 (ih uncounted.2)

theorem uncounted_besides (r : Reply) : (besidesTold r).all Heard.uncounted = true := by
  unfold besidesTold
  split <;> rfl

theorem uncounted_closing (o : Outcome TurnReport) (b : TurnState) :
    (closing o b).all Heard.uncounted = true := by
  cases o with
  | error f => rfl
  | ok report => cases b <;> rfl

theorem Asked.uncounted {messages : List Message} {tools : List ToolDefinition} {key : String}
    (asked : Asked messages tools key l) : l.all Heard.uncounted = true := by
  induction asked with
  | nil => rfl
  | again e _ _ ih => simpa [Heard.uncounted] using ih

theorem Queried.account {messages : List Message} {tools : List ToolDefinition} {key : String}
    {retries : Nat} {o : Option (Outcome Reply)} (queried : Queried messages tools key retries l o) :
    Account a l (match o with
      | some (.ok r) => [.reply r]
      | _ => []) := by
  cases queried with
  | cancelled asked => exact account_uncounted (by simp [asked.uncounted, Heard.uncounted])
  | failed e d asked _ => exact account_uncounted (by simp [asked.uncounted, Heard.uncounted])
  | replied r asked =>
    exact account_append (account_uncounted asked.uncounted)
      (.reply _ _ r (account_uncounted rfl))

end

end Turn

end CodeAgent
