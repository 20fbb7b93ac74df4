import CodeAgent.Proofs.Project.World
import CodeAgent.Proofs.Turn.Rounds

/-! A turn moves the machine only where it may be moved, tells of each move, and comes home. -/
namespace CodeAgent

/-- A move that the machine does not allow. -/
def Heard.isRefused : Heard → Bool
  | .refused .. => true
  | _ => false

namespace Turn

open TurnState

/-- Moves that are refused stand directly before or behind a question for approval: they are those
that the question makes, and never those that the turn makes by itself. -/
def RefusedOnlyForApproval (l : List Heard) : Prop :=
  ∀ pre next f post, l = pre ++ .refused next f :: post →
    (∃ s approved rest, next = awaitingConfirmation ∧ post = .confirmed s approved :: rest) ∨
    ∃ before s approved, pre = before ++ [.confirmed s approved] ∧
      next = if approved then toolCall else ready

theorem refusedOnly_of_none {l : List Heard} (none : l.any Heard.isRefused = false) :
    RefusedOnlyForApproval l := by
  rintro pre next f post rfl
  simp [Heard.isRefused] at none

theorem refusedOnly_append {l₁ l₂ : List Heard} (first : RefusedOnlyForApproval l₁)
    (second : RefusedOnlyForApproval l₂) : RefusedOnlyForApproval (l₁ ++ l₂) := by
  intro pre next f post same
  rcases List.append_eq_append_iff.mp same with ⟨mid, rfl, same₂⟩ | ⟨mid, rfl, same₂⟩
  · -- the move is in the second part
    rcases second mid next f post same₂ with before | ⟨before, s, approved, rfl, rfl⟩
    · exact Or.inl before
    · exact Or.inr ⟨l₁ ++ before, s, approved, by simp, rfl⟩
  · cases mid with
    | nil =>
      rcases second [] next f post (by simpa using same₂.symm) with before | ⟨before, s, approved, wrong, -⟩
      · exact Or.inl before
      · simp at wrong
    | cons h mid =>
      obtain ⟨rfl, rfl⟩ := List.cons.inj same₂
      rcases first pre next f mid rfl with ⟨s, approved, rest, rfl, rfl⟩ | behind
      · exact Or.inl ⟨s, approved, rest ++ l₂, rfl, rfl⟩
      · exact Or.inr behind

theorem isRefused_of_aside {h : Heard} (aside : h.aside = true) : h.isRefused = false := by
  obtain ⟨q, answer⟩ := h
  cases q with
  | turn c => cases aside
  | _ => rfl

theorem refusedOnly_of_aside {l : List Heard} (aside : l.all Heard.aside = true) :
    RefusedOnlyForApproval l := by
  apply refusedOnly_of_none
  rw [List.any_eq_false]
  intro h member
  simp [isRefused_of_aside (List.all_eq_true.mp aside h member)]

theorem refusedOnly_question (f₁ f₂ : Fault) (s : String) (approved : Bool) :
    RefusedOnlyForApproval [.refused awaitingConfirmation f₁, .confirmed s approved,
      .refused (if approved then toolCall else ready) f₂] := by
  intro pre next f post same
  match pre, same with
  | [], same =>
    obtain ⟨asked, rfl⟩ := List.cons.inj same
    cases asked
    exact Or.inl ⟨s, approved, _, rfl, rfl⟩
  | [_], same =>
    obtain ⟨-, behind⟩ := List.cons.inj same
    cases (List.cons.inj behind).1
  | [first, second], same =>
    obtain ⟨-, behind⟩ := List.cons.inj same
    obtain ⟨rfl, last⟩ := List.cons.inj behind
    obtain ⟨asked, -⟩ := List.cons.inj last
    cases asked
    exact Or.inr ⟨[first], s, approved, rfl, rfl⟩
  | _ :: _ :: _ :: _, same => simp at same

/-- In a call the only refused moves are those of questions after a denial. -/
theorem Gated.refusedOnly {a b : TurnState} {raw seg : List Heard} (gate : Gated a raw seg b) :
    RefusedOnlyForApproval seg := by
  induction gate with
  | nil => exact refusedOnly_of_none rfl
  | @other a b h raw seg tool quiet rest ih =>
    have single : RefusedOnlyForApproval [h] := by
      apply refusedOnly_of_none
      obtain ⟨q, answer⟩ := h
      cases q with
      | turn c => exact tool.elim
      | _ => rfl
    exact refusedOnly_append single ih
  | approved _ ih => exact refusedOnly_append (refusedOnly_of_none (l := [_, _, _, _, _]) rfl) ih
  | denied _ ih => exact refusedOnly_append (refusedOnly_of_none (l := [_, _, _, _, _]) rfl) ih
  | @again b s approved raw seg rest ih =>
    exact refusedOnly_append (refusedOnly_question _ _ s approved) ih

section

variable {a : Agent} {s after : Session} {l : List Heard}

theorem CallRun.refusedOnly {call : ToolCall} {denied : Bool} (ran : CallRun a call s l denied after) :
    RefusedOnlyForApproval l := by
  cases ran with
  | intro t executed ran gate =>
    exact refusedOnly_append gate.refusedOnly (refusedOnly_of_aside rfl)

theorem CallsRun.refusedOnly {calls : List ToolCall} {n : Nat} {status : Option TurnStatus}
    (ran : CallsRun a calls s l n status after) : RefusedOnlyForApproval l := by
  induction ran with
  | none => exact refusedOnly_of_aside rfl
  | unstarted => exact refusedOnly_of_aside rfl
  | denied later ran =>
    exact refusedOnly_append (refusedOnly_of_aside (l := [_, _]) rfl) ran.refusedOnly
  | stopped later ran =>
    have ended :=
      refusedOnly_append ran.refusedOnly (refusedOnly_of_aside (l := [.polled true]) rfl)
    exact refusedOnly_append (refusedOnly_of_aside (l := [_, _]) rfl) ended
  | next ran _ ih =>
    have onward := refusedOnly_append (refusedOnly_of_aside (l := [.polled false]) rfl) ih
    have called := refusedOnly_append ran.refusedOnly onward
    exact refusedOnly_append (refusedOnly_of_aside (l := [_, _]) rfl) called

theorem roundHeard_refusedOnly {asked calls : List Heard} (t : Int) (r : Reply)
    (aside : asked.all Heard.aside = true) (called : RefusedOnlyForApproval calls) :
    RefusedOnlyForApproval (roundHeard asked t r calls) := by
  refine refusedOnly_append (refusedOnly_append ?_ (refusedOnly_of_none rfl)) called
  apply refusedOnly_of_aside
  simp [aside, besidesTold_aside, Heard.aside]

theorem RoundsRun.refusedOnly {system : Message} {key : String} {tally : TurnTally}
    {done left : Nat} {o : Outcome TurnReport} {b : TurnState}
    (derived : RoundsRun a system key tally done left s l o after b) : RefusedOnlyForApproval l := by
  induction derived with
  | interrupted => exact refusedOnly_of_aside rfl
  | abandoned _ _ _ _ queried => exact refusedOnly_of_aside (l := _ :: _) queried.aside
  | failed _ _ _ _ queried => exact refusedOnly_of_aside (l := _ :: _) queried.aside
  | answered _ _ _ _ t queried =>
    exact refusedOnly_append (refusedOnly_of_aside (l := _ :: _) queried.aside)
      (refusedOnly_of_none rfl)
  | ended _ _ _ _ t queried _ ran => exact roundHeard_refusedOnly t _ queried.aside ran.refusedOnly
  | @limit _ _ _ _ _ r _ _ t t' queried _ ran =>
    have round := roundHeard_refusedOnly t r queried.aside ran.refusedOnly
    exact refusedOnly_append (refusedOnly_append round (refusedOnly_of_none rfl))
      (refusedOnly_of_none rfl)
  | @next _ _ _ _ _ _ _ r _ _ _ _ _ t queried _ ran _ ih =>
    have round := roundHeard_refusedOnly t r queried.aside ran.refusedOnly
    exact refusedOnly_append (refusedOnly_append round (refusedOnly_of_none rfl)) ih

theorem closing_refusedOnly (o : Outcome TurnReport) (b : TurnState) :
    RefusedOnlyForApproval (closing o b) := by
  apply refusedOnly_of_none
  cases o with
  | error f => rfl
  | ok report => cases b <;> rfl

theorem TurnRun.refusedOnly {input : String} {start : TurnState} {o : Outcome TurnReport}
    (ran : TurnRun a s input start l o after) : RefusedOnlyForApproval l := by
  cases ran with
  | refused => exact refusedOnly_of_none rfl
  | @ran _ o _ b text t t' listed saved rounds =>
    have opens : RefusedOnlyForApproval (opening (retryKey s.id) t listed) :=
      refusedOnly_of_none rfl
    have driven := refusedOnly_append opens rounds.refusedOnly
    have closes := refusedOnly_append driven (closing_refusedOnly o b)
    exact refusedOnly_append closes (refusedOnly_of_none rfl)

end

/- A turn in which approval is asked for again after a denial -/

/-- A tool that asks for approval twice, whatever is answered, and crashes. -/
def insistent : Tool Act where
  definition := ⟨"insist", "", default⟩
  category := .edit
  gated := false
  summary := fun _ => pure ""
  body := fun _ => do
    let _ ← Act.confirm "once"
    let _ ← Act.confirm "twice"
    return .crashed none

def insistentAgent : Agent := ⟨⟨[insistent]⟩, 1, 1, 0⟩

theorem insistent_contained : insistentAgent.registry.Contained := by
  intro t member arguments
  obtain rfl := List.mem_singleton.mp member
  exact ⟨.done trivial, .ask trivial fun _ => .ask trivial fun _ => .done trivial⟩

/-- A model that always calls the tool, and a user who denies. -/
def denying : Outside Unit where
  chat := fun _ _ => pure (.reply ⟨"", [⟨"1", "insist", .obj []⟩], 1, 1, .toolUse⟩)
  abort := pure ()
  confirm := fun _ => pure false
  cancelled := pure false
  process := fun _ => pure .timedOut
  now := pure 0
  newId := pure ""
  tell := fun _ => pure ()
  progress := fun _ => pure ()

def emptyWorld : World Unit := ⟨.empty, .empty, "p", .ready, .new {}, ()⟩

def insistentTurn : Act (Outcome TurnReport × Session) :=
  Turn.run insistentAgent (.new "p" "1" 0) "hi"

end Turn

end CodeAgent
