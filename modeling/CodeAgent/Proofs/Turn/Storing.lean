import CodeAgent.Proofs.Session.Lifecycle
import CodeAgent.Proofs.Turn.Rounds

/-! What a turn asks the store of sessions.
Only at its end does a turn ask for anything, and then it saves the session that it was given, as it has
gone on under the same id in the same project. -/
namespace CodeAgent

/-- Asks for no session. -/
def Ask.storeless : Ask → Bool
  | .sessions _ => false
  | _ => true

theorem Ask.storeless_of_ofTool {q : Ask} (tool : q.ofTool) : q.storeless = true := by
  cases q <;> first | rfl | exact tool.elim

def Heard.storeless (h : Heard) : Bool := h.question.storeless

namespace Session

/-- What a session becomes under its id in its project. -/
structure GoesOn (s s' : Session) : Prop where
  id : s'.id = s.id
  project : s'.projectName = s.projectName

variable {s m after : Session}

theorem GoesOn.refl (s : Session) : s.GoesOn s := ⟨rfl, rfl⟩

theorem GoesOn.trans (first : s.GoesOn m) (second : m.GoesOn after) : s.GoesOn after :=
  ⟨second.id.trans first.id, second.project.trans first.project⟩

theorem goesOn_referenceFile (s : Session) (path : String) : s.GoesOn (s.referenceFile path) := by
  obtain ⟨context, same⟩ := s.referenceFile_eq path
  rw [same]
  exact ⟨rfl, rfl⟩

theorem goesOn_addInput (s : Session) (input : String) : s.GoesOn (s.addInput input) := by
  obtain ⟨inputs, same⟩ := s.addInput_eq input
  rw [same]
  exact ⟨rfl, rfl⟩

theorem goesOn_popUndo (s : Session) : s.GoesOn s.popUndo.2 := by
  rw [popUndo]
  split
  · exact .refl s
  · exact ⟨rfl, rfl⟩

theorem goesOn_addMessage (s : Session) (message : Message) (t : Int) :
    s.GoesOn (s.addMessage message t) := ⟨rfl, rfl⟩

end Session

namespace Turn

open TurnState Session

section

variable {a : Agent} {s after : Session} {l : List Heard}

theorem goesOn_ofOutput (arguments : Json) (o : ToolOutput) (s : Session) :
    s.GoesOn (Effect.ofOutput arguments o s) := by
  rw [Effect.ofOutput]
  split
  · exact (goesOn_referenceFile s _).trans ⟨rfl, rfl⟩
  · rw [Effect.ofLook]
    split
    · exact .refl s
    · exact goesOn_referenceFile s _

theorem goesOn_ofResult (call : ToolCall) (outcome : Except String ToolOutput) (denied : Bool) (t : Int)
    (s : Session) : s.GoesOn (Effect.ofResult a call outcome denied t s) := by
  have called : s.GoesOn (Effect.ofCall s) := ⟨rfl, rfl⟩
  have looked : s.GoesOn (Effect.ofOutcome call.arguments outcome (Effect.ofCall s)) := by
    cases outcome with
    | ok output => exact called.trans (goesOn_ofOutput ..)
    | error why => exact called
  rw [Effect.ofResult]
  split
  · exact looked.trans ⟨rfl, rfl⟩
  · exact looked.trans ⟨rfl, rfl⟩

theorem goesOn_ofReply (r : Reply) (window : Nat) (message : Message) (t : Int) (s : Session) :
    s.GoesOn ((Effect.ofReply r window s).addMessage message t) := ⟨rfl, rfl⟩

theorem Gated.storeless {b c : TurnState} {raw seg : List Heard} (gate : Gated b raw seg c) :
    seg.all Heard.storeless = true := by
  induction gate with
  | nil => rfl
  | other tool _ _ ih => rw [List.all_cons, Heard.storeless, Ask.storeless_of_ofTool tool, ih, Bool.and_self]
  | approved _ ih => exact ih
  | denied _ ih => exact ih
  | again _ ih => exact ih

theorem CallRun.storeless {call : ToolCall} {denied : Bool} (ran : CallRun a call s l denied after) :
    l.all Heard.storeless = true ∧ s.GoesOn after := by
  cases ran with
  | intro t executed ran gate =>
    refine ⟨?_, goesOn_ofResult ..⟩
    rw [List.all_append, gate.storeless]
    rfl

theorem CallsRun.storeless {calls : List ToolCall} {n : Nat} {status : Option TurnStatus}
    (ran : CallsRun a calls s l n status after) : l.all Heard.storeless = true ∧ s.GoesOn after := by
  induction ran with
  | none s => exact ⟨rfl, .refl s⟩
  | unstarted _ _ s => exact ⟨rfl, .refl s⟩
  | denied later ran => exact ran.storeless
  | stopped later ran =>
    refine ⟨?_, ran.storeless.2⟩
    have called := ran.storeless.1
    simp [called, Heard.storeless, Ask.storeless]
  | next ran _ ih =>
    refine ⟨?_, ran.storeless.2.trans ih.2⟩
    have called := ran.storeless.1
    simp [called, ih.1, Heard.storeless, Ask.storeless]

theorem Asked.storeless {messages : List Message} {tools : List ToolDefinition} {key : String}
    (asked : Asked messages tools key l) : l.all Heard.storeless = true := by
  induction asked with
  | nil => rfl
  | again _ _ _ ih => exact ih

theorem Queried.storeless {messages : List Message} {tools : List ToolDefinition} {key : String}
    {retries : Nat} {o : Option (Outcome Reply)} (queried : Queried messages tools key retries l o) :
    l.all Heard.storeless = true := by
  cases queried with
  | cancelled asked => simp [asked.storeless, Heard.storeless, Ask.storeless]
  | failed _ _ asked => simp [asked.storeless, Heard.storeless, Ask.storeless]
  | replied _ asked => simp [asked.storeless, Heard.storeless, Ask.storeless]

theorem roundHeard_storeless {asked calls : List Heard} (t : Int) (r : Reply)
    (queried : asked.all Heard.storeless = true) (called : calls.all Heard.storeless = true) :
    (roundHeard asked t r calls).all Heard.storeless = true := by
  have besides : (besidesTold r).all Heard.storeless = true := by
    rw [besidesTold]
    split <;> rfl
  simp [roundHeard, movedTo, queried, called, besides, Heard.storeless, Ask.storeless]

theorem RoundsRun.storeless {system : Message} {key : String} {tally : TurnTally} {done left : Nat}
    {o : Outcome TurnReport} {b : TurnState}
    (derived : RoundsRun a system key tally done left s l o after b) :
    l.all Heard.storeless = true ∧ s.GoesOn after := by
  induction derived with
  | interrupted _ _ _ s => exact ⟨rfl, .refl s⟩
  | abandoned _ _ _ s queried => exact ⟨queried.storeless, .refl s⟩
  | failed _ _ _ s queried => exact ⟨queried.storeless, .refl s⟩
  | answered _ _ _ _ t queried =>
    exact ⟨by simp [queried.storeless, movedTo, Heard.storeless, Ask.storeless], goesOn_ofReply ..⟩
  | ended _ _ _ _ t queried _ ran =>
    exact ⟨roundHeard_storeless t _ queried.storeless ran.storeless.1,
      (goesOn_ofReply ..).trans ran.storeless.2⟩
  | @limit _ _ _ _ _ r _ _ t t' queried _ ran =>
    have round := roundHeard_storeless t r queried.storeless ran.storeless.1
    refine ⟨by simp [round, movedTo, Heard.storeless, Ask.storeless], ?_⟩
    exact ((goesOn_ofReply ..).trans ran.storeless.2).trans ⟨rfl, rfl⟩
  | @next _ _ _ _ _ _ _ r _ _ _ _ _ t queried _ ran _ ih =>
    have round := roundHeard_storeless t r queried.storeless ran.storeless.1
    exact ⟨by simp [round, movedTo, ih.1, Heard.storeless, Ask.storeless],
      ((goesOn_ofReply ..).trans ran.storeless.2).trans ih.2⟩

theorem goesOn_closed (mark : Nat) (o : Outcome TurnReport) (s : Session) (t : Int) :
    s.GoesOn (closed mark o s t) := by
  rw [closed]
  split
  · exact ⟨rfl, rfl⟩
  · exact ⟨rfl, rfl⟩

/-- A turn saves the session that it leaves behind, or asks for none. -/
theorem TurnRun.storing {input : String} {start : TurnState} {o : Outcome TurnReport}
    (ran : TurnRun a s input start l o after) :
    s.GoesOn after ∧ ∀ h ∈ l, h.storeless = true ∨ h.question = .sessions (.save after) := by
  cases ran with
  | refused => exact ⟨.refl s, by simp [Heard.storeless, Ask.storeless]⟩
  | @ran l o m b text t t' listed saved rounds =>
    obtain ⟨storeless, onward⟩ := rounds.storeless
    have opens : (opening (retryKey s.id) t listed).all Heard.storeless = true := by
      simp [opening, movedTo, Heard.storeless, Ask.storeless]
    have closes : (closing o b).all Heard.storeless = true := by
      cases o with
      | error f => rfl
      | ok report => cases b <;> rfl
    have begun : s.GoesOn (opened s input t) := (goesOn_addInput s input).trans (goesOn_addMessage ..)
    refine ⟨(begun.trans onward).trans (goesOn_closed ..), fun h member => ?_⟩
    have before : (opening (retryKey s.id) t listed ++ l ++ closing o b).all Heard.storeless = true := by
      rw [List.all_append, List.all_append, opens, storeless, closes]
      rfl
    rcases List.mem_append.mp member with early | late
    · exact Or.inl (List.all_eq_true.mp before h early)
    · rcases List.mem_cons.mp late with rfl | last
      · exact Or.inl rfl
      · exact Or.inr (congrArg Heard.question (List.mem_singleton.mp last))

end

end Turn

end CodeAgent
