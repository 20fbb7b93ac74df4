import CodeAgent.Proofs.Turn.Rounds

/-! How a turn holds the machine.
Until it settles, a turn that waits for an answer keeps the machine away from ready, and whoever looks
at it then is refused. Only while it waits for the files, before its first move, and after approval was
denied to it the machine is ready although the turn goes on. -/
namespace CodeAgent

/-- A question that takes time. The others are answered before anybody else goes on. -/
def Ask.awaits : Ask → Bool
  | .index _ | .sessions _ | .file _ | .decide .. | .chat .. | .confirm _ | .process _ => true
  | _ => false

namespace Heard

def awaits (h : Heard) : Bool := h.question.awaits

/-- The machine is brought back to ready, whatever is left to do. -/
def settles : Heard → Bool
  | ⟨.turn .settle, _⟩ => true
  | _ => false

/-- Where a machine is once it has answered. -/
def leaves (h : Heard) (a : TurnState) : TurnState :=
  match h with
  | .moved next => next
  | ⟨.turn .settle, _⟩ => .ready
  | _ => a

theorem settles_of_not_ofTurn {h : Heard} (elsewhere : ¬ h.ofTurn) : h.settles = false := by
  obtain ⟨q, answer⟩ := h
  cases q with
  | turn c => exact absurd ⟨c, rfl⟩ elsewhere
  | _ => rfl

theorem leaves_of_not_ofTurn {h : Heard} (elsewhere : ¬ h.ofTurn) (a : TurnState) :
    h.leaves a = a := by
  obtain ⟨q, answer⟩ := h
  cases q with
  | turn c => exact absurd ⟨c, rfl⟩ elsewhere
  | _ => rfl

theorem settles_of_denial {h : Heard} (denial : h.denial = true) : h.settles = false := by
  obtain ⟨q, answer⟩ := h
  cases q with
  | confirm s => rfl
  | _ => cases denial

end Heard

namespace Turn

open TurnState

theorem leaves_of_hears {a b : TurnState} {h : Heard} {step : List TurnState}
    (hears : Hears a h step b) : b = h.leaves a := by
  cases hears with
  | other _ _ elsewhere => exact (Heard.leaves_of_not_ofTurn elsewhere a).symm
  | _ => rfl

theorem ready_of_settles {a b : TurnState} {h : Heard} {step : List TurnState}
    (hears : Hears a h step b) (settles : h.settles = true) : b = ready := by
  cases hears with
  | settled | rested => rfl
  | other _ _ elsewhere =>
    rw [Heard.settles_of_not_ofTurn elsewhere] at settles
    cases settles
  | _ => cases settles

/-- What is heard from one state to another without settling. Where the machine is ready nothing is
waited for; what follows a denial is left open, but for that it does not settle either. -/
inductive Holds : TurnState → List Heard → TurnState → Prop where
  | nil (a : TurnState) : Holds a [] a
  | denied {a : TurnState} {h : Heard} {l : List Heard} (b : TurnState) (denial : h.denial = true)
      (awake : a ≠ ready) (unsettled : l.any Heard.settles = false) : Holds a (h :: l) b
  | heard {a b : TurnState} {h : Heard} {l : List Heard} (unsettled : h.settles = false)
      (awake : h.awaits = true → a ≠ ready) (rest : Holds (h.leaves a) l b) : Holds a (h :: l) b

section

variable {a b c : TurnState} {l l₁ l₂ : List Heard} {path : List TurnState}

theorem Holds.unsettled (holds : Holds a l b) : l.any Heard.settles = false := by
  induction holds with
  | nil => rfl
  | denied _ denial _ unsettled => simp [Heard.settles_of_denial denial, unsettled]
  | heard unsettled _ _ ih => simp [unsettled, ih]

theorem Holds.append (first : Holds a l₁ b) (second : Holds b l₂ c) : Holds a (l₁ ++ l₂) c := by
  induction first with
  | nil => exact second
  | @denied _ _ l _ denial awake unsettled =>
    have both : (l ++ l₂).any Heard.settles = false := by simp [unsettled, second.unsettled]
    exact .denied c denial awake both
  | heard unsettled awake _ ih => exact .heard unsettled awake (ih second)

/-- Where a turn that holds the machine waits before any denial, the machine is not ready. -/
theorem Holds.awake {h : Heard} {rest : List Heard} (holds : Holds a (l ++ h :: rest) b)
    (awaits : h.awaits = true) (undenied : l.any Heard.denial = false) (walk : Walk a l path c) :
    c ≠ ready := by
  generalize whole : l ++ h :: rest = heard at holds
  induction holds generalizing l path with
  | nil => simp at whole
  | denied _ denial awake =>
    cases l with
    | nil =>
      obtain ⟨-, rfl⟩ := walk_nil.mp walk
      exact awake
    | cons g l =>
      obtain ⟨rfl, -⟩ := List.cons.inj whole
      simp [denial] at undenied
  | heard unsettled awake _ ih =>
    cases l with
    | nil =>
      obtain ⟨rfl, -⟩ := List.cons.inj whole
      obtain ⟨-, rfl⟩ := walk_nil.mp walk
      exact awake awaits
    | cons g l =>
      obtain ⟨rfl, same⟩ := List.cons.inj whole
      obtain ⟨step, m, path, rfl, hears, onward⟩ := walk_cons.mp walk
      obtain rfl := leaves_of_hears hears
      rw [List.any_cons, Bool.or_eq_false_iff] at undenied
      exact ih undenied.2 onward same

theorem holds_elsewhere (awake : a ≠ ready) (elsewhere : ∀ h ∈ l, ¬ h.ofTurn) : Holds a l a := by
  induction l with
  | nil => exact .nil a
  | cons h l ih =>
    obtain ⟨first, later⟩ := List.forall_mem_cons.mp elsewhere
    refine .heard (Heard.settles_of_not_ofTurn first) (fun _ => awake) ?_
    rw [Heard.leaves_of_not_ofTurn first]
    exact ih later

theorem holds_aside (awake : a ≠ ready) (aside : l.all Heard.aside = true) : Holds a l a :=
  holds_elsewhere awake fun h member =>
    Heard.not_ofTurn_of_aside (List.all_eq_true.mp aside h member)

theorem holds_movedTo (next : TurnState) : Holds a (movedTo next) next :=
  .heard rfl nofun (.heard rfl nofun (.nil next))

end

section

variable {a : Agent} {s after : Session} {l raw seg : List Heard} {b c : TurnState}

theorem Gated.unsettled (gate : Gated b raw seg c) : seg.any Heard.settles = false := by
  induction gate with
  | nil => rfl
  | other tool _ _ ih =>
    simp [Heard.settles_of_not_ofTurn (Heard.not_ofTurn_of_ofTool tool), ih]
  | approved _ ih | denied _ ih | again _ ih => simpa [Heard.settles] using ih

theorem Gated.holds (gate : Gated b raw seg c) (start : b = toolCall) :
    Holds toolCall seg toolCall := by
  induction gate with
  | nil => exact .nil _
  | @other b c h _ _ tool _ _ ih =>
    have elsewhere : ∀ g ∈ [h], ¬ g.ofTurn := by simpa using Heard.not_ofTurn_of_ofTool tool
    exact (holds_elsewhere (by decide) elsewhere).append (ih start)
  | @approved _ s _ _ _ ih =>
    have asked : Holds awaitingConfirmation [.confirmed s true] awaitingConfirmation :=
      holds_aside (by decide) rfl
    exact (holds_movedTo _).append (asked.append ((holds_movedTo toolCall).append (ih rfl)))
  | denied rest =>
    exact (holds_movedTo awaitingConfirmation).append (.denied _ rfl (by decide) rest.unsettled)
  | again => cases start

theorem CallRun.holds {call : ToolCall} {denied : Bool} (ran : CallRun a call s l denied after) :
    Holds toolCall l toolCall := by
  cases ran with
  | intro t _ _ gate => exact (gate.holds rfl).append (holds_aside (by decide) rfl)

theorem CallsRun.holds {calls : List ToolCall} {n : Nat} {status : Option TurnStatus}
    (ran : CallsRun a calls s l n status after) : Holds toolCall l toolCall := by
  have started : ∀ call : ToolCall, Holds toolCall
      [.told (.started call.name call.arguments), .polled false] toolCall := fun _ =>
    holds_aside (by decide) rfl
  have polled : ∀ stop, Holds toolCall [.polled stop] toolCall := fun _ => holds_aside (by decide) rfl
  induction ran with
  | none => exact .nil _
  | unstarted => exact holds_aside (by decide) rfl
  | denied _ ran => exact (started _).append ran.holds
  | stopped _ ran => exact (started _).append (ran.holds.append (polled true))
  | next ran _ ih => exact (started _).append (ran.holds.append ((polled false).append ih))

theorem holds_roundHeard {messages : List Message} {tools : List ToolDefinition} {key : String}
    {retries n : Nat} {calls : List ToolCall} {status : Option TurnStatus} {r : Reply} (t : Int)
    (queried : Queried messages tools key retries l (some (.ok r)))
    (ran : CallsRun a calls s seg n status after) : Holds thinking (roundHeard l t r seg) toolCall := by
  have asked : Holds thinking (.polled false :: l ++ ⟨.now, t⟩ :: besidesTold r) thinking :=
    holds_aside (by decide) (by simp [queried.aside, besidesTold_aside, Heard.aside])
  have whole : roundHeard l t r seg =
      (.polled false :: l ++ ⟨.now, t⟩ :: besidesTold r) ++ (movedTo toolCall ++ seg) := by
    simp [roundHeard]
  rw [whole]
  exact asked.append ((holds_movedTo toolCall).append ran.holds)

theorem RoundsRun.holds {system : Message} {key : String} {tally : TurnTally} {done left : Nat}
    {o : Outcome TurnReport} (ran : RoundsRun a system key tally done left s l o after b) :
    ∃ c, Holds thinking l c := by
  induction ran with
  | interrupted => exact ⟨_, holds_aside (by decide) rfl⟩
  | abandoned _ _ _ _ queried | failed _ _ _ _ queried =>
    exact ⟨_, holds_aside (by decide) (by simp [queried.aside, Heard.aside])⟩
  | @answered _ _ _ _ l r t queried _ =>
    have asked : Holds thinking (.polled false :: l ++ [⟨.now, t⟩, .told (.response r.content)])
        thinking := holds_aside (by decide) (by simp [queried.aside, Heard.aside])
    exact ⟨_, by simpa using asked.append (holds_movedTo ready)⟩
  | ended _ _ _ _ t queried _ ran => exact ⟨_, holds_roundHeard t queried ran⟩
  | limit _ _ _ t t' queried _ ran =>
    have noted : Holds thinking [⟨.now, t'⟩] thinking := holds_aside (by decide) rfl
    exact ⟨_, ((holds_roundHeard t queried ran).append (holds_movedTo thinking)).append
      (noted.append (holds_movedTo ready))⟩
  | next _ _ _ _ t queried _ ran _ ih =>
    obtain ⟨c, onward⟩ := ih
    exact ⟨c, ((holds_roundHeard t queried ran).append (holds_movedTo thinking)).append onward⟩

/-- A turn holds the machine from its first move until it settles, and leaves it alone afterwards. -/
theorem TurnRun.parts {input : String} {o : Outcome TurnReport}
    (ran : TurnRun a s input ready l o after) :
    ∃ key t listed held answer tail c,
      l = ⟨.turn .state, ready⟩ :: ⟨.forgive key, ()⟩ :: ⟨.now, t⟩ :: ⟨.index .files, listed⟩ ::
        (held ++ ⟨.turn .settle, answer⟩ :: tail) ∧
      Holds ready held c ∧ ∀ h ∈ tail, ¬ h.ofTurn := by
  cases ran with
  | refused notReady => exact absurd rfl notReady
  | @ran l o m b text t t' listed saved rounds =>
    obtain ⟨c, holds⟩ := rounds.holds
    let kept : List Heard :=
      [⟨.now, t'⟩, ⟨.sessions (.save (closed s.history.length o m t')), saved⟩]
    have quiet : ∀ {h}, h ∈ kept → ¬ h.ofTurn := by
      rintro h member ⟨c, asked⟩
      simp only [kept, List.mem_cons, List.not_mem_nil, or_false] at member
      rcases member with rfl | rfl <;> cases asked
    have told : ∀ h ∈ Heard.told (.moved ready) :: kept, ¬ h.ofTurn := by
      rintro h member ⟨c, asked⟩
      rcases List.mem_cons.mp member with rfl | behind
      · cases asked
      · exact quiet behind ⟨c, asked⟩
    have front : Holds ready (movedTo thinking ++ l) c := (holds_movedTo thinking).append holds
    cases o with
    | error f =>
      exact ⟨retryKey s.id, t, listed, movedTo thinking ++ l ++ movedTo error, true, _, _,
        by simp [opening, closing, homecoming, kept], front.append (holds_movedTo error), told⟩
    | ok report =>
      by_cases home : b = ready
      · exact ⟨retryKey s.id, t, listed, movedTo thinking ++ l, false, kept, _,
          by simp [opening, closing, homecoming, home, kept], front, fun _ => quiet⟩
      · exact ⟨retryKey s.id, t, listed, movedTo thinking ++ l, true, _, _,
          by simp [opening, closing, homecoming, home, kept], front, told⟩

/-- A turn that goes on while the machine is ready: it has not made its first move yet, or approval was
denied to it. -/
def Exposed (l : List Heard) : Prop :=
  (∃ key t, l = [⟨.turn .state, ready⟩, ⟨.forgive key, ()⟩, ⟨.now, t⟩]) ∨ l.any Heard.denial = true

/-- What is heard next stands before the first settling, is that, or stands behind it. -/
theorem split_at_settling (front : List Heard) {tail rest : List Heard} {g h : Heard}
    (whole : l ++ h :: rest = front ++ g :: tail) (settling : g.settles = true) :
    (∃ m, front = l ++ h :: m) ∨ (h = g ∧ l = front) ∨
      (l.any Heard.settles = true ∧ h ∈ tail) := by
  rcases List.append_eq_append_iff.mp whole with ⟨m, rfl, same⟩ | ⟨m, rfl, same⟩
  · cases m with
    | nil =>
      obtain ⟨rfl, -⟩ := List.cons.inj same
      exact Or.inr (Or.inl ⟨rfl, (List.append_nil l).symm⟩)
    | cons first m =>
      obtain ⟨rfl, -⟩ := List.cons.inj same
      exact Or.inl ⟨m, rfl⟩
  · cases m with
    | nil =>
      obtain ⟨rfl, -⟩ := List.cons.inj same
      exact Or.inr (Or.inl ⟨rfl, List.append_nil front⟩)
    | cons first m =>
      obtain ⟨rfl, rfl⟩ := List.cons.inj same
      exact Or.inr (Or.inr (by simp [settling]))

section

variable {input : String} {o : Outcome TurnReport} {h : Heard} {rest : List Heard}

theorem TurnRun.settles (ran : TurnRun a s input ready l o after) : l.any Heard.settles = true := by
  obtain ⟨key, t, listed, held, answer, tail, c, rfl, -, -⟩ := ran.parts
  simp [Heard.settles]

/-- A turn that waits while the machine is ready is exposed. -/
theorem TurnRun.exposed {path : List TurnState} (ran : TurnRun a s input ready (l ++ h :: rest) o after)
    (begun : l ≠ []) (unsettled : l.any Heard.settles = false) (awaits : h.awaits = true)
    (walk : Walk ready l path ready) : Exposed l := by
  obtain ⟨key, t, listed, held, answer, tail, c, whole, holds, -⟩ := ran.parts
  rcases split_at_settling (_ :: _ :: _ :: _ :: held) whole rfl with
    ⟨m, front⟩ | ⟨rfl, -⟩ | ⟨settled, -⟩
  · rcases l with _ | ⟨h₁, _ | ⟨h₂, _ | ⟨h₃, _ | ⟨h₄, l⟩⟩⟩⟩ <;>
      simp only [List.cons_append, List.nil_append, List.cons.injEq] at front
    · exact absurd rfl begun
    · obtain ⟨-, rfl, -⟩ := front
      cases awaits
    · obtain ⟨-, -, rfl, -⟩ := front
      cases awaits
    · obtain ⟨rfl, rfl, rfl, -⟩ := front
      exact Or.inl ⟨key, t, rfl⟩
    · obtain ⟨rfl, rfl, rfl, rfl, rfl⟩ := front
      obtain ⟨step, b, path, rfl, hears, onward⟩ := walk_cons.mp walk
      obtain rfl := leaves_of_hears hears
      have within : Walk ready l path ready := walk_past (walk_past (walk_past onward rfl) rfl) rfl
      refine Or.inr ?_
      by_contra undenied
      exact holds.awake awaits (by simpa [Heard.denial] using undenied) within rfl
  · cases awaits
  · rw [unsettled] at settled
    cases settled

/-- Once it has settled, a turn leaves the machine alone. -/
theorem TurnRun.released (ran : TurnRun a s input ready (l ++ h :: rest) o after)
    (settled : l.any Heard.settles = true) : ¬ h.ofTurn := by
  obtain ⟨key, t, listed, held, answer, tail, c, whole, holds, quiet⟩ := ran.parts
  have unsettled : (⟨.turn .state, ready⟩ :: ⟨.forgive key, ()⟩ :: ⟨.now, t⟩ ::
      ⟨.index .files, listed⟩ :: held : List Heard).any Heard.settles = false := holds.unsettled
  rcases split_at_settling (_ :: _ :: _ :: _ :: held) whole rfl with
    ⟨m, front⟩ | ⟨-, rfl⟩ | ⟨-, behind⟩
  · rw [front, List.any_append, settled] at unsettled
    cases unsettled
  · rw [unsettled] at settled
    cases settled
  · exact quiet h behind

end

/- Runs that may be disturbed later on. What they have heard up to now agrees with a machine of their
own, and so far they are what a turn by itself can be. -/

section

variable {input : String} {r : Outcome TurnReport × Session} {h : Heard} {rest : List Heard}
  {path : List TurnState}

theorem exposed_of_waits (contained : a.registry.Contained)
    (run : Act.Trace (Turn.run a s input) (l ++ h :: rest) r) (walk : Walk ready l path ready)
    (begun : l ≠ []) (unsettled : l.any Heard.settles = false) (awaits : h.awaits = true) :
    Exposed l := by
  obtain ⟨answer, rest, value, path', c, run, along⟩ := exists_walk_from run walk
  exact (trace_run contained run along).1.exposed begun unsettled awaits walk

theorem leaves_alone (contained : a.registry.Contained)
    (run : Act.Trace (Turn.run a s input) (l ++ h :: rest) r) (walk : Walk ready l path b)
    (settled : l.any Heard.settles = true) : ¬ h.ofTurn := by
  obtain ⟨answer, rest, value, path', c, run, along⟩ := exists_walk_from run walk
  exact (trace_run contained run along).1.released settled

end

end

end Turn

end CodeAgent
