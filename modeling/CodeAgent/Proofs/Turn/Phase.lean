import CodeAgent.Proofs.Turn.Rounds

/-! Where a run of a turn stands, read off what was heard so far: between calls, within one, or where
nothing but bookkeeping may follow. -/
namespace CodeAgent

/-- What marks a place in a turn. -/
inductive Heard.Mark where
  | started (tool : String) (arguments : Json)
  | finished
  | polled (cancelled : Bool)
  | denied
  | none

def Heard.mark : Heard → Heard.Mark
  | ⟨.tell (.started tool arguments), _⟩ => .started tool arguments
  | ⟨.tell (.finished ..), _⟩ => .finished
  | ⟨.cancelled, stop⟩ => .polled stop
  | ⟨.confirm _, approved⟩ => if approved then .none else .denied
  | _ => .none

/-- What a turn asks and tells when no tool runs any more. -/
def Heard.bookkeeping (h : Heard) : Bool :=
  match h.question with
  | .turn _ | .tell (.moved _) | .tell (.finished ..) | .now | .sessions (.save _) => true
  | _ => false

/-- What opens or ends a call. -/
def Heard.delimits (h : Heard) : Bool :=
  match h.question with
  | .tell (.started ..) | .tell (.finished ..) => true
  | _ => false

namespace Turn

/-- A call that runs, with what was heard in it. -/
structure Running where
  tool : String
  arguments : Json
  heard : List Heard

inductive Phase where
  | idle
  /-- A call was announced, and the turn has not looked yet whether it was cancelled. -/
  | starting (tool : String) (arguments : Json)
  | within (call : Running)
  /-- After a denial, or after a call that was not begun. -/
  | past

namespace Phase

def hear (p : Phase) (h : Heard) : Phase :=
  match p, h.mark with
  | past, _ => past
  | _, .denied => past
  | _, .started tool arguments => starting tool arguments
  | starting tool arguments, .polled false => within ⟨tool, arguments, []⟩
  | starting _ _, .polled true => past
  | starting _ _, _ => idle
  | within _, .finished => idle
  | within call, _ => within { call with heard := call.heard ++ [h] }
  | idle, _ => idle

@[simp] theorem hear_past (h : Heard) : past.hear h = past := rfl

theorem hear_denied (p : Phase) {h : Heard} (denied : h.mark = .denied) : p.hear h = past := by
  cases p <;> simp [hear, denied]

theorem hear_starting {p : Phase} {h : Heard} {tool : String} {arguments : Json}
    (opened : p.hear h = starting tool arguments) : h.mark = .started tool arguments := by
  cases mark : h.mark with
  | polled stop => cases p <;> cases stop <;> simp [hear, mark] at opened
  | _ => cases p <;> simp_all [hear]

theorem hear_within {p : Phase} {h : Heard} {call : Running} (running : p.hear h = within call) :
    (∃ tool arguments, p = starting tool arguments ∧ h.mark = .polled false ∧
      call = ⟨tool, arguments, []⟩) ∨
    ∃ outer, p = within outer ∧ call = { outer with heard := outer.heard ++ [h] } ∧
      (∀ tool arguments, h.mark ≠ .started tool arguments) ∧ h.mark ≠ .finished := by
  cases p with
  | idle => cases mark : h.mark <;> simp [hear, mark] at running
  | past => cases running
  | starting tool arguments =>
    cases mark : h.mark with
    | polled stop => cases stop <;> simp_all [hear]
    | _ => simp [hear, mark] at running
  | within outer => cases mark : h.mark <;> simp_all [hear]

end Phase

/-- Where a run stands. -/
def phase (l : List Heard) : Phase := l.foldl Phase.hear .idle

theorem phase_append (l₁ l₂ : List Heard) : phase (l₁ ++ l₂) = l₂.foldl Phase.hear (phase l₁) :=
  List.foldl_append

theorem phase_concat (l : List Heard) (h : Heard) : phase (l ++ [h]) = (phase l).hear h :=
  phase_append l [h]

theorem phase_past_append {l₁ : List Heard} (past : phase l₁ = .past) (l₂ : List Heard) :
    phase (l₁ ++ l₂) = .past := by
  rw [phase_append, past]
  induction l₂ with
  | nil => rfl
  | cons h l₂ ih => exact ih

theorem phase_of_denied (pre post : List Heard) (s : String) :
    phase (pre ++ .confirmed s false :: post) = .past := by
  have here : phase (pre ++ [.confirmed s false]) = .past := by
    rw [phase_concat]
    exact Phase.hear_denied _ rfl
  simpa using phase_past_append here post

/-- After a call that was announced and not begun a run is over. -/
theorem phase_of_unstarted (pre post : List Heard) (tool : String) (arguments : Json) :
    phase (pre ++ .told (.started tool arguments) :: .polled true :: post) = .past := by
  have here : phase (pre ++ [.told (.started tool arguments), .polled true]) = .past := by
    rw [phase_append]
    cases phase pre <;> rfl
  simpa using phase_past_append here post

theorem eq_started_of_mark {h : Heard} {tool : String} {arguments : Json}
    (mark : h.mark = .started tool arguments) : h = .told (.started tool arguments) := by
  obtain ⟨q, answer⟩ := h
  cases q with
  | tell e =>
    cases e with
    | started =>
      cases mark
      rfl
    | _ => cases mark
  | confirm s => cases answer <;> cases mark
  | _ => cases mark

theorem eq_polled_of_mark {h : Heard} {stop : Bool} (mark : h.mark = .polled stop) :
    h = .polled stop := by
  obtain ⟨q, answer⟩ := h
  cases q with
  | tell e => cases e <;> cases mark
  | confirm s => cases answer <;> cases mark
  | cancelled =>
    cases mark
    rfl
  | _ => cases mark

theorem delimits_of_mark {h : Heard} (opens : ∀ tool arguments, h.mark ≠ .started tool arguments)
    (ends : h.mark ≠ .finished) : h.delimits = false := by
  obtain ⟨q, answer⟩ := h
  cases q with
  | tell e =>
    cases e with
    | started tool arguments => exact absurd rfl (opens tool arguments)
    | finished => exact absurd rfl ends
    | _ => rfl
  | _ => rfl

theorem starting_split {l : List Heard} {tool : String} {arguments : Json}
    (opened : phase l = .starting tool arguments) :
    ∃ front, l = front ++ [.told (.started tool arguments)] := by
  cases l using List.reverseRecOn with
  | nil => cases opened
  | append_singleton l h =>
    rw [phase_concat] at opened
    refine ⟨l, ?_⟩
    rw [eq_started_of_mark (Phase.hear_starting opened)]

/-- A call that runs was announced, was begun when the turn was not cancelled, and goes on since. -/
theorem within_split {l : List Heard} {call : Running} (running : phase l = .within call) :
    ∃ front, l = front ++ .told (.started call.tool call.arguments) :: .polled false :: call.heard ∧
      ∀ h ∈ call.heard, h.delimits = false := by
  induction l using List.reverseRecOn generalizing call with
  | nil => cases running
  | append_singleton l h ih =>
    rw [phase_concat] at running
    rcases Phase.hear_within running with ⟨tool, arguments, before, mark, rfl⟩ |
      ⟨outer, before, rfl, opens, ends⟩
    · obtain ⟨front, rfl⟩ := starting_split before
      obtain rfl := eq_polled_of_mark mark
      exact ⟨front, by simp, by simp⟩
    · obtain ⟨front, rfl, going⟩ := ih before
      refine ⟨front, by simp, ?_⟩
      intro x member
      rcases List.mem_append.mp member with earlier | last
      · exact going x earlier
      · obtain rfl := List.mem_singleton.mp last
        exact delimits_of_mark opens ends

/-- Of every part of a run, with what was heard before it. -/
def Each (P : List Heard → Heard → Prop) : List Heard → List Heard → Prop
  | _, [] => True
  | before, h :: l => P before h ∧ Each P (before ++ [h]) l

theorem each_append {P : List Heard → Heard → Prop} {before l₁ l₂ : List Heard} :
    Each P before (l₁ ++ l₂) ↔ Each P before l₁ ∧ Each P (before ++ l₁) l₂ := by
  induction l₁ generalizing before with
  | nil => simp [Each]
  | cons h l₁ ih => simp [Each, ih, and_assoc]

theorem Each.at {P : List Heard → Heard → Prop} {before pre post : List Heard} {h : Heard}
    (each : Each P before (pre ++ h :: post)) : P (before ++ pre) h :=
  (each_append.mp each).2.1

end Turn

end CodeAgent
