import CodeAgent.Proofs.Project.World
import CodeAgent.Proofs.Turn.Permission

/-! No effect without its gate.
Files are written and commands are run only in calls that may, a denial ends the turn, and a turn that
is cancelled begins no call and writes nothing. -/
namespace CodeAgent.Turn

open TurnState

/-- What is heard in a call after a denial. -/
def afterDenial (tool : String) (success : Bool) (t : Int) : List Heard :=
  movedTo ready ++ [.told (.finished tool success), ⟨.now, t⟩]

/-- A run whose last call ends with its only denial. -/
def EndsDenied (l : List Heard) : Prop :=
  ∃ front s tool success t, l = front ++ .confirmed s false :: afterDenial tool success t ∧
    front.any Heard.denial = false

theorem EndsDenied.prepend {l₁ l₂ : List Heard} (ends : EndsDenied l₂)
    (first : l₁.any Heard.denial = false) : EndsDenied (l₁ ++ l₂) := by
  obtain ⟨front, s, tool, success, t, rfl, free⟩ := ends
  refine ⟨l₁ ++ front, s, tool, success, t, by simp, ?_⟩
  rw [List.any_append, first, free]
  rfl

theorem EndsDenied.cons {h : Heard} {l : List Heard} (ends : EndsDenied l)
    (quiet : h.denial = false) : EndsDenied (h :: l) :=
  @EndsDenied.prepend [h] l ends (by simpa using quiet)

theorem eq_of_only_denial {front tail pre post : List Heard} {s s' : String}
    (first : front.any Heard.denial = false) (last : tail.any Heard.denial = false)
    (same : front ++ .confirmed s false :: tail = pre ++ .confirmed s' false :: post) :
    post = tail := by
  rcases List.append_eq_append_iff.mp same with ⟨mid, rfl, rest⟩ | ⟨mid, rfl, rest⟩
  · cases mid with
    | nil => exact (List.cons.inj rest).2.symm
    | cons h mid =>
      obtain ⟨-, rfl⟩ := List.cons.inj rest
      simp [Heard.denial] at last
  · cases mid with
    | nil => exact (List.cons.inj rest).2
    | cons h mid =>
      obtain ⟨rfl, -⟩ := List.cons.inj rest
      simp [Heard.denial] at first

theorem denial_of_plain {h : Heard} (plain : h.plain = true) : h.denial = false := by
  obtain ⟨q, answer⟩ := h
  cases q with
  | confirm => cases plain
  | _ => rfl

theorem undenied_of_plain {l : List Heard} (plain : l.all Heard.plain = true) :
    l.any Heard.denial = false := by
  rw [List.any_eq_false]
  intro h member
  simp [denial_of_plain (List.all_eq_true.mp plain h member)]

section

variable {a : Agent} {settings : Settings} {root : String} {s after : Session} {l : List Heard}

/-- After a denial nothing more is heard from a tool. -/
theorem Gated.ends_denied {a b : TurnState} {raw seg rb : List Heard} {tool : String} {arguments : Json}
    (gate : Gated a raw seg b) (start : a = toolCall)
    (allowed : Each (Allows settings tool arguments) rb raw) :
    if raw.any Heard.denial then
      ∃ front s, seg = front ++ .confirmed s false :: movedTo ready ∧ front.any Heard.denial = false
    else seg.any Heard.denial = false := by
  induction gate generalizing rb with
  | nil => simp
  | @other _ _ h raw seg _ quiet _ ih =>
    have ended := ih start allowed.2
    rw [List.any_cons, List.any_cons, Heard.denial_of_not_asksApproval quiet]
    split at ended
    · rename_i denies
      obtain ⟨front, s, rfl, free⟩ := ended
      rw [if_pos (by simpa using denies)]
      exact ⟨h :: front, s, rfl, by simpa [Heard.denial_of_not_asksApproval quiet] using free⟩
    · rename_i denies
      rw [if_neg (by simpa using denies)]
      simpa using ended
  | @approved _ s raw seg _ ih =>
    have ended := ih rfl allowed.2
    rw [List.any_cons]
    split at ended
    · rename_i denies
      obtain ⟨front, s', rfl, free⟩ := ended
      rw [if_pos (by simpa [Heard.denial] using denies)]
      exact ⟨_ :: _ :: _ :: _ :: _ :: front, s', rfl, by simpa [Heard.denial] using free⟩
    · rename_i denies
      rw [if_neg (by simpa [Heard.denial] using denies)]
      simpa [Heard.denial] using ended
  | @denied _ s raw seg rest =>
    rw [if_pos (by simp [Heard.denial])]
    cases rest with
    | nil => exact ⟨[_, _], s, rfl, rfl⟩
    | other => exact absurd (by simp) (allowed.2.1.1 s)
    | again => exact absurd (by simp) (allowed.2.1.1 s)
  | again => cases start

theorem CallRun.denied {call : ToolCall} {denied : Bool}
    (standard : a.registry = Registry.standard root settings) (ran : CallRun a call s l denied after) :
    if denied then EndsDenied l else l.any Heard.denial = false := by
  cases ran with
  | @intro raw seg outcome b t executed ran gate =>
    rw [standard] at executed
    have ended := gate.ends_denied rfl (allowed_of_execute executed)
    cases denies : raw.any Heard.denial with
    | true =>
      rw [denies, if_pos rfl] at ended
      obtain ⟨front, s, rfl, free⟩ := ended
      rw [if_pos rfl]
      exact ⟨front, s, call.name, (resultOf call outcome).success, t, by simp [afterDenial], free⟩
    | false =>
      rw [denies, if_neg Bool.false_ne_true] at ended
      rw [if_neg Bool.false_ne_true, List.any_append, ended]
      rfl

/-- The calls of a round end the turn as rejected at a denial, and hear none otherwise. -/
theorem CallsRun.rejected {calls : List ToolCall} {n : Nat} {status : Option TurnStatus}
    (standard : a.registry = Registry.standard root settings)
    (ran : CallsRun a calls s l n status after) :
    (status = some .rejected ∧ EndsDenied l) ∨ l.any Heard.denial = false := by
  induction ran with
  | none => exact Or.inr rfl
  | unstarted => exact Or.inr rfl
  | denied later ran =>
    have ended : EndsDenied _ := ran.denied standard
    exact Or.inl ⟨rfl, (ended.cons rfl).cons rfl⟩
  | stopped later ran =>
    have free : List.any _ Heard.denial = false := ran.denied standard
    exact Or.inr (by simp [free, Heard.denial])
  | @next _ _ _ _ _ l rest _ _ ran _ ih =>
    have free : l.any Heard.denial = false := ran.denied standard
    rcases ih with ⟨rfl, ended⟩ | later
    · have polled : EndsDenied (.polled false :: rest) := ended.cons rfl
      exact Or.inl ⟨rfl, ((polled.prepend free).cons rfl).cons rfl⟩
    · exact Or.inr (by simp [free, later, Heard.denial])

theorem roundHeard_undenied {messages : List Message} {tools : List ToolDefinition} {key : String}
    {retries : Nat} {asked : List Heard} {r : Reply} (t : Int)
    (queried : Queried messages tools key retries asked (some (.ok r))) :
    (.polled false :: asked ++ ⟨.now, t⟩ :: besidesTold r ++ movedTo toolCall).any
      Heard.denial = false :=
  undenied_of_plain (by simp [queried.plain, besidesTold_plain, Heard.plain, movedTo])

theorem RoundsRun.rejected {system : Message} {key : String} {tally : TurnTally} {done left : Nat}
    {o : Outcome TurnReport} {b : TurnState}
    (standard : a.registry = Registry.standard root settings)
    (derived : RoundsRun a system key tally done left s l o after b) :
    (∃ report, o = .ok report ∧ report.status = .rejected ∧ b = ready ∧ EndsDenied l) ∨
      l.any Heard.denial = false := by
  induction derived with
  | interrupted => exact Or.inr rfl
  | abandoned _ _ _ _ queried =>
    exact Or.inr (by simpa [Heard.denial] using undenied_of_plain queried.plain)
  | failed _ _ _ _ queried =>
    exact Or.inr (by simpa [Heard.denial] using undenied_of_plain queried.plain)
  | answered _ _ _ _ t queried =>
    exact Or.inr (by simpa [Heard.denial, movedTo] using undenied_of_plain queried.plain)
  | ended _ _ _ _ t queried _ ran =>
    rcases ran.rejected standard with ⟨same, ended⟩ | free
    · cases same
      exact Or.inl ⟨_, rfl, rfl, rfl, ended.prepend (roundHeard_undenied t queried)⟩
    · refine Or.inr ?_
      rw [roundHeard, List.any_append, free, roundHeard_undenied t queried]
      rfl
  | limit _ _ _ t t' queried _ ran =>
    rcases ran.rejected standard with ⟨wrong, -⟩ | free
    · cases wrong
    · refine Or.inr ?_
      rw [List.any_append, List.any_append, roundHeard, List.any_append, free,
        roundHeard_undenied t queried]
      rfl
  | @next _ _ _ _ asked calls _ r _ _ _ _ _ t queried _ ran _ ih =>
    rcases ran.rejected standard with ⟨wrong, -⟩ | free
    · cases wrong
    · have round : (roundHeard asked t r calls ++ movedTo thinking).any Heard.denial = false := by
        rw [List.any_append, roundHeard, List.any_append, free, roundHeard_undenied t queried]
        rfl
      rcases ih with ⟨report, rfl, status, home, ended⟩ | later
      · exact Or.inl ⟨report, rfl, status, home, ended.prepend round⟩
      · exact Or.inr (by rw [List.any_append, round, later]; rfl)

/-- How a turn ends that was rejected: by going home and saving the session. -/
def RejectedEnd (o : Outcome TurnReport) (after : Session) (post : List Heard) : Prop :=
  ∃ tool success t t' report saved, post = afterDenial tool success t ++
      [⟨.turn .settle, false⟩, ⟨.now, t'⟩, ⟨.sessions (.save after), saved⟩] ∧
    report.status = .rejected ∧ o = savedOutcome (.ok report) saved

theorem TurnRun.saved {input : String} {o : Outcome TurnReport}
    (derived : TurnRun a s input ready l o after) :
    ∃ front saved, l = front ++ [⟨.sessions (.save after), saved⟩] := by
  cases derived with
  | refused notReady => exact absurd rfl notReady
  | @ran l o m b text t t' listed saved rounds =>
    refine ⟨opening (retryKey s.id) t listed ++ l ++ closing o b ++ [⟨.now, t'⟩], saved, ?_⟩
    simp

/-- After a denial a turn does nothing any more but report it. -/
theorem TurnRun.rejected {input : String} {o : Outcome TurnReport}
    (standard : a.registry = Registry.standard root settings)
    (derived : TurnRun a s input ready l o after) {pre post : List Heard} {summary : String}
    (split : l = pre ++ .confirmed summary false :: post) : RejectedEnd o after post := by
  cases derived with
  | refused notReady => exact absurd rfl notReady
  | @ran l o m b text t t' listed saved rounds =>
    have opens : (opening (retryKey s.id) t listed).any Heard.denial = false := rfl
    have closes : (closing o b ++ ([⟨.now, t'⟩,
        ⟨.sessions (.save (closed s.history.length o m t')), saved⟩] : List Heard)).any
          Heard.denial = false := by
      cases o with
      | error f => rfl
      | ok report => cases b <;> rfl
    rcases rounds.rejected standard with ⟨report, rfl, status, rfl, ended⟩ | free
    · obtain ⟨front, s', tool, success, t₂, rfl, free⟩ := ended
      refine ⟨tool, success, t₂, t', report, saved, ?_, status, rfl⟩
      refine @eq_of_only_denial (opening (retryKey s.id) t listed ++ front) _ pre post s' summary ?_ ?_ ?_
      · rw [List.any_append, opens, free]
        rfl
      · rfl
      · rw [← split]
        simp [closing, homecoming]
    · have none : (opening (retryKey s.id) t listed ++ l ++ closing o b ++ ([⟨.now, t'⟩,
          ⟨.sessions (.save (closed s.history.length o m t')), saved⟩] : List Heard)).any
            Heard.denial = false := by
        rw [List.append_assoc, List.any_append, List.any_append, opens, free, closes]
        rfl
      rw [split] at none
      simp [Heard.denial] at none

end

/-- A call goes on: it was announced, it was begun when the turn was not cancelled, and since then no
other was announced and it did not end. -/
def InCall (pre : List Heard) (call : Running) : Prop :=
  ∃ front, pre = front ++ .told (.started call.tool call.arguments) :: .polled false :: call.heard ∧
    ∀ h ∈ call.heard, h.delimits = false

/-- What never happens in a turn without its gate. -/
structure Gatekept (settings : Settings) (l : List Heard) (o : Outcome TurnReport)
    (after : Session) : Prop where
  writes : ∀ pre path content answer post,
    l = pre ++ ⟨.file (.write path content), answer⟩ :: post → ∃ call, InCall pre call ∧
      (call.tool = "edit_lines" ∨ call.tool = "create_file") ∧
      (settings.edit.autoApply = false → ∃ s, .confirmed s true ∈ call.heard)
  commands : ∀ pre p ended post, l = pre ++ ⟨.process p, ended⟩ :: post → ∃ call, InCall pre call ∧
    (call.tool = "run_command" → Admitted (Tool.policyOf settings) call p)
  denials : ∀ pre s post, l = pre ++ .confirmed s false :: post → RejectedEnd o after post
  /-- A call that is announced after a cancellation is not begun, and nothing but bookkeeping follows. -/
  cancelledCalls : ∀ pre tool arguments post, l = pre ++ .told (.started tool arguments) :: post →
    (∀ stop, .polled stop ∈ post → stop = true) →
    ∃ later, post = .polled true :: later ∧ ∀ h ∈ later, h.bookkeeping = true
  /-- After a cancellation no file is written, unless the turn had been seen not to be cancelled and
  nothing was heard since but that a directory was made. -/
  cancelledWrites : ∀ pre mid path content answer post,
    l = pre ++ mid ++ ⟨.file (.write path content), answer⟩ :: post →
    (∀ stop, .polled stop ∈ mid → stop = true) →
    readyToWrite path <:+ pre ++ mid ∧
      (mid = [] ∨ mid = [⟨.file (.makeDirs (Path.parent path)), .ok ()⟩])

section

variable {a : Agent} {settings : Settings} {root : String} {s after : Session} {l : List Heard}

theorem Permits.running {before : List Heard} {h : Heard} (permitted : Permits settings before h)
    (effect : h.harmless = false) :
    ∃ call, phase before = .within call ∧ call.Permits settings h := by
  cases here : phase before with
  | idle => simp [permitted.idle here] at effect
  | starting tool arguments =>
    obtain ⟨stop, rfl⟩ := permitted.starting tool arguments here
    cases effect
  | within call => exact ⟨call, rfl, permitted.within call here⟩
  | past =>
    have plain := Heard.plain_of_bookkeeping (permitted.past here)
    simp [Heard.harmless_of_plain plain] at effect

theorem suffix_of_running {pre : List Heard} {call : Running} (running : phase pre = .within call) :
    call.heard <:+ pre := by
  obtain ⟨front, same, -⟩ := within_split running
  exact ⟨front ++ [.told (.started call.tool call.arguments), .polled false], by simp [← same]⟩

/-- A call that is announced is begun when the turn is seen not to be cancelled, and otherwise only
bookkeeping follows. -/
theorem begun_of_announced {pre post : List Heard} {tool : String} {arguments : Json}
    (each : Each (Permits settings) [] (pre ++ .told (.started tool arguments) :: post))
    (more : post ≠ []) :
    ∃ stop later, post = .polled stop :: later ∧
      (stop = true → ∀ h ∈ later, h.bookkeeping = true) := by
  have opened : phase (pre ++ [.told (.started tool arguments)]) = .starting tool arguments := by
    rw [phase_concat]
    cases here : phase pre with
    | past => cases each.at.past here
    | _ => rfl
  obtain ⟨h, later, rfl⟩ := List.exists_cons_of_ne_nil more
  have next : Permits settings (pre ++ [.told (.started tool arguments)]) h :=
    (each_append.mp each).2.2.1
  obtain ⟨stop, rfl⟩ := next.starting tool arguments opened
  refine ⟨stop, later, rfl, ?_⟩
  rintro rfl x member
  obtain ⟨front, back, rfl⟩ := List.append_of_mem member
  have whole : Each (Permits settings) []
      ((pre ++ .told (.started tool arguments) :: .polled true :: front) ++ x :: back) := by
    simpa using each
  exact whole.at.past (phase_of_unstarted pre front tool arguments)

end

/- A turn that writes one file with approval and ends when the next is denied -/

def editingAgent : Agent := ⟨.standard "/p" {}, 1, 1, 0⟩

/-- A model that creates two files, and a user who approves of the first. -/
def choosy : Outside Nat where
  chat := fun _ _ => pure (.reply ⟨"",
    [⟨"1", "create_file", .obj [("path", .str "a"), ("content", .str "")]⟩,
      ⟨"2", "create_file", .obj [("path", .str "b"), ("content", .str "")]⟩], 1, 1, .toolUse⟩)
  abort := pure ()
  confirm := fun _ asked => (asked = 0, asked + 1)
  cancelled := pure false
  process := fun _ => pure .timedOut
  now := pure 0
  newId := pure ""
  tell := fun _ => pure ()
  progress := fun _ => pure ()

def smallWorld : World Nat := ⟨.ofFiles "/p" [] 0, .empty, "p", .ready, .new {}, 0⟩

def editingTurn : Act (Outcome TurnReport × Session) :=
  Turn.run editingAgent (.new "p" "1" 0) "hi"

end CodeAgent.Turn
