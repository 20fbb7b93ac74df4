import CodeAgent.Proofs.Tool.Naming
import CodeAgent.Proofs.Turn.Reversal

/-! What turns bring into view.
Only a call that succeeds brings a file into view, and it stays there. So what is in view after turns is what
was there before, and then what the calls of their accounts come to be named by. -/
namespace CodeAgent

theorem BodyEnd.done_of_outcome {e : BodyEnd} {o : ToolOutput} (ended : e.outcome = .ok o) : e = .done o := by
  cases e with
  | done output =>
    cases ended
    rfl
  | failed f => cases ended
  | crashed text => cases text <;> cases ended

namespace Turn

open TurnState

/-- The file that an entry of an account brings into view. -/
def Entry.viewed? : Entry → Option String
  | .reply _ => none
  | .call _ arguments outcome _ => outcome.toOption.bind (Turn.viewed? arguments)

/-- What is in view when one more file comes into view. -/
def note (files : List String) (path : String) : List String :=
  if path ∈ files then files else files ++ [path]

/-- What a session has in view when it has gone on by the entries of an account. -/
def Views (s : Session) (es : List Entry) (after : Session) : Prop :=
  after.context.filesInContext = (es.filterMap Entry.viewed?).foldl note s.context.filesInContext

theorem mem_note {files : List String} {path e : String} : e ∈ note files path ↔ e ∈ files ∨ e = path := by
  rw [note]
  split
  · rename_i before
    exact ⟨Or.inl, fun seen => seen.elim id fun same => same ▸ before⟩
  · simp

theorem mem_foldl_note {paths files : List String} {e : String} :
    e ∈ paths.foldl note files ↔ e ∈ files ∨ e ∈ paths := by
  induction paths generalizing files with
  | nil => simp
  | cons path paths ih => rw [List.foldl_cons, ih, mem_note, or_assoc, List.mem_cons]

theorem nodup_foldl_note {paths files : List String} (single : files.Nodup) :
    (paths.foldl note files).Nodup := by
  induction paths generalizing files with
  | nil => exact single
  | cons path paths ih =>
    refine ih ?_
    rw [note]
    split
    · exact single
    · rename_i new
      rw [← List.concat_eq_append]
      exact single.concat new

section

variable {a : Agent} {l : List Heard} {es es' : List Entry} {s m after : Session}

theorem Views.trans (first : Views s es m) (second : Views m es' after) : Views s (es ++ es') after := by
  rw [Views, List.filterMap_append, List.foldl_append, ← first]
  exact second

theorem filesInContext_referenceFile (s : Session) (path : String) :
    (s.referenceFile path).context.filesInContext = note s.context.filesInContext path := by
  rw [Session.referenceFile, note]
  split
  · rfl
  · rfl

theorem filesInContext_ofOutput (arguments : Json) (o : ToolOutput) (s : Session) :
    (Effect.ofOutput arguments o s).context.filesInContext =
      (viewed? arguments o).toList.foldl note s.context.filesInContext := by
  rw [Effect.ofOutput, viewed?]
  cases o.change with
  | some c => exact filesInContext_referenceFile s c.path
  | none =>
    rw [Effect.ofLook]
    cases (arguments.member? "path").bind Json.str? with
    | none => rfl
    | some given => exact filesInContext_referenceFile s _

/-- A call brings into view what it came to be named by, if it succeeded. -/
theorem views_ofResult (call : ToolCall) (outcome : Except String ToolOutput) (denied : Bool) (t : Int)
    (s : Session) :
    Views s [.call call.name call.arguments outcome denied] (Effect.ofResult a call outcome denied t s) := by
  have looked : (Effect.ofOutcome call.arguments outcome (Effect.ofCall s)).context.filesInContext =
      (outcome.toOption.bind (viewed? call.arguments)).toList.foldl note s.context.filesInContext := by
    cases outcome with
    | ok o => exact filesInContext_ofOutput call.arguments o (Effect.ofCall s)
    | error why => rfl
  have kept : (Effect.ofResult a call outcome denied t s).context.filesInContext =
      (Effect.ofOutcome call.arguments outcome (Effect.ofCall s)).context.filesInContext := by
    rw [Effect.ofResult]
    split
    · rfl
    · rfl
  rw [Views, kept, looked]
  cases named : outcome.toOption.bind (viewed? call.arguments) <;> simp [Entry.viewed?, named]

theorem CallRun.views {call : ToolCall} {denied : Bool} (ran : CallRun a call s l denied after) :
    ∃ e, Views s [e] after ∧ ∀ l' es, Account a l' es →
      Account a (.told (.started call.name call.arguments) :: .polled false :: (l ++ l')) (e :: es) := by
  cases ran with
  | @intro raw seg outcome b t executed ran gate =>
    refine ⟨_, views_ofResult call outcome _ t s, fun l' es account => ?_⟩
    rw [List.append_assoc]
    exact .call _ _ ran (.other rfl (.other rfl account))

theorem CallsRun.views {calls : List ToolCall} {n : Nat} {status : Option TurnStatus}
    (ran : CallsRun a calls s l n status after) : ∃ es, Account a l es ∧ Views s es after := by
  induction ran with
  | none s => exact ⟨[], .nil, rfl⟩
  | unstarted call later s => exact ⟨[], .unstarted _ _ .nil, rfl⟩
  | denied later ran =>
    obtain ⟨e, views, account⟩ := ran.views
    exact ⟨[e], by simpa using account [] [] .nil, views⟩
  | stopped later ran =>
    obtain ⟨e, views, account⟩ := ran.views
    exact ⟨[e], account [.polled true] [] (account_uncounted rfl), views⟩
  | next ran onward ih =>
    obtain ⟨e, views, account⟩ := ran.views
    obtain ⟨es, rests, kept⟩ := ih
    exact ⟨e :: es, account _ es (.other rfl rests), views.trans kept⟩

theorem views_replied (r : Reply) (window : Nat) (message : Message) (t : Int) (s : Session) :
    Views s [.reply r] ((Effect.ofReply r window s).addMessage message t) := rfl

theorem RoundsRun.views {system : Message} {key : String} {tally : TurnTally} {done left : Nat}
    {o : Outcome TurnReport} {b : TurnState}
    (derived : RoundsRun a system key tally done left s l o after b) :
    ∃ es, Account a l es ∧ Views s es after := by
  induction derived with
  | interrupted => exact ⟨[], account_uncounted rfl, rfl⟩
  | abandoned _ _ _ _ queried => exact ⟨[], .other rfl queried.account, rfl⟩
  | failed _ _ _ _ queried => exact ⟨[], .other rfl queried.account, rfl⟩
  | @answered _ _ _ _ _ r t queried final =>
    have ends : Account a (⟨.now, t⟩ :: .told (.response r.content) :: movedTo ready) [] :=
      account_uncounted rfl
    exact ⟨[.reply r], account_append (Account.other rfl queried.account) ends, views_replied ..⟩
  | @ended _ _ _ _ _ _ r _ _ _ t queried _ ran =>
    obtain ⟨es, account, views⟩ := ran.views
    exact ⟨.reply r :: es, roundHeard_account t queried.account account, (views_replied ..).trans views⟩
  | @limit _ _ _ _ _ r _ _ t t' queried _ ran =>
    obtain ⟨es, account, views⟩ := ran.views
    have rounds := roundHeard_account t queried.account account
    have ends : Account a (movedTo thinking ++ ⟨.now, t'⟩ :: movedTo ready) [] := account_uncounted rfl
    refine ⟨.reply r :: es, by simpa using account_append rounds ends, ?_⟩
    exact (views_replied ..).trans views
  | @next _ _ _ _ _ _ _ r _ _ _ _ _ t queried _ ran _ ih =>
    obtain ⟨es, account, views⟩ := ran.views
    obtain ⟨es', accounts, onward⟩ := ih
    have rounds := roundHeard_account t queried.account account
    have moved : Account a (movedTo thinking) [] := account_uncounted rfl
    refine ⟨(.reply r :: es) ++ es', ?_, (Views.trans (views_replied ..) views).trans onward⟩
    simpa using account_append (account_append rounds moved) accounts

theorem filesInContext_closed (mark : Nat) (o : Outcome TurnReport) (s : Session) (t : Int) :
    (closed mark o s t).context.filesInContext = s.context.filesInContext := by
  rw [closed]
  split
  · rfl
  · rfl

/-- What is in view after a turn follows from what was in view before it and the account of the turn. -/
theorem TurnRun.views {input : String} {start : TurnState} {o : Outcome TurnReport}
    (ran : TurnRun a s input start l o after) : ∃ es, Account a l es ∧ Views s es after := by
  cases ran with
  | refused => exact ⟨[], account_uncounted rfl, rfl⟩
  | @ran l o m b text t t' listed saved rounds =>
    obtain ⟨es, account, views⟩ := rounds.views
    have begun : (opened s input t).context.filesInContext = s.context.filesInContext := by
      obtain ⟨inputs, same⟩ := s.addInput_eq input
      rw [opened, same]
      rfl
    have opens : Account a (opening (retryKey s.id) t listed) [] := account_uncounted rfl
    have closes : Account a (closing o b) [] := account_uncounted (uncounted_closing o b)
    have ends : Account a [⟨.now, t'⟩,
        ⟨.sessions (.save (closed s.history.length o m t')), saved⟩] [] := account_uncounted rfl
    have whole := account_append (account_append (account_append opens account) closes) ends
    refine ⟨es, by simpa using whole, ?_⟩
    rw [Views, filesInContext_closed, views, begun]

/-- A call of an account was run, with the outcome that its entry tells of. -/
theorem Account.executed {name : String} {arguments : Json} {outcome : Except String ToolOutput} {denied : Bool}
    (account : Account a l es) (contained : a.registry.Contained)
    (member : .call name arguments outcome denied ∈ es) :
    ∃ k, Act.Trace (a.registry.execute Act.confirm name arguments) k outcome := by
  induction account with
  | nil => cases member
  | other _ _ ih => exact ih member
  | reply _ _ _ _ ih =>
    cases member with
    | tail _ later => exact ih later
  | unstarted _ _ _ ih => exact ih member
  | call name arguments ran _ ih =>
    cases member with
    | head => exact ⟨_, trace_of_gated ran (contained.within_execute name arguments)⟩
    | tail _ later => exact ih later

theorem done_of_execution {tool : Tool Act} {arguments : Json} {o : ToolOutput}
    (execution : Registry.Execution tool arguments l (.ok o)) :
    ∃ k, Act.Trace (tool.body arguments) k (.done o) := by
  generalize ended : Except.ok o = out at execution
  cases execution with
  | ungated _ body => exact ⟨_, BodyEnd.done_of_outcome ended.symm ▸ body⟩
  | approved _ _ body => exact ⟨_, BodyEnd.done_of_outcome ended.symm ▸ body⟩
  | denied => cases ended

/-- What comes into view by a call of the standard tools has a name there that the call's path gives it. -/
theorem Account.inView {root e : String} {settings : Settings} {entry : Entry} (account : Account a l es)
    (tools : a.registry = .standard root settings) (member : entry ∈ es) (named : entry.viewed? = some e) :
    ∃ name arguments o denied given, entry = .call name arguments (.ok o) denied ∧
      arguments.member? "path" = some (.str given) ∧ Tool.InView root name given e := by
  cases entry with
  | reply => cases named
  | call name arguments outcome denied =>
    cases outcome with
    | error why => cases named
    | ok o =>
      obtain ⟨k, executed⟩ := account.executed (tools ▸ Registry.contained_standard root settings) member
      rw [tools] at executed
      rcases Registry.trace_execute executed with ⟨-, _, wrong⟩ | ⟨t, found, execution⟩
      · cases wrong
      obtain ⟨among, rfl⟩ := Registry.mem_of_get? found
      obtain ⟨k, run⟩ := done_of_execution execution
      obtain ⟨given, asked, called⟩ := Tool.inView_standard among run named
      exact ⟨t.name, arguments, o, denied, given, rfl, asked, called⟩

/-- A path that a call is named by is the project's own name, unless that is none or has blanks at its ends. -/
theorem normal_of_inView {root tool given e : String} (canonical : Path.Canonical root)
    (named : Tool.InView root tool given e) (speaks : tool ∉ Tool.mutes) (name : e ≠ "") (part : e ≠ ".")
    (neat : Text.trim e = e) : Path.Normal root e := by
  cases named with
  | named _ resolved => exact Path.normal_relative canonical resolved name neat
  | whole _ => exact absurd rfl part
  | nowhere => exact absurd rfl name
  | spelled _ mute => exact absurd mute speaks

/-- Turns on one session, one after the other, by agents with the standard tools. -/
inductive Worked (root : String) : Session → List (List Heard) → Session → Prop where
  | nil (s : Session) : Worked root s [] s
  | cons {a : Agent} {settings : Settings} {s m after : Session} {input : String} {start b : TurnState}
      {l : List Heard} {ls : List (List Heard)} {o : Outcome TurnReport} {path : List TurnState}
      (tools : a.registry = .standard root settings) (run : Act.Trace (Turn.run a s input) l (o, m))
      (walk : Walk start l path b) (rest : Worked root m ls after) : Worked root s (l :: ls) after

/-- The account of a turn by an agent with the standard tools. -/
def Accounted (root : String) (l : List Heard) (es : List Entry) : Prop :=
  ∃ (a : Agent) (settings : Settings), a.registry = .standard root settings ∧ Account a l es

theorem Worked.views {root : String} {ls : List (List Heard)} (worked : Worked root s ls after) :
    ∃ accounts, List.Forall₂ (Accounted root) ls accounts ∧ Views s accounts.flatten after := by
  induction worked with
  | nil s => exact ⟨[], .nil, rfl⟩
  | @cons a settings s m after input start b l ls o path tools run walk _ ih =>
    have contained : a.registry.Contained := tools ▸ Registry.contained_standard root settings
    obtain ⟨es, account, views⟩ := (trace_run contained run walk).1.views
    obtain ⟨accounts, each, onward⟩ := ih
    exact ⟨es :: accounts, .cons ⟨a, settings, tools, account⟩ each, views.trans onward⟩

/-- Whatever turns do, what is in view after them follows from their accounts: it stays there and stands there
once. What comes into view is called by the name of what a call's path stands for, and so by its own name
unless that is empty or has blanks at its ends; or it is the whole project, or the spelling of a call whose
tool does not name what it was given. -/
theorem views_of_turns {root : String} {ls : List (List Heard)} (canonical : Path.Canonical root)
    (worked : Worked root s ls after) :
    ∃ accounts, List.Forall₂ (Accounted root) ls accounts ∧ Views s accounts.flatten after ∧
      (s.context.filesInContext.Nodup → after.context.filesInContext.Nodup) ∧
      ∀ e ∈ after.context.filesInContext, e ∈ s.context.filesInContext ∨
        ∃ name arguments o denied given, .call name arguments (.ok o) denied ∈ accounts.flatten ∧
          arguments.member? "path" = some (.str given) ∧ Tool.InView root name given e ∧
          (name ∉ Tool.mutes → e ≠ "" → e ≠ "." → Text.trim e = e → Path.Normal root e) := by
  obtain ⟨accounts, each, views⟩ := worked.views
  -- the turns may be of several agents, so it is each account that knows its own
  have told : ∀ es ∈ accounts, ∃ l, Accounted root l es :=
    ((List.forall₂_and_left accounts ls).mp (each.flip.imp fun _ l told => ⟨⟨l, told⟩, told⟩)).1
  refine ⟨accounts, each, views, fun single => views ▸ nodup_foldl_note single, fun e seen => ?_⟩
  rw [views, mem_foldl_note] at seen
  refine seen.imp id fun brought => ?_
  obtain ⟨entry, member, named⟩ := List.mem_filterMap.mp brought
  obtain ⟨es, among, inside⟩ := List.mem_flatten.mp member
  obtain ⟨l, a, settings, tools, account⟩ := told es among
  obtain ⟨name, arguments, o, denied, given, rfl, asked, called⟩ := account.inView tools inside named
  exact ⟨name, arguments, o, denied, given, member, asked, called, normal_of_inView canonical called⟩

/- A file that comes into view twice -/

/-- A model that looks twice for what is to do in a file. -/
def dotted : Outside Unit where
  chat := fun _ _ => pure (.reply ⟨"",
    [⟨"1", "get_todos", .obj [("path", .str "a.ts")]⟩,
      ⟨"2", "get_todos", .obj [("path", .str "./a.ts")]⟩], 1, 1, .toolUse⟩)
  abort := pure ()
  confirm := fun _ => pure true
  cancelled := pure false
  process := fun _ => pure .timedOut
  now := pure 0
  newId := pure ""
  tell := fun _ => pure ()
  progress := fun _ => pure ()

/-- A project whose index has the file. -/
def todoWorld : World Unit :=
  let indexed := (Database.empty.answer "p" (.setFile ⟨"a.ts", ["// TODO: x"], "", 11, 0⟩)).2
  ⟨.ofFiles "/p" [("a.ts", "// TODO: x\n".toUTF8)] 0, indexed, "p", .ready, .new {}, ()⟩

theorem worked_dotted : Worked "/p" (.new "p" "1" 0) [World.heard dotted editingTurn todoWorld]
    (World.run dotted editingTurn todoWorld).1.2 := by
  obtain ⟨path, walk⟩ := World.walk_run dotted editingTurn todoWorld
  have standard : editingAgent.registry = .standard "/p" {} := rfl
  exact .cons standard (World.trace_run_pair dotted editingTurn todoWorld) walk (.nil _)

theorem filesInContext_dotted :
    (World.run dotted editingTurn todoWorld).1.2.context.filesInContext = ["a.ts", "./a.ts"] := by
  decide +kernel

theorem two_spellings_dotted : ∃ ls after, Worked "/p" (.new "p" "1" 0) ls after ∧
    after.context.filesInContext = ["a.ts", "./a.ts"] ∧
    Path.resolve "/p" "./a.ts" = Path.resolve "/p" "a.ts" ∧ ¬ Path.Normal "/p" "./a.ts" :=
  ⟨_, _, worked_dotted, filesInContext_dotted, by decide +kernel, by decide +kernel⟩

theorem views_of_turns_dotted : ∃ ls after, Worked "/p" (.new "p" "1" 0) ls after ∧
    after.context.filesInContext = ["a.ts", "./a.ts"] ∧ after.context.filesInContext.Nodup ∧
    ∃ accounts, List.Forall₂ (Accounted "/p") ls accounts ∧ ∃ name arguments o denied given,
      .call name arguments (.ok o) denied ∈ accounts.flatten ∧
      arguments.member? "path" = some (.str given) ∧ Tool.InView "/p" name given "./a.ts" := by
  obtain ⟨accounts, each, -, once, brought⟩ := views_of_turns Tool.canonical_p worked_dotted
  refine ⟨_, _, worked_dotted, filesInContext_dotted, once (by decide), accounts, each, ?_⟩
  have among : "./a.ts" ∈ (World.run dotted editingTurn todoWorld).1.2.context.filesInContext := by
    rw [filesInContext_dotted]
    decide
  rcases brought "./a.ts" among with before | ⟨name, arguments, o, denied, given, ran, asked, called, -⟩
  · cases before
  · exact ⟨name, arguments, o, denied, given, ran, asked, called⟩

end

end Turn

end CodeAgent
