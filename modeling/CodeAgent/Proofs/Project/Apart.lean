import CodeAgent.Proofs.Project.Scanning
import CodeAgent.Proofs.Session.Lifecycle
import CodeAgent.Proofs.Store.Apart
import CodeAgent.Proofs.Tool.Standard
import CodeAgent.Proofs.Turn.Storing
import CodeAgent.Workspace

/-! Projects that are open on one database.
Whatever is done in one of them, the others hear what they would hear without it. A project is known to
the database by its name alone, and a session by its id alone, so this holds of projects with different
names that ask for no session by the id of another's. -/
namespace CodeAgent

open TurnState

/- What the programs of a project ask -/

section

variable {owner : String → String} {project : String}

theorem Ask.own_of_storeless {q : Ask} (storeless : q.storeless = true) : q.Own owner project := by
  cases q with
  | sessions c => cases storeless
  | _ => trivial

theorem Attempt.own_index (c : IndexCall) : Within (Ask.Own owner project) (fun _ => True) (index c) :=
  Act.Within.ask trivial fun _ => .done fun _ _ => trivial

theorem Files.own_call (what path : String) (c : FileCall) :
    Attempt.Within (Ask.Own owner project) (fun _ => True) (call what path c) := by
  have asked : Act.Within (Ask.Own owner project) (fun _ => True) (Act.file c) :=
    Act.within_query (q := .file c) trivial fun _ => trivial
  refine Attempt.within_next (Attempt.within_lift asked) fun answer => ?_
  cases answer with
  | ok a => exact Attempt.within_pure trivial
  | error e => exact Attempt.within_throw

theorem Indexing.own_run (root : String) (settings : ProjectSettings) (extraIgnored : List String) :
    Attempt.Within (Ask.Own owner project) (fun _ => True) (run root settings extraIgnored) := by
  have now : Act.Within (Ask.Own owner project) (fun _ => True) Act.now :=
    Act.within_query (q := .now) trivial fun _ => trivial
  rw [run_eq]
  have gathering : Attempt.Within (Ask.Own owner project) (fun _ => True)
      (gather root settings extraIgnored) :=
    within_gather (fun _ _ => trivial) (fun _ => trivial) trivial ..
  refine Attempt.within_next gathering fun gathered => ?_
  refine Attempt.within_next (Attempt.own_index (.commit _)) fun _ => ?_
  refine Attempt.within_next (Attempt.within_lift (within_progress (fun _ => trivial) _)) fun _ => ?_
  exact Attempt.within_next (Attempt.within_lift now) fun time => Attempt.within_pure trivial

theorem Undo.own_attempt (root : String) (c : Change) :
    Attempt.Within (Ask.Own owner project) (fun _ => True) (attempt root c) := by
  refine Attempt.within_next (Files.within_readText (fun _ _ => trivial) _) fun current => ?_
  split
  · exact Attempt.within_pure trivial
  refine Attempt.within_next ?_ fun _ => Attempt.within_pure trivial
  rw [revert]
  split
  · exact Attempt.within_next (Files.own_call _ _ (.remove _)) fun _ => Attempt.own_index (.deleteFile _)
  · have written : Attempt.Within (Ask.Own owner project) (fun _ => True)
        (Files.writeText (Path.join root c.path) (Text.unlines c.previousLines)) :=
      Attempt.within_next (Files.own_call _ _ (.makeDirs _)) fun _ => Files.own_call _ _ (.write _ _)
    refine Attempt.within_next written fun _ => ?_
    exact Attempt.within_next (Files.within_loadRecord (fun _ _ => trivial) ..) fun r =>
      Attempt.own_index (.setFile r)

/-- An undo asks for no session, and the session goes on. -/
theorem Undo.own_run {root : String} {s after : Session} {l : List Heard} {report : UndoReport}
    (run : Act.Trace (Undo.run root s) l (report, after)) :
    (∀ h ∈ l, h.question.Own owner project) ∧ s.GoesOn after := by
  rw [Undo.run] at run
  have onward := s.goesOn_popUndo
  cases popped : s.popUndo with
  | mk top rest =>
    rw [popped] at run onward
    cases top with
    | none =>
      obtain ⟨rfl, same⟩ := Act.trace_pure.mp run
      obtain ⟨-, rfl⟩ := Prod.mk.inj same
      exact ⟨List.forall_mem_nil _, onward⟩
    | some c =>
      obtain ⟨r, l₁, l₂, rfl, tried, ending⟩ := Act.trace_bind.mp run
      have asks : ∀ h ∈ l₁, h.question.Own owner project := (tried.within (Undo.own_attempt root c)).1
      match r, ending with
      | .ok true, ending =>
        obtain ⟨t, _, _, rfl, timed, noted⟩ := Act.trace_bind.mp ending
        obtain rfl := Act.trace_now.mp timed
        obtain ⟨rfl, same⟩ := Act.trace_pure.mp noted
        obtain ⟨-, rfl⟩ := Prod.mk.inj same
        exact ⟨List.forall_mem_append.mpr ⟨asks, List.forall_mem_singleton.mpr trivial⟩,
          onward.trans ⟨rfl, rfl⟩⟩
      | .ok false, ending =>
        obtain ⟨rfl, same⟩ := Act.trace_pure.mp ending
        obtain ⟨-, rfl⟩ := Prod.mk.inj same
        exact ⟨by rwa [List.append_nil], onward.trans ⟨rfl, rfl⟩⟩
      | .error f, ending =>
        obtain ⟨rfl, same⟩ := Act.trace_pure.mp ending
        obtain ⟨-, rfl⟩ := Prod.mk.inj same
        exact ⟨by rwa [List.append_nil], onward.trans ⟨rfl, rfl⟩⟩

end

namespace Session

variable {owner : String → String} {project : String} {s s' : Session}

/-- What a session of a project becomes is a session of the project. -/
theorem Of.goesOn (own : s.Of owner project) (onward : s.GoesOn s') : s'.Of owner project :=
  ⟨onward.project.trans own.1, by rw [onward.id, own.2]⟩

theorem goesOn_limited (settings : SessionSettings) (s : Session) :
    s.GoesOn (s.limited settings) := ⟨rfl, rfl⟩

theorem goesOn_touch (s : Session) (now : Int) : s.GoesOn (s.touch now) := ⟨rfl, rfl⟩

end Session

namespace Workspace

/-- What is done in a project with the sessions that it has got hold of, what is heard with it, and the
sessions that it has got hold of then. Ids that are drawn have not been drawn before, and a session is
asked for by an id of the project's own. -/
inductive Uses (owner : String → String) (w : Workspace) (held : List Session) :
    List Heard → List Session → Prop where
  | index {extraIgnored : List String} {l : List Heard} {r : Outcome IndexStats}
      (run : Act.Trace (w.index extraIgnored).run l r) : Uses owner w held l held
  | lastIndexed {l : List Heard} {r : Outcome (Option Int)} (run : Act.Trace w.lastIndexed.run l r) :
      Uses owner w held l held
  | ask {c : IndexCall} {l : List Heard} {r : Outcome c.Result} (run : Act.Trace (Act.index c) l r) :
      Uses owner w held l held
  | tool {name : String} {arguments : Json} {l : List Heard} {r : Except String ToolOutput}
      (run : Act.Trace (w.registry.execute Act.confirm name arguments) l r) : Uses owner w held l held
  | start {l : List Heard} {r : Outcome Session} (run : Act.Trace w.start.run l r)
      (drawn : ∀ id, (⟨.newId, id⟩ : Heard) ∈ l → owner id = w.name) :
      Uses owner w held l (r.toOption.toList ++ held)
  | resume {l : List Heard} {r : Outcome Session} (run : Act.Trace w.resume.run l r)
      (drawn : ∀ id, (⟨.newId, id⟩ : Heard) ∈ l → owner id = w.name) :
      Uses owner w held l (r.toOption.toList ++ held)
  | load {id : String} {l : List Heard} {r : Outcome (Option Session)}
      (run : Act.Trace (Session.load w.settings.session id).run l r) (own : owner id = w.name) :
      Uses owner w held l (r.toOption.join.toList ++ held)
  | delete {id : String} {l : List Heard} {r : Outcome Unit} (run : Act.Trace (Session.delete id).run l r)
      (own : owner id = w.name) : Uses owner w held l held
  | list {l : List Heard} {r : Outcome (List SessionSummary)}
      (run : Act.Trace (Session.list (some w.name)).run l r) : Uses owner w held l held
  | turn {s after : Session} {input : String} {l : List Heard} {r : Outcome TurnReport}
      {b c : TurnState} {path : List TurnState} (has : s ∈ held)
      (run : Act.Trace (w.turn s input) l (r, after)) (walk : Walk b l path c) :
      Uses owner w held l (after :: held)
  | undo {s after : Session} {l : List Heard} {r : Outcome UndoReport} (has : s ∈ held)
      (run : Act.Trace (w.undo s) l (r, after)) : Uses owner w held l (after :: held)
  | persist {s after : Session} {l : List Heard} {r : Outcome Unit} (has : s ∈ held)
      (run : Act.Trace s.persist l (r, after)) : Uses owner w held l (after :: held)
  /-- Nothing is asked, as when the history is cleared. -/
  | change {s after : Session} (has : s ∈ held) (onward : s.GoesOn after) :
      Uses owner w held [] (after :: held)

section

variable {owner : String → String} {w : Workspace} {held kept : List Session} {l : List Heard}

theorem own_start {r : Outcome Session} (run : Act.Trace w.start.run l r)
    (drawn : ∀ id, (⟨.newId, id⟩ : Heard) ∈ l → owner id = w.name) :
    (∀ h ∈ l, h.question.Own owner w.name) ∧ ∀ s, r = .ok s → s.Of owner w.name := by
  obtain ⟨id, now, saved, rfl, rfl⟩ := Session.trace_start run
  have own : ((Session.new w.name id now).limited w.settings.session).Of owner w.name :=
    ⟨rfl, drawn id List.mem_cons_self⟩
  refine ⟨?_, fun s same => ?_⟩
  · exact List.forall_mem_cons.mpr ⟨trivial, List.forall_mem_cons.mpr
      ⟨trivial, List.forall_mem_singleton.mpr own⟩⟩
  · cases saved with
    | error f => cases same
    | ok =>
      obtain rfl := Except.ok.inj same
      exact own

theorem own_persist {s after : Session} {r : Outcome Unit} (own : s.Of owner w.name)
    (run : Act.Trace s.persist l (r, after)) :
    (∀ h ∈ l, h.question.Own owner w.name) ∧ after.Of owner w.name := by
  obtain ⟨t, rfl, rfl⟩ := Turn.trace_persist run
  have onward := own.goesOn (s.goesOn_touch t)
  exact ⟨List.forall_mem_cons.mpr ⟨trivial, List.forall_mem_singleton.mpr onward⟩, onward⟩

theorem minds_resume {r : Outcome Session} (run : Act.Trace w.resume.run l r)
    (drawn : ∀ id, (⟨.newId, id⟩ : Heard) ∈ l → owner id = w.name) :
    Minds owner w.name l ∧ ((∀ h ∈ l, ∀ s, h.given? = some s → s.Of owner w.name) →
      ∀ s, r = .ok s → s.Of owner w.name) := by
  obtain ⟨latest, rest, rfl, ending⟩ := Session.trace_resume run
  match latest, ending with
  | .error f, ending =>
    obtain ⟨rfl, rfl⟩ := ending
    exact ⟨⟨rfl, fun _ => trivial⟩, fun _ s same => by cases same⟩
  | .ok none, ending =>
    have started := own_start ending fun id member => drawn id (List.mem_cons_of_mem _ member)
    exact ⟨⟨rfl, fun _ => minds_of_own started.1⟩, fun _ => started.2⟩
  | .ok (some found), ending =>
    obtain ⟨now, saved, rfl, rfl⟩ := ending
    have onward : found.GoesOn ((found.limited w.settings.session).touch now) := ⟨rfl, rfl⟩
    refine ⟨⟨rfl, fun given => ⟨trivial, fun _ => ⟨?_, fun _ => trivial⟩⟩⟩, fun given s same => ?_⟩
    · exact (given found rfl).goesOn onward
    cases saved with
    | error f => cases same
    | ok =>
      obtain rfl := Except.ok.inj same
      exact (given _ List.mem_cons_self found rfl).goesOn onward

/-- A project asks for its own sessions, and gets hold of no others. -/
theorem Uses.minds (uses : w.Uses owner held l kept) (own : ∀ s ∈ held, s.Of owner w.name) :
    Minds owner w.name l ∧ ((∀ h ∈ l, ∀ s, h.given? = some s → s.Of owner w.name) →
      ∀ s ∈ kept, s.Of owner w.name) := by
  have returned {r : Outcome Session} (its : ∀ s, r = .ok s → s.Of owner w.name) :
      ∀ s ∈ r.toOption.toList ++ held, s.Of owner w.name := by
    intro s member
    rcases List.mem_append.mp member with new | old
    · cases r with
      | error f => cases new
      | ok s' => exact its s (by rw [List.mem_singleton.mp new])
    · exact own s old
  have added {s : Session} (its : s.Of owner w.name) : ∀ s' ∈ s :: held, s'.Of owner w.name :=
    List.forall_mem_cons.mpr ⟨its, own⟩
  cases uses with
  | index run => exact ⟨minds_of_own (run.within (Indexing.own_run ..)).1, fun _ => own⟩
  | lastIndexed run =>
    have asks : Attempt.Within (Ask.Own owner w.name) (fun _ => True) w.lastIndexed :=
      Attempt.within_next (Attempt.own_index (.note lastIndexedKey)) fun _ => Attempt.within_pure trivial
    exact ⟨minds_of_own (run.within asks).1, fun _ => own⟩
  | ask run =>
    obtain rfl := Act.trace_index.mp run
    exact ⟨⟨trivial, fun _ => trivial⟩, fun _ => own⟩
  | @tool name arguments l r run =>
    have contained : w.registry.Contained := Registry.contained_standard w.root w.settings
    have tools := (run.within (contained.within_execute name arguments)).1
    exact ⟨minds_of_own fun h member => Ask.own_of_storeless (Ask.storeless_of_ofTool (tools h member)),
      fun _ => own⟩
  | start run drawn =>
    have started := own_start run drawn
    exact ⟨minds_of_own started.1, fun _ => returned started.2⟩
  | resume run drawn =>
    have resumed := minds_resume run drawn
    exact ⟨resumed.1, fun given => returned (resumed.2 given)⟩
  | load run its =>
    obtain ⟨found, rfl, rfl⟩ := Session.trace_load run
    refine ⟨⟨its, fun _ => trivial⟩, fun given s member => ?_⟩
    rcases List.mem_append.mp member with new | old
    · match found, new with
      | .ok (some found), new =>
        obtain rfl := List.mem_singleton.mp new
        exact (given _ List.mem_cons_self found rfl).goesOn (Session.goesOn_limited ..)
    · exact own s old
  | delete run its =>
    obtain rfl := Act.trace_sessions.mp run
    exact ⟨⟨its, fun _ => trivial⟩, fun _ => own⟩
  | list run =>
    obtain rfl := Act.trace_sessions.mp run
    exact ⟨⟨rfl, fun _ => trivial⟩, fun _ => own⟩
  | @turn s after input l r b c path has run walk =>
    have contained : w.agent.registry.Contained := Registry.contained_standard w.root w.settings
    obtain ⟨onward, storing⟩ := (Turn.trace_run contained run walk).1.storing
    have its := (own s has).goesOn onward
    refine ⟨minds_of_own fun h member => ?_, fun _ => added its⟩
    rcases storing h member with storeless | saves
    · exact Ask.own_of_storeless storeless
    · rw [saves]
      exact its
  | @undo s after l r has run =>
    obtain ⟨⟨report, m⟩, l₁, k, rfl, undone, run₁⟩ := Act.trace_bind.mp run
    obtain ⟨⟨saved, m'⟩, l₂, l₃, rfl, persisted, ending⟩ := Act.trace_bind.mp run₁
    obtain ⟨rfl, same⟩ := Act.trace_pure.mp ending
    obtain ⟨-, rfl⟩ := Prod.mk.inj same
    obtain ⟨asks, onward⟩ := Undo.own_run undone
    obtain ⟨saves, its⟩ := own_persist ((own s has).goesOn onward) persisted
    rw [List.append_nil]
    exact ⟨minds_of_own (List.forall_mem_append.mpr ⟨asks, saves⟩), fun _ => added its⟩
  | persist has run =>
    obtain ⟨saves, its⟩ := own_persist (own _ has) run
    exact ⟨minds_of_own saves, fun _ => added its⟩
  | change has onward => exact ⟨trivial, fun _ => added ((own _ has).goesOn onward)⟩

end

/- Several projects on one database -/

section

variable {ι : Type} [DecidableEq ι]

/-- Projects that are open on one database. Each step is of one of them, with what it heard of the
database and of all the rest. -/
inductive Shared (owner : String → String) (ws : ι → Workspace) :
    Database → (ι → List Session) → List (ι × List Heard) → Database → (ι → List Session) → Prop where
  | nil (d : Database) (held : ι → List Session) : Shared owner ws d held [] d held
  | cons {d m d' : Database} {held held' : ι → List Session} {i : ι} {l : List Heard}
      {kept : List Session} {steps : List (ι × List Heard)} (uses : (ws i).Uses owner (held i) l kept)
      (serves : Database.Serves (ws i).name d l m)
      (rest : Shared owner ws m (Function.update held i kept) steps d' held') :
      Shared owner ws d held ((i, l) :: steps) d' held'

variable {owner : String → String} {ws : ι → Workspace} {d d' e : Database}
  {held held' : ι → List Session} {steps : List (ι × List Heard)}

/-- The steps of one project can be taken without those of the others, on a database with the same part
for it. Its part stays the same in both, since a step of another project leaves it as it is. -/
theorem Shared.filter (shared : Shared owner ws d held steps d' held')
    (names : Function.Injective fun j => (ws j).name) (ownedD : d.Owned owner) (ownedE : e.Owned owner)
    (own : ∀ j, ∀ s ∈ held j, s.Of owner (ws j).name) {i : ι} (alike : Database.Alike (ws i).name d e)
    (heldE : ι → List Session) (same : heldE i = held i) :
    ∃ e' kept, Shared owner ws e heldE (steps.filter (·.1 = i)) e' kept ∧ kept i = held' i ∧
      Database.Alike (ws i).name d' e' ∧ d'.Owned owner ∧ e'.Owned owner := by
  induction shared generalizing e heldE with
  | nil d held => exact ⟨e, heldE, .nil e heldE, same, alike, ownedD, ownedE⟩
  | @cons d m d' held held' j l kept steps uses serves rest ih =>
    obtain ⟨minds, gets⟩ := uses.minds (own j)
    obtain ⟨asks, given, ownedM⟩ := ownedD.serves serves minds
    have own' : ∀ k, ∀ s ∈ Function.update held j kept k, s.Of owner (ws k).name := by
      intro k s member
      by_cases here : k = j
      · subst here
        rw [Function.update_self] at member
        exact gets given s member
      · rw [Function.update_of_ne here] at member
        exact own k s member
    by_cases mine : j = i
    -- a step of the project is taken in both databases, with the same answers
    · subst mine
      obtain ⟨n, servesE, alikeM, ownedN⟩ := alike.serves ownedD ownedE serves asks
      obtain ⟨e', keptE, onward, ending⟩ := ih ownedM ownedN own' alikeM
        (Function.update heldE j kept) (by rw [Function.update_self, Function.update_self])
      rw [List.filter_cons_of_pos (by simp)]
      exact ⟨e', keptE, .cons (same.symm ▸ uses) servesE onward, ending⟩
    -- a step of another is left out, and its part is what it was
    · have different : (ws i).name ≠ (ws j).name := fun named => mine (names named).symm
      have untouched := Database.alike_serves_other ownedD serves asks different
      rw [List.filter_cons_of_neg (by simpa using mine)]
      exact ih ownedM ownedE own' (untouched.trans alike) heldE
        (by rw [Function.update_of_ne (Ne.symm mine), same])

/-- Projects whose directories have different names, open on one database, do not notice each other. With
all steps of the others left out, what a project hears, the sessions that it has got hold of, and all that
it can ask for afterwards are the same. -/
theorem open_apart {roots : ι → String} {settings : ι → Settings}
    (names : Function.Injective fun j => Path.projectName (roots j)) (owned : d.Owned owner)
    (shared : Shared owner (fun j => ofRoot (roots j) (settings j)) d (fun _ => []) steps d' held) (i : ι) :
    ∃ e kept, Shared owner (fun j => ofRoot (roots j) (settings j)) d (fun _ => [])
        (steps.filter (·.1 = i)) e kept ∧ kept i = held i ∧
      (∀ c : IndexCall, (d'.answer (Path.projectName (roots i)) c).1 =
        (e.answer (Path.projectName (roots i)) c).1) ∧
      ∀ c : SessionCall, c.Own owner (Path.projectName (roots i)) →
        (d'.answerSession c).1 = (e.answerSession c).1 := by
  obtain ⟨e, kept, alone, same, alike, ownedD, ownedE⟩ :=
    shared.filter names owned owned (fun _ => List.forall_mem_nil _) (.refl _ d) (fun _ => []) rfl
  exact ⟨e, kept, alone, same, fun c => Database.answer_congr alike.shelves c,
    fun c own => alike.answerSession ownedD ownedE own⟩

end

/- A session starts under an id that is drawn -/

/-- The session that starts at the time zero. -/
def begun (w : Workspace) (id : String) : Session :=
  (Session.new w.name id 0).limited w.settings.session

/-- What is heard while it starts. -/
def beginning (w : Workspace) (id : String) : List Heard :=
  [⟨.newId, id⟩, ⟨.now, (0 : Int)⟩, ⟨.sessions (.save (w.begun id)), .ok ()⟩]

theorem trace_beginning (w : Workspace) (id : String) :
    Act.Trace w.start.run (w.beginning id) (.ok (w.begun id)) :=
  .ask .newId _ _ (.ask .now _ _ (.ask (.sessions (.save _)) _ _ (.done _)))

theorem serves_beginning (w : Workspace) (id : String) (d : Database) :
    Database.Serves w.name d (w.beginning id) (d.putRow (Database.rowOf (w.begun id))) :=
  .cons trivial (.cons trivial (.cons rfl (.nil _)))

theorem serves_delete (project id : String) (d : Database) :
    Database.Serves project d [⟨.sessions (.delete id), .ok ()⟩] (d.removeRow id) := .cons rfl (.nil _)

theorem uses_beginning {owner : String → String} (w : Workspace) (held : List Session) {id : String}
    (own : owner id = w.name) : w.Uses owner held (w.beginning id) (w.begun id :: held) := by
  refine .start (w.trace_beginning id) fun drawn member => ?_
  simp only [beginning, List.mem_cons, Heard.mk.injEq, heq_eq_eq, true_and, reduceCtorEq, false_and,
    List.not_mem_nil, or_false] at member
  rw [member, own]

/-- Two projects, with sessions named after them. -/
def twoRoots (second : Bool) : String := if second then "/x/b" else "/x/a"

def beside (second : Bool) : Workspace := ofRoot (twoRoots second) {}

def oneBesideTheOther : List (Bool × List Heard) :=
  [(false, (beside false).beginning "a"), (true, (beside true).beginning "b"),
    (false, [⟨.sessions (.delete "a"), .ok ()⟩])]

theorem open_apart_beside :
    ∃ d held, Shared id beside .empty (fun _ => []) oneBesideTheOther d held ∧
      ∃ e kept, Shared id beside .empty (fun _ => []) [(true, (beside true).beginning "b")] e kept ∧
        kept true = held true ∧
        (∀ c : IndexCall, (d.answer "b" c).1 = (e.answer "b" c).1) ∧
        ∀ c : SessionCall, c.Own id "b" → (d.answerSession c).1 = (e.answerSession c).1 := by
  have nameA : (beside false).name = "a" := by decide +kernel
  have nameB : (beside true).name = "b" := by decide +kernel
  have names : ∀ i j, Path.projectName (twoRoots i) = Path.projectName (twoRoots j) → i = j := by
    decide +kernel
  have deleted : Act.Trace (Session.delete "a").run [⟨.sessions (.delete "a"), .ok ()⟩] (.ok ()) :=
    .ask (.sessions (.delete "a")) _ _ (.done _)
  have shared : Shared id beside .empty (fun _ => []) oneBesideTheOther _ _ :=
    .cons (uses_beginning (beside false) _ nameA.symm) (serves_beginning _ _ _)
      (.cons (uses_beginning (beside true) _ nameB.symm) (serves_beginning _ _ _)
        (.cons (.delete deleted nameA.symm) (serves_delete _ _ _) (.nil _ _)))
  obtain ⟨e, kept, alone, same, index, sessions⟩ :=
    open_apart (fun i j => names i j) (Database.owned_empty rfl) shared true
  exact ⟨_, _, shared, e, kept, alone, same, nameB ▸ index, nameB ▸ sessions⟩

/- Where they do notice each other -/

theorem latest_single {d : Database} {s : Session} (single : d.sessions = [Database.rowOf s])
    (fits : s.Fits) (shallow : s.Shallow) (known : s.schemaVersion ≤ Session.currentVersion) :
    (d.answerSession (.latest s.projectName)).1 = .ok (some s) := by
  have first : (Database.newestFirst (Database.ofProject d.sessions (some s.projectName))).head? =
      some (Database.rowOf s) := by
    simp [single, Database.ofProject, Database.newestFirst]
  rw [Database.answerSession, first, Database.read, Database.decodeRow_some,
    Session.restore_rowOf fits shallow known]
  rfl

theorem latest_none {d : Database} (none : d.sessions = []) (project : String) :
    (d.answerSession (.latest project)).1 = .ok .none := by
  have first : (Database.newestFirst (Database.ofProject d.sessions (some project))).head? = .none := by
    simp [none, Database.ofProject, Database.newestFirst]
  rw [Database.answerSession, first]
  rfl

theorem latest_begun (w : Workspace) (id : String) (preset : w.settings.session = {}) :
    ((Database.empty.putRow (Database.rowOf (w.begun id))).answerSession (.latest w.name)).1 =
      .ok (some (w.begun id)) := by
  have new : w.begun id = Session.new w.name id 0 := by
    rw [begun, preset]
    rfl
  have word : -Nat.pow 2 63 ≤ (0 : Int) ∧ (0 : Int) ≤ Nat.pow 2 63 - 1 := by decide
  have shallow : (Session.new w.name id 0).Shallow := List.forall_mem_nil _
  rw [new]
  exact latest_single rfl (Session.fits_new w.name id word) shallow (le_refl _)

/-- Directories of the same name are one project, and a session is deleted by whoever knows its id. -/
theorem roots_not_apart :
    (∃ l s d, Act.Trace (ofRoot "/x/demo" {}).start.run l (.ok s) ∧
      Database.Serves (ofRoot "/x/demo" {}).name .empty l d ∧
      (Database.empty.answerSession (.latest (ofRoot "/y/demo" {}).name)).1 = .ok none ∧
      (d.answerSession (.latest (ofRoot "/y/demo" {}).name)).1 = .ok (some s)) ∧
    ∃ s d l d', Act.Trace (ofRoot "/y/b" {}).start.run ((ofRoot "/y/b" {}).beginning "1") (.ok s) ∧
      Database.Serves (ofRoot "/y/b" {}).name .empty ((ofRoot "/y/b" {}).beginning "1") d ∧
      Act.Trace (Session.delete "1").run l (.ok ()) ∧ Database.Serves (ofRoot "/x/a" {}).name d l d' ∧
      (d.answerSession (.latest (ofRoot "/y/b" {}).name)).1 = .ok (some s) ∧
      (d'.answerSession (.latest (ofRoot "/y/b" {}).name)).1 = .ok none := by
  have named : (ofRoot "/x/demo" {}).name = (ofRoot "/y/demo" {}).name := by decide +kernel
  refine ⟨⟨_, _, _, trace_beginning _ "1", serves_beginning _ _ _, latest_none rfl _, ?_⟩,
    ⟨_, _, _, _, trace_beginning _ "1", serves_beginning _ _ _, ?_, serves_delete _ "1" _, ?_, ?_⟩⟩
  · rw [← named]
    exact latest_begun _ "1" rfl
  · exact .ask (.sessions (.delete "1")) _ _ (.done _)
  · exact latest_begun _ "1" rfl
  · exact latest_none rfl _

end Workspace

end CodeAgent
