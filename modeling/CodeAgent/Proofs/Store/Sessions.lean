import CodeAgent.Proofs.Project.Indexed
import CodeAgent.Proofs.Store.Rows
import CodeAgent.Session.Lifecycle

/-! The stored sessions as a map from ids to sessions.
Every call of the store, and every operation that is made of calls, has the result that it would have on
the map, and leaves the rows that the changed map has. What a row cannot give back is the exception that
the map knows of as well. -/
namespace CodeAgent

open Json

/-- What the sessions of a store are asked for: its calls, and what is made of them. -/
inductive SessionOp where
  | call (c : SessionCall)
  | touch (id : String)
  | pushUndo (id : String) (c : Change)
  | popUndo (id : String)
  | undo (id : String)

namespace SessionOp

abbrev Result : SessionOp → Type
  | call c => c.Result
  | touch _ | pushUndo .. => Unit
  | popUndo _ => Option Change
  | undo _ => List Change

def program : (op : SessionOp) → Attempt op.Result
  | call c => Attempt.sessions c
  | touch id => Session.touchStored id
  | pushUndo id c => Session.pushUndoStored id c
  | popUndo id => Session.popUndoStored id
  | undo id => Session.undoStored id

/-- What is handed over can be written and read back. -/
def Fits : SessionOp → Prop
  | call (.save s) => s.Fits
  | pushUndo _ c => c.Fits
  | _ => True

/- On a map -/

/-- What is found under an id. -/
def Found (m : Table Session) (id : String) (r : Outcome (Option Session)) : Prop :=
  match m.get? id with
  | none => r = .ok none
  | some s => ∃ given, s.GivenBack given ∧ r = given.map some

/-- All sessions, or those of a project, newest first. -/
def Listed (m : Table Session) (project : Option String) (r : Outcome (List SessionSummary)) : Prop :=
  ∃ ss given, ss.Perm (m.values.filter fun s => ∀ p ∈ project, s.projectName = p) ∧
    ss.Pairwise Session.NotOlder ∧ List.Forall₂ Session.GivenBack ss given ∧
    r = given.mapM fun g => g.map Session.summary

/-- A session of the project that none of the project is newer than. -/
def Latest (m : Table Session) (project : String) (r : Outcome (Option Session)) : Prop :=
  (∀ s ∈ m.values, s.projectName ≠ project) ∧ r = .ok none ∨
    ∃ s ∈ m.values, s.projectName = project ∧
      (∀ other ∈ m.values, other.projectName = project → s.NotOlder other) ∧
      ∃ given, s.GivenBack given ∧ r = given.map some

/-- What follows a session that was looked for: a fault ends it, and leaves the map as it is. -/
def Follows {α : Type} (m : Table Session) (id : String) (r : Outcome α) (m' : Table Session)
    (absent : Outcome α) (goesOn : Session → Outcome α × Table Session) : Prop :=
  ∃ found, Found m id found ∧
    match found with
    | .error f => r = .error f ∧ m' = m
    | .ok none => r = absent ∧ m' = m
    | .ok (some s) => (r, m') = goesOn s

/-- What an operation answers on a map of sessions by id, and the map that it leaves. -/
def Meets (m : Table Session) : (op : SessionOp) → Outcome op.Result → Table Session → Prop
  | .call (.save s), r, m' => r = .ok () ∧ m' = m.insert s.id s
  | .call (.load id), r, m' => Found m id r ∧ m' = m
  | .call (.delete id), r, m' => r = .ok () ∧ m' = m.erase id
  | .call (.list project), r, m' => Listed m project r ∧ m' = m
  | .call (.latest project), r, m' => Latest m project r ∧ m' = m
  | .call .clear, r, m' => r = .ok () ∧ m' = .empty
  | .touch id, r, m' => ∃ now, Follows m id r m' (.error (Session.notFound id)) fun s =>
      (.ok (), m.insert id (s.touch now))
  | .pushUndo id c, r, m' => Follows m id r m' (.error (Session.notFound id)) fun s =>
      (.ok (), m.insert id (s.pushUndo c))
  | .popUndo id, r, m' => Follows m id r m' (.ok none) fun s =>
      (.ok s.popUndo.1, m.insert id s.popUndo.2)
  | .undo id, r, m' => Follows m id r m' (.ok []) fun s => (.ok s.undoStack, m)

/-- The answers to operations one after the other. -/
inductive MeetsAll :
    Table Session → List ((op : SessionOp) × Outcome op.Result) → Table Session → Prop where
  | nil (m : Table Session) : MeetsAll m [] m
  | cons {m m₁ m₂ : Table Session} {op : SessionOp} {r : Outcome op.Result}
      {rs : List ((op : SessionOp) × Outcome op.Result)} (first : Meets m op r m₁)
      (rest : MeetsAll m₁ rs m₂) : MeetsAll m (⟨op, r⟩ :: rs) m₂

/- In a world -/

section

variable {σ : Type} (o : Outside σ)

def run (op : SessionOp) (w : World σ) : Outcome op.Result × World σ := World.run o op.program.run w

/-- What the operations answer one after the other, and the world that they leave. -/
def runAll : List SessionOp → World σ → List ((op : SessionOp) × Outcome op.Result) × World σ
  | [], w => ([], w)
  | op :: ops, w =>
    let (r, w') := run o op w
    let (rs, w'') := runAll ops w'
    (⟨op, r⟩ :: rs, w'')

/-- What a world's store answers when a session is loaded. -/
def loaded (w : World σ) (id : String) : Outcome (Option Session) :=
  (w.database.answerSession (.load id)).1

/-- The world with a session saved. -/
def saved (w : World σ) (s : Session) : World σ :=
  { w with database := w.database.putRow (Database.rowOf s) }

/-- What comes after a session was looked for: a fault ends it, and so does a session that is not there. -/
def onward {α : Type} (w : World σ) (id : String) (absent : Outcome α)
    (goesOn : Session → Outcome α × World σ) : Outcome α × World σ :=
  match loaded w id with
  | .error f => (.error f, w)
  | .ok none => (absent, w)
  | .ok (some s) => goesOn s

theorem run_loading {α : Type} (w : World σ) (id : String) (next : Option Session → Attempt α)
    {absent : Outcome α} {goesOn : Session → Outcome α × World σ}
    (missing : World.run o (next none).run w = (absent, w))
    (found : ∀ s, World.run o (next (some s)).run w = goesOn s) :
    World.run o (Attempt.sessions (.load id) >>= next : Attempt α).run w =
      onward w id absent goesOn := by
  change World.run o (ExceptT.bindCont next (loaded w id)) w = _
  rw [onward]
  match loaded w id with
  | .error f => rfl
  | .ok none => exact missing
  | .ok (some s) => exact found s

variable (w : World σ)

theorem run_touch (id : String) :
    run o (.touch id) w = onward w id (.error (Session.notFound id)) fun s =>
      (.ok (), saved { w with outside := (o.now w.outside).2 } (s.touch (o.now w.outside).1)) := by
  rw [run, program, Session.touchStored, Session.require, bind_assoc]
  exact run_loading o w id _ rfl fun s => rfl

theorem run_pushUndo (id : String) (c : Change) :
    run o (.pushUndo id c) w = onward w id (.error (Session.notFound id)) fun s =>
      (.ok (), saved w (s.pushUndo c)) := by
  rw [run, program, Session.pushUndoStored, Session.require, bind_assoc]
  exact run_loading o w id _ rfl fun s => rfl

theorem run_popUndo (id : String) :
    run o (.popUndo id) w = onward w id (.ok none) fun s =>
      match s.popUndo with
      | (none, _) => (.ok none, w)
      | (some c, s) => (.ok (some c), saved w s) := by
  rw [run, program, Session.popUndoStored]
  refine run_loading o w id _ rfl fun s => ?_
  cases popped : s.popUndo with
  | mk top rest =>
    simp only [popped]
    cases top <;> rfl

theorem run_undo (id : String) :
    run o (.undo id) w = onward w id (.ok []) fun s => (.ok s.undoStack, w) := by
  rw [run, program, Session.undoStored]
  exact run_loading o w id _ rfl fun s => rfl

/- Against the map -/

variable {w : World σ} {m : Table Session}

theorem Found.stored {id : String} {s : Session} (found : Found m id (.ok (some s))) :
    m.get? id = some s := by
  rw [Found] at found
  cases held : m.get? id with
  | none =>
    rw [held] at found
    cases Except.ok.inj found
  | some s' =>
    rw [held] at found
    obtain ⟨given, back, same⟩ := found
    cases given with
    | error f => cases same
    | ok s'' =>
      obtain rfl := Option.some.inj (Except.ok.inj same)
      rw [back.eq]

theorem found_loaded (held : w.database.Stores m) (id : String) : Found m id (loaded w id) := by
  have row := held.find? id
  rw [Found, loaded]
  cases stored : m.get? id with
  | none =>
    rw [stored, Option.map_none] at row
    simp only [Database.answerSession, row]
    rfl
  | some s =>
    rw [stored, Option.map_some] at row
    simp only [Database.answerSession, row]
    refine ⟨_, Session.givenBack (held.fits stored), ?_⟩
    rw [Database.read, Database.decodeRow_some]

/-- What goes on with a stored session as the map does, follows the map. -/
theorem follows_onward {α : Type} {id : String} {absent : Outcome α}
    {goesOn : Session → Outcome α × World σ} {onMap : Session → Outcome α × Table Session}
    (held : w.database.Stores m)
    (alike : ∀ s, m.get? id = some s →
      (goesOn s).1 = (onMap s).1 ∧ (goesOn s).2.database.Stores (onMap s).2) :
    ∃ m', Follows m id (onward w id absent goesOn).1 m' absent onMap ∧
      (onward w id absent goesOn).2.database.Stores m' := by
  have found := found_loaded held id
  rw [onward]
  generalize loaded w id = answer at found
  match answer, found with
  | .error f, found => exact ⟨m, ⟨_, found, rfl, rfl⟩, held⟩
  | .ok none, found => exact ⟨m, ⟨_, found, rfl, rfl⟩, held⟩
  | .ok (some s), found =>
    obtain ⟨same, holds⟩ := alike s found.stored
    exact ⟨_, ⟨_, found, Prod.ext same rfl⟩, holds⟩

theorem listed (held : w.database.Stores m) (project : Option String) :
    Listed m project (w.database.answerSession (.list project)).1 := by
  obtain ⟨ss, rows, perm, sorted, fits⟩ := held.ordered project
  refine ⟨ss, (ss.map Database.rowOf).map Database.restore, perm, sorted, ?_, ?_⟩
  · simp only [List.forall₂_map_right_iff, List.forall₂_same]
    exact fun s inside => Session.givenBack (fits s inside)
  · rw [Database.answerSession, Database.read, rows, Database.decodeRows]

theorem latest (held : w.database.Stores m) (project : String) :
    Latest m project (w.database.answerSession (.latest project)).1 := by
  obtain ⟨ss, rows, perm, sorted, fits⟩ := held.ordered (some project)
  have among {s : Session} : s ∈ ss ↔ s ∈ m.values ∧ s.projectName = project := by
    rw [perm.mem_iff, List.mem_filter]
    simp
  simp only [Database.answerSession, Database.read, rows, List.head?_map]
  cases ss with
  | nil => exact Or.inl ⟨fun s member same => List.not_mem_nil (among.mpr ⟨member, same⟩), rfl⟩
  | cons s rest =>
    obtain ⟨newest, -⟩ := List.pairwise_cons.mp sorted
    obtain ⟨member, same⟩ := among.mp List.mem_cons_self
    refine Or.inr ⟨s, member, same, fun other inside its => ?_, _,
      Session.givenBack (fits s List.mem_cons_self), ?_⟩
    · rcases List.mem_cons.mp (among.mpr ⟨inside, its⟩) with rfl | later
      · exact Or.inr ⟨rfl, le_refl _⟩
      · exact newest other later
    · rw [List.head?_cons, Option.map_some, Database.decodeRow_some]

variable (clock : ∀ t, -Nat.pow 2 63 ≤ (o.now t).1 ∧ (o.now t).1 ≤ Nat.pow 2 63 - 1)
include clock

/-- An operation answers as on the map, and leaves what the changed map holds. -/
theorem meets_run (held : w.database.Stores m) {op : SessionOp} (fits : op.Fits) :
    ∃ m', Meets m op (run o op w).1 m' ∧ (run o op w).2.database.Stores m' := by
  cases op with
  | call c =>
    cases c with
    | save s => exact ⟨_, ⟨rfl, rfl⟩, held.putRow fits⟩
    | load id => exact ⟨m, ⟨found_loaded held id, rfl⟩, held⟩
    | delete id => exact ⟨_, ⟨rfl, rfl⟩, held.removeRow id⟩
    | list project => exact ⟨m, ⟨listed held project, rfl⟩, held⟩
    | latest project => exact ⟨m, ⟨latest held project, rfl⟩, held⟩
    | clear => exact ⟨_, ⟨rfl, rfl⟩, Database.stores_empty rfl⟩
  | touch id =>
    rw [run_touch]
    let now := (o.now w.outside).1
    have follows : ∃ m', Follows m id (onward w id (.error (Session.notFound id)) fun s =>
        ((.ok () : Outcome Unit), saved { w with outside := (o.now w.outside).2 } (s.touch now))).1 m'
        (.error (Session.notFound id)) (fun s => (.ok (), m.insert id (s.touch now))) ∧ _ :=
      follows_onward held fun s stored => by
        have put := held.putRow ((held.fits stored).touch (clock w.outside))
        rw [Session.touch_id, held.named stored] at put
        exact ⟨rfl, put⟩
    obtain ⟨m', follows, holds⟩ := follows
    exact ⟨m', ⟨now, follows⟩, holds⟩
  | pushUndo id c =>
    rw [run_pushUndo]
    refine follows_onward held fun s stored => ⟨rfl, ?_⟩
    have put := held.putRow ((held.fits stored).pushUndo fits)
    rwa [Session.pushUndo_id, held.named stored] at put
  | popUndo id =>
    rw [run_popUndo]
    refine follows_onward held fun s stored => ?_
    have put := held.putRow (held.fits stored).popUndo
    rw [Session.popUndo_id, held.named stored] at put
    cases popped : s.popUndo with
    | mk top rest =>
      rw [popped] at put
      cases top with
      | none =>
        obtain rfl : rest = s := Session.popUndo_none popped
        exact ⟨rfl, (Table.insert_of_get? stored).symm ▸ held⟩
      | some c => exact ⟨rfl, put⟩
  | undo id =>
    rw [run_undo]
    exact follows_onward held fun s stored => ⟨rfl, held⟩

/-- Operations one after the other answer as on the map. -/
theorem meets_runAll (ops : List SessionOp) (held : w.database.Stores m) (fits : ∀ op ∈ ops, op.Fits) :
    ∃ m', MeetsAll m (runAll o ops w).1 m' ∧ (runAll o ops w).2.database.Stores m' := by
  induction ops generalizing w m with
  | nil => exact ⟨m, .nil m, held⟩
  | cons op ops ih =>
    obtain ⟨fit, rest⟩ := List.forall_mem_cons.mp fits
    obtain ⟨m₁, first, held₁⟩ := meets_run o clock held fit
    obtain ⟨m₂, later, held₂⟩ := ih held₁ rest
    exact ⟨m₂, .cons first later, held₂⟩

omit clock

/- In any world -/

/-- The row whose document decides an operation: the one it reads, in a listing the first that cannot
be read. -/
def Reads (d : Database) (r : SessionRow) : SessionOp → Prop
  | call (.save _) | call (.delete _) | call .clear => False
  | call (.load id) | touch id | pushUndo id _ | popUndo id | undo id =>
    d.sessions.find? (·.id = id) = some r
  | call (.latest project) =>
    (Database.newestFirst (Database.ofProject d.sessions (some project))).head? = some r
  | call (.list project) =>
    ∃ before after, Database.newestFirst (Database.ofProject d.sessions project) = before ++ r :: after ∧
      ∀ b ∈ before, ∃ s, Database.decodeSession b.document = .ok s

theorem onward_refused {α : Type} {id : String} {absent : Outcome α}
    {goesOn : Session → Outcome α × World σ} {r : SessionRow} {e : BackendError}
    (row : w.database.sessions.find? (·.id = id) = some r)
    (refused : Database.decodeSession r.document = .error e) :
    onward w id absent goesOn = (.error e.toFault, w) := by
  have failed : loaded w id = .error e.toFault := by
    rw [loaded, Database.answerSession, Database.read, row, Database.decodeRow, refused]
    rfl
  rw [onward, failed]

/-- A document that is refused is the end of an operation that reads it. -/
theorem run_refused {op : SessionOp} {r : SessionRow} {e : BackendError} (reads : op.Reads w.database r)
    (refused : Database.decodeSession r.document = .error e) : run o op w = (.error e.toFault, w) := by
  cases op with
  | call c =>
    cases c with
    | save s => exact reads.elim
    | delete id => exact reads.elim
    | clear => exact reads.elim
    | load id =>
      have row : w.database.sessions.find? (·.id = id) = some r := reads
      have answer : (w.database.answerSession (.load id)).1 = .error e.toFault := by
        rw [Database.answerSession, Database.read, row, Database.decodeRow, refused]
        rfl
      exact Prod.ext answer rfl
    | latest project =>
      have row : (Database.newestFirst (Database.ofProject w.database.sessions (some project))).head? =
        some r := reads
      have answer : (w.database.answerSession (.latest project)).1 = .error e.toFault := by
        rw [Database.answerSession, Database.read, row, Database.decodeRow, refused]
        rfl
      exact Prod.ext answer rfl
    | list project =>
      obtain ⟨before, after, rows, readable⟩ := reads
      have answer : (w.database.answerSession (.list project)).1 = .error e.toFault := by
        rw [Database.answerSession, Database.read, rows, Database.mapM_refused]
        · rfl
        · intro b inside
          obtain ⟨s, read⟩ := readable b inside
          exact ⟨s.summary, by rw [read]; rfl⟩
        · rw [refused]
          rfl
      exact Prod.ext answer rfl
  | touch id => rw [run_touch, onward_refused reads refused]
  | pushUndo id c => rw [run_pushUndo, onward_refused reads refused]
  | popUndo id => rw [run_popUndo, onward_refused reads refused]
  | undo id => rw [run_undo, onward_refused reads refused]

theorem onward_failed {α : Type} {id : String} {absent : Outcome α}
    {goesOn : Session → Outcome α × World σ} {f : Fault} (goes : ∀ s, (goesOn s).1 ≠ .error f)
    (failed : (onward w id absent goesOn).1 = .error f) : (onward w id absent goesOn).2 = w := by
  rw [onward] at failed ⊢
  match loaded w id, failed with
  | .error f, _ => rfl
  | .ok none, _ => rfl
  | .ok (some s), failed => exact absurd failed (goes s)

/-- An operation that fails changes nothing. -/
theorem run_failed {op : SessionOp} {f : Fault} (failed : (run o op w).1 = .error f) :
    (run o op w).2 = w := by
  cases op with
  | call c =>
    cases c with
    | save s => cases failed
    | delete id => cases failed
    | clear => cases failed
    | load id => rfl
    | latest project => rfl
    | list project => rfl
  | touch id =>
    rw [run_touch] at failed ⊢
    exact onward_failed (by simp) failed
  | pushUndo id c =>
    rw [run_pushUndo] at failed ⊢
    exact onward_failed (by simp) failed
  | popUndo id =>
    rw [run_popUndo] at failed ⊢
    refine onward_failed (fun s => ?_) failed
    rcases s.popUndo with ⟨_ | c, rest⟩ <;> simp
  | undo id =>
    rw [run_undo] at failed ⊢
    exact onward_failed (by simp) failed

/-- The stored sessions are a map. Operations one after the other have the answers that they have on the
map, and leave the rows of the map that they lead to. One that fails changes nothing, and a document that
states a version that is not known yet is an error of the store. -/
theorem stored_as_map (o : Outside σ)
    (clock : ∀ t, -Nat.pow 2 63 ≤ (o.now t).1 ∧ (o.now t).1 ≤ Nat.pow 2 63 - 1) :
    (∀ (ops : List SessionOp) (w : World σ) (m : Table Session), w.database.Stores m →
      (∀ op ∈ ops, op.Fits) →
      ∃ m', MeetsAll m (runAll o ops w).1 m' ∧ (runAll o ops w).2.database.Stores m') ∧
    (∀ (op : SessionOp) (w : World σ) (f : Fault), (run o op w).1 = .error f → (run o op w).2 = w) ∧
    ∀ (op : SessionOp) (w : World σ) (r : SessionRow) (version : Nat), op.Reads w.database r →
      Database.StatesNewer r.document version →
      (run o op w).1 = .error (Database.unknownVersion version).toFault ∧
        (Database.unknownVersion version).toFault.kind = .storage := by
  refine ⟨fun ops w m held fits => meets_runAll o clock ops held fits,
    fun op w f failed => run_failed o failed, fun op w r version reads newer => ⟨?_, rfl⟩⟩
  rw [run_refused o reads (Database.decodeSession_of_newer newer)]

end

/- In a store that begins empty, and in stores whose only row has a document of another making -/

def storing (rows : List SessionRow) : World Unit :=
  ⟨.ofFiles "/p" [] 0, { Database.empty with sessions := rows }, "demo", .ready, .new {}, ()⟩

def stating (document : String) : World Unit := storing [⟨"s", "demo", 0, 0, document⟩]

def onceEdited : List SessionOp :=
  [.call (.save (.new "demo" "s" 0)), .pushUndo "s" ⟨"1", "a.txt", [], "", 0, "create", true⟩, .popUndo "s",
    .call (.load "s"), .call (.list none)]

theorem time_zero : -Nat.pow 2 63 ≤ (0 : Int) ∧ (0 : Int) ≤ Nat.pow 2 63 - 1 := by decide

theorem stored_as_map_silence :
    (∃ m', MeetsAll .empty (runAll Indexing.silence onceEdited (storing [])).1 m' ∧
      (runAll Indexing.silence onceEdited (storing [])).2.database.Stores m') ∧
    (run Indexing.silence (.touch "s") (storing [])).2 = storing [] ∧
    (run Indexing.silence (.call (.load "s")) (stating "\x7b\"schema_version\":2\x7d")).1 =
      .error (Database.unknownVersion 2).toFault := by
  have whole : ∀ op ∈ onceEdited, op.Fits := by
    have change : (⟨"1", "a.txt", [], "", 0, "create", true⟩ : Change).Fits := ⟨by decide, by decide⟩
    simp [onceEdited, Fits, Session.fits_new "demo" "s" time_zero, change]
  have newer : Database.StatesNewer "\x7b\"schema_version\":2\x7d" 2 :=
    ⟨.obj [("schema_version", .num (.int 2))], by decide +kernel, by decide +kernel, by decide⟩
  obtain ⟨answers, failing, unknown⟩ := stored_as_map Indexing.silence fun _ => time_zero
  exact ⟨answers onceEdited (storing []) .empty (Database.stores_empty rfl) whole,
    failing (.touch "s") (storing []) (Session.notFound "s") rfl,
    (unknown (.call (.load "s")) (stating "\x7b\"schema_version\":2\x7d") _ 2 rfl newer).1⟩

/-- Lists in lists. -/
def nested : Nat → Json
  | 0 => .arr []
  | n + 1 => .arr [nested n]

theorem lt_of_nests_nested {depth : Nat} (n : Nat) (nests : Nests depth (nested n)) : n + 1 < depth := by
  induction n generalizing depth with
  | zero =>
    cases nests
    omega
  | succ n ih =>
    cases nests with
    | arr each =>
      have inner := ih (each _ List.mem_cons_self)
      omega

theorem exact_nested (n : Nat) : Exact (nested n) := by
  induction n with
  | zero => exact .arr (List.forall_mem_nil _)
  | succ n ih => exact .arr (List.forall_mem_singleton.mpr ih)

/-- A session with one call, whose arguments nest as deep as is said. -/
def calling (n : Nat) : Session :=
  { Session.new "demo" "s" 0 with
    history := [⟨0, ⟨.assistant, [.toolUse ⟨"1", "t", .object [("a", nested n)]⟩]⟩⟩] }

theorem calling_fits (n : Nat) : (calling n).Fits := by
  have call : Exact (Json.object [("a", nested n)]) :=
    exact_object (List.forall_mem_singleton.mpr (exact_nested n))
  have entry : (⟨0, ⟨.assistant, [.toolUse ⟨"1", "t", .object [("a", nested n)]⟩]⟩⟩ : HistoryEntry).Fits :=
    ⟨time_zero.1, time_zero.2, List.forall_mem_singleton.mpr call⟩
  exact { Session.fits_new "demo" "s" time_zero with history := List.forall_mem_singleton.mpr entry }

theorem calling_deep {n : Nat} (deep : 120 ≤ n) : ¬ (calling n).Shallow := by
  intro shallow
  have nests : Nests 122 (Json.object [("a", nested n)]) :=
    shallow _ List.mem_cons_self _ List.mem_cons_self
  cases nests with
  | obj each =>
    have inner := lt_of_nests_nested n (each _ List.mem_cons_self)
    omega

/-- What nests too deep is saved, and cannot be loaded. -/
theorem runAll_deep {σ : Type} (o : Outside σ) (w : World σ) {s : Session} (deep : ¬ s.Shallow) :
    (runAll o [.call .clear, .call (.save s), .call (.load s.id)] w).1 =
      [⟨.call .clear, .ok ()⟩, ⟨.call (.save s), .ok ()⟩,
        ⟨.call (.load s.id), .error BackendError.malformed.toFault⟩] := by
  let cleared : World σ := { w with database := { w.database with sessions := [] } }
  have refused : Database.decodeSession (Database.rowOf s).document = .error .malformed := by
    rw [Database.decodeSession, Database.rowOf, parse?_of_deep (mt Session.nests_maxDepth.mp deep)]
    rfl
  have row : (saved cleared s).database.sessions.find? (·.id = s.id) = some (Database.rowOf s) := by
    simp [saved, cleared, Database.putRow, Database.removeRow]
  have loading : run o (.call (.load s.id)) (saved cleared s) =
      (.error BackendError.malformed.toFault, saved cleared s) := run_refused o row refused
  have answers : (runAll o [.call .clear, .call (.save s), .call (.load s.id)] w).1 =
      [⟨.call .clear, .ok ()⟩, ⟨.call (.save s), .ok ()⟩,
        ⟨.call (.load s.id), (run o (.call (.load s.id)) (saved cleared s)).1⟩] := rfl
  rw [answers, loading]

/-- A version that no word holds is no error of the store, and a session whose calls nest too deep is
stored but not given back. -/
theorem stored_unlike_map :
    (run Indexing.silence (.call (.load "s")) (stating "\x7b\"schema_version\":18446744073709551616\x7d")).1 =
        .error BackendError.malformed.toFault ∧
      BackendError.malformed.toFault.kind = .parse ∧ (calling 120).Fits ∧
      (runAll Indexing.silence [.call .clear, .call (.save (calling 120)), .call (.load (calling 120).id)]
        (storing [])).1 =
        [⟨.call .clear, .ok ()⟩, ⟨.call (.save (calling 120)), .ok ()⟩,
          ⟨.call (.load (calling 120).id), .error BackendError.malformed.toFault⟩] :=
  ⟨by decide +kernel, rfl, calling_fits 120, runAll_deep _ _ (calling_deep (le_refl 120))⟩

end SessionOp

end CodeAgent
