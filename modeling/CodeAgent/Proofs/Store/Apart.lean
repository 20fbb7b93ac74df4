import CodeAgent.Proofs.Project.World
import CodeAgent.Proofs.Store.Commit
import CodeAgent.Proofs.Store.Rows
import Mathlib.Data.List.Find

/-! Projects in one database.
A project asks for its own index and for its own sessions. What it asks leaves all that other projects
can ask for as it is, and what it hears depends on its own part of the database only. -/
namespace CodeAgent

open Json

namespace Session

/-- A session of a project, under an id of the project's own. -/
def Of (owner : String → String) (project : String) (s : Session) : Prop :=
  s.projectName = project ∧ owner s.id = project

end Session

/-- What a project asks of the sessions: for its own. -/
def SessionCall.Own (owner : String → String) (project : String) : SessionCall → Prop
  | .save s => s.Of owner project
  | .load id | .delete id => owner id = project
  | .list asked => asked = some project
  | .latest asked => asked = project
  | .clear => False

def Ask.Own (owner : String → String) (project : String) : Ask → Prop
  | .sessions c => c.Own owner project
  | _ => True

/-- The session that the store gave. -/
def Heard.given? : Heard → Option Session
  | ⟨.sessions (.load _), .ok found⟩ | ⟨.sessions (.latest _), .ok found⟩ => found
  | _ => none

namespace Shelf

variable {s s' : Shelf} {project other : String}

/- What is put or removed for a project is put or removed in its own table -/

theorem put_other (different : other ≠ project) (key document : String) :
    Table.get? (s.put project key document) other = Table.get? s other := by
  rw [put, Table.get?_update, if_neg different]

theorem remove_other (different : other ≠ project) (key : String) :
    Table.get? (s.remove project key) other = Table.get? s other := by
  rw [remove]
  split
  · rw [Table.get?_insert, if_neg different]
  · rfl

theorem put_own (same : Table.get? s project = Table.get? s' project) (key document : String) :
    Table.get? (s.put project key document) project = Table.get? (s'.put project key document) project := by
  rw [put, put, Table.get?_update, Table.get?_update, same]

theorem remove_own (same : Table.get? s project = Table.get? s' project) (key : String) :
    Table.get? (s.remove project key) project = Table.get? (s'.remove project key) project := by
  rw [remove, remove, same]
  split
  · rw [Table.get?_insert_self, Table.get?_insert_self]
  · exact same

theorem replace_own (documents : Table String) :
    Table.get? (s.replace project documents) project =
      Table.get? (s'.replace project documents) project := by
  rw [replace, replace, Table.get?_insert_self, Table.get?_insert_self]

end Shelf

namespace Database

/- Rows of projects -/

/-- Each row has an id of its project, and its document is of the session with this id. -/
structure Owned (owner : String → String) (d : Database) : Prop where
  row : ∀ r ∈ d.sessions, owner r.id = r.project
  session : ∀ r ∈ d.sessions, ∀ s, decodeSession r.document = .ok s →
    s.id = r.id ∧ s.projectName = r.project

/-- What a project can ask for is the same in both. -/
structure Alike (project : String) (d e : Database) : Prop where
  shelves (a : Drawer) : Table.get? (d.shelf a) project = Table.get? (e.shelf a) project
  rows : ofProject d.sessions (some project) = ofProject e.sessions (some project)

variable {owner : String → String} {project other : String} {d e : Database}

theorem Alike.refl (project : String) (d : Database) : Alike project d d := ⟨fun _ => rfl, rfl⟩

theorem Alike.trans {f : Database} (first : Alike project d e) (second : Alike project e f) :
    Alike project d f :=
  ⟨fun a => (first.shelves a).trans (second.shelves a), first.rows.trans second.rows⟩

theorem owned_empty {d : Database} (none : d.sessions = []) : d.Owned owner :=
  ⟨by simp [none], by simp [none]⟩

theorem Owned.of_subset {rows : List SessionRow} (owned : d.Owned owner) (fewer : rows ⊆ d.sessions) :
    ({ d with sessions := rows } : Database).Owned owner :=
  ⟨fun r member => owned.row r (fewer member), fun r member => owned.session r (fewer member)⟩

/-- A session that is read back has the id and the project that it was saved with. -/
theorem named_of_decodeSession {s s' : Session} (read : decodeSession s.toJson.compact = .ok s') :
    s'.id = s.id ∧ s'.projectName = s.projectName := by
  obtain ⟨v, parsed, whole⟩ : ∃ v, parse? s.toJson.compact = some v ∧
      Session.ofJson? v.canonical = some s' := by
    rw [decodeSession] at read
    cases parsed : parse? s.toJson.compact with
    | none =>
      rw [parsed] at read
      cases read
    | some v =>
      rw [parsed, Option.map_some] at read
      dsimp only at read
      split at read
      · cases read
      · split at read
        · rename_i s'' whole
          obtain rfl := Except.ok.inj read
          exact ⟨v, rfl, whole⟩
        · cases read
  have alike : v.shape = (object s.members).shape := shape_of_parse? parsed
  have single : (s.members.map (·.1)).Nodup := by simp [Session.members]
  obtain ⟨ms, document, texts⟩ := texts_of_shape single alike
  rw [document] at whole
  obtain ⟨id, project⟩ := Session.named_of_ofJson? whole
  rw [texts (rfl : Entries.lookup "id" s.members = some (.str s.id))] at id
  rw [texts (rfl : Entries.lookup "project_name" s.members = some (.str s.projectName))] at project
  exact ⟨(Json.str.inj (Option.some.inj id)).symm, (Json.str.inj (Option.some.inj project)).symm⟩

theorem Owned.putRow {s : Session} (owned : d.Owned owner) (own : s.Of owner project) :
    (d.putRow (rowOf s)).Owned owner := by
  have among {r : SessionRow} (member : r ∈ (d.putRow (rowOf s)).sessions) :
      r ∈ d.sessions ∨ r = rowOf s := by
    rcases List.mem_append.mp member with kept | new
    · exact Or.inl (List.mem_of_mem_filter kept)
    · exact Or.inr (List.mem_singleton.mp new)
  refine ⟨fun r member => ?_, fun r member => ?_⟩
  · rcases among member with old | rfl
    · exact owned.row r old
    · exact own.2.trans own.1.symm
  · rcases among member with old | rfl
    · exact owned.session r old
    · intro s' read
      rw [show (rowOf s).document = s.toJson.compact by rw [rowOf]] at read
      exact named_of_decodeSession read

theorem find?_own {id : String} (owned : d.Owned owner) (own : owner id = project) :
    d.sessions.find? (·.id = id) = (ofProject d.sessions (some project)).find? (·.id = id) := by
  rw [ofProject, List.find?_filter]
  refine List.find?_congr fun r member => ?_
  by_cases same : r.id = id
  · have its : r.project = project := by rw [← owned.row r member, same, own]
    simp [same, its]
  · simp [same]

theorem ofProject_removeRow (d : Database) (id project : String) :
    ofProject (d.removeRow id).sessions (some project) =
      (ofProject d.sessions (some project)).filter (·.id ≠ id) := List.filter_comm ..

theorem ofProject_putRow (d : Database) (r : SessionRow) (project : String) :
    ofProject (d.putRow r).sessions (some project) =
      (ofProject d.sessions (some project)).filter (·.id ≠ r.id) ++
        ofProject [r] (some project) := by
  rw [← ofProject_removeRow]
  exact List.filter_append ..

/-- Rows of other projects have other ids. -/
theorem filter_others {id : String} (owned : d.Owned owner) (own : owner id = project)
    (different : other ≠ project) :
    (ofProject d.sessions (some other)).filter (·.id ≠ id) = ofProject d.sessions (some other) := by
  refine List.filter_eq_self.mpr fun r member => decide_eq_true fun same => different ?_
  obtain ⟨inside, its⟩ := mem_ofProject.mp member
  rw [← own, ← same, owned.row r inside, its other rfl]

/- One question -/

/-- The database when a project has asked it. -/
def asked (d : Database) (project : String) : Ask → Database
  | .index c => (d.answer project c).2
  | .sessions c => (d.answerSession c).2
  | _ => d

/-- What is heard is what the database says, if the question is to the database. -/
def Answers (d : Database) (project : String) : Heard → Prop
  | ⟨.index c, r⟩ => r = (d.answer project c).1
  | ⟨.sessions c, r⟩ => r = (d.answerSession c).1
  | _ => True

variable {q : Ask} {h : Heard}

theorem sessions_answer (d : Database) (project : String) (c : IndexCall) :
    (d.answer project c).2.sessions = d.sessions := by
  cases c with
  | commit s =>
    rw [answer, commit_eq]
    by_cases single : (s.files.map (·.path)).Nodup
    · rw [if_pos single]
      rfl
    · rw [if_neg single]
  | _ => rfl

/- A shelf that is changed for one project is the one that it was for the others, and in two databases it is
changed alike. -/

theorem get?_withShelf_other {b : Drawer} {s : Shelf}
    (kept : Table.get? s other = Table.get? (d.shelf b) other) (a : Drawer) :
    Table.get? ((d.withShelf b s).shelf a) other = Table.get? (d.shelf a) other := by
  by_cases here : a = b
  · subst here
    rw [shelf_withShelf, kept]
  · rw [shelf_withShelf_of_ne d here]

theorem get?_withShelf_own {b : Drawer} {s s' : Shelf}
    (same : ∀ a, Table.get? (d.shelf a) project = Table.get? (e.shelf a) project)
    (changed : Table.get? s project = Table.get? s' project) (a : Drawer) :
    Table.get? ((d.withShelf b s).shelf a) project = Table.get? ((e.withShelf b s').shelf a) project := by
  by_cases here : a = b
  · subst here
    rw [shelf_withShelf, shelf_withShelf, changed]
  · rw [shelf_withShelf_of_ne d here, shelf_withShelf_of_ne e here, same]

theorem shelf_answer_other (different : other ≠ project) (c : IndexCall) (a : Drawer) :
    Table.get? ((d.answer project c).2.shelf a) other = Table.get? (d.shelf a) other := by
  have put (b : Drawer) (key document : String) :
      Table.get? ((d.withShelf b ((d.shelf b).put project key document)).shelf a) other =
        Table.get? (d.shelf a) other := get?_withShelf_other (Shelf.put_other different key document) a
  have remove (d : Database) (b : Drawer) (key : String) :
      Table.get? ((d.withShelf b ((d.shelf b).remove project key)).shelf a) other =
        Table.get? (d.shelf a) other := get?_withShelf_other (Shelf.remove_other different key) a
  cases c with
  | setFile r => exact put .files ..
  | deleteFile path =>
    exact (remove _ .metas path).trans ((remove _ .outlines path).trans (remove d .files path))
  | setOutline path o => exact put .outlines ..
  | setMeta path m => exact put .metas ..
  | setSymbols s => exact put .indexes ..
  | setGraph g => exact put .indexes ..
  | setNote key value => exact put .notes ..
  | commit s =>
    rw [answer, commit_eq]
    by_cases single : (s.files.map (·.path)).Nodup
    · rw [if_pos single]
      exact shelf_replaced different a
    · rw [if_neg single]
  | _ => rfl

theorem shelf_answer_own (same : ∀ a, Table.get? (d.shelf a) project = Table.get? (e.shelf a) project)
    (c : IndexCall) (a : Drawer) :
    Table.get? ((d.answer project c).2.shelf a) project =
      Table.get? ((e.answer project c).2.shelf a) project := by
  have put (b : Drawer) (key document : String) :
      Table.get? ((d.withShelf b ((d.shelf b).put project key document)).shelf a) project =
        Table.get? ((e.withShelf b ((e.shelf b).put project key document)).shelf a) project :=
    get?_withShelf_own same (Shelf.put_own (same b) key document) a
  have remove {d e : Database} (b : Drawer) (key : String)
      (same : ∀ a, Table.get? (d.shelf a) project = Table.get? (e.shelf a) project) (a : Drawer) :
      Table.get? ((d.withShelf b ((d.shelf b).remove project key)).shelf a) project =
        Table.get? ((e.withShelf b ((e.shelf b).remove project key)).shelf a) project :=
    get?_withShelf_own same (Shelf.remove_own (same b) key) a
  cases c with
  | setFile r => exact put .files ..
  | deleteFile path => exact remove .metas path (remove .outlines path (remove .files path same)) a
  | setOutline path o => exact put .outlines ..
  | setMeta path m => exact put .metas ..
  | setSymbols s => exact put .indexes ..
  | setGraph g => exact put .indexes ..
  | setNote key value => exact put .notes ..
  | commit s =>
    rw [answer, answer, commit_eq, commit_eq]
    by_cases single : (s.files.map (·.path)).Nodup
    · rw [if_pos single, if_pos single]
      cases a with
      | files | outlines | metas => exact Shelf.replace_own ..
      | indexes => exact Shelf.put_own (Shelf.put_own (same .indexes) ..) ..
      | notes => exact Shelf.put_own (same .notes) ..
    · rw [if_neg single, if_neg single]
      exact same a
  | _ => exact same a

theorem Owned.asked (owned : d.Owned owner) (own : q.Own owner project) :
    (d.asked project q).Owned owner := by
  cases q with
  | index c =>
    refine ⟨fun r member => owned.row r ?_, fun r member => owned.session r ?_⟩
    · exact d.sessions_answer project c ▸ member
    · exact d.sessions_answer project c ▸ member
  | sessions c =>
    cases c with
    | save s => exact owned.putRow own
    | delete id => exact owned.of_subset (List.filter_subset_self _)
    | clear => exact own.elim
    | load id => exact owned
    | list asked => exact owned
    | latest asked => exact owned
  | _ => exact owned

theorem of_decodeRow {row : Option SessionRow} {s : Session}
    (given : .ok (some s) = (decodeRow row).mapError BackendError.toFault) :
    ∃ r, row = some r ∧ decodeSession r.document = .ok s := by
  cases row with
  | none => cases given
  | some r =>
    rw [decodeRow_some, restore] at given
    cases read : decodeSession r.document with
    | error e =>
      rw [read] at given
      cases given
    | ok s' =>
      rw [read] at given
      obtain rfl := Option.some.inj (Except.ok.inj given)
      exact ⟨r, rfl, read⟩

/-- A session that is given was saved for the project. -/
theorem Owned.given (owned : d.Owned owner) (own : h.question.Own owner project)
    (answers : d.Answers project h) {s : Session} (given : h.given? = some s) : s.Of owner project := by
  have read {r : SessionRow} (member : r ∈ d.sessions) (its : r.project = project)
      (whole : decodeSession r.document = .ok s) : s.Of owner project := by
    obtain ⟨id, name⟩ := owned.session r member s whole
    exact ⟨name.trans its, by rw [id, owned.row r member, its]⟩
  obtain ⟨q, answer⟩ := h
  cases q with
  | sessions c =>
    cases c with
    | load id =>
      cases answer with
      | error f => cases given
      | ok found =>
        obtain rfl : found = some s := given
        obtain ⟨r, first, whole⟩ := of_decodeRow answers
        have same : r.id = id := by simpa using List.find?_some first
        have member := List.mem_of_find?_eq_some first
        have mine : owner id = project := own
        exact read member (by rw [← owned.row r member, same, mine]) whole
    | latest asked =>
      cases answer with
      | error f => cases given
      | ok found =>
        obtain rfl : found = some s := given
        obtain rfl : asked = project := own
        obtain ⟨r, first, whole⟩ := of_decodeRow answers
        have inside := (perm_newestFirst _).mem_iff.mp (List.mem_of_head? first)
        obtain ⟨member, its⟩ := mem_ofProject.mp inside
        exact read member (its asked rfl) whole
    | _ => cases given
  | _ => cases given

theorem alike_asked_other (owned : d.Owned owner) (own : q.Own owner project) (different : other ≠ project) :
    Alike other (d.asked project q) d := by
  cases q with
  | index c =>
    exact ⟨shelf_answer_other different c, congrArg (ofProject · _) (d.sessions_answer project c)⟩
  | sessions c =>
    refine ⟨fun a => by cases c <;> rfl, ?_⟩
    cases c with
    | save s =>
      have its : s.Of owner project := own
      have apart : ofProject [rowOf s] (some other) = [] := by
        simpa [ofProject, its.1] using Ne.symm different
      refine (ofProject_putRow ..).trans ?_
      rw [apart, List.append_nil]
      exact filter_others owned its.2 different
    | delete id => exact (ofProject_removeRow ..).trans (filter_others owned own different)
    | clear => exact own.elim
    | load id => rfl
    | list asked => rfl
    | latest asked => rfl
  | _ => exact .refl other d

/-- Own questions are answered alike where the own part is alike, and leave it alike. -/
theorem Alike.asked (alike : Alike project d e) (own : q.Own owner project) :
    Alike project (d.asked project q) (e.asked project q) := by
  cases q with
  | index c =>
    refine ⟨shelf_answer_own alike.shelves c, ?_⟩
    rw [Database.asked, Database.asked, sessions_answer, sessions_answer, alike.rows]
  | sessions c =>
    refine ⟨fun a => ?_, ?_⟩
    · have shelves := alike.shelves a
      cases c <;> exact shelves
    cases c with
    | save s =>
      refine (ofProject_putRow ..).trans (.trans ?_ (ofProject_putRow ..).symm)
      rw [alike.rows]
    | delete id =>
      refine (ofProject_removeRow ..).trans (.trans ?_ (ofProject_removeRow ..).symm)
      rw [alike.rows]
    | clear => exact own.elim
    | load id => exact alike.rows
    | list asked => exact alike.rows
    | latest asked => exact alike.rows
  | _ => exact alike

theorem Alike.answerSession {c : SessionCall} (alike : Alike project d e) (ownedD : d.Owned owner)
    (ownedE : e.Owned owner) (own : c.Own owner project) :
    (d.answerSession c).1 = (e.answerSession c).1 := by
  cases c with
  | load id =>
    rw [Database.answerSession, Database.answerSession, find?_own ownedD own, find?_own ownedE own, alike.rows]
    rfl
  | list asked =>
    obtain rfl : asked = some project := own
    rw [Database.answerSession, Database.answerSession, alike.rows]
    rfl
  | latest asked =>
    obtain rfl : asked = project := own
    rw [Database.answerSession, Database.answerSession, alike.rows]
    rfl
  | clear => exact own.elim
  | save s => rfl
  | delete id => rfl

theorem Alike.answers (alike : Alike project d e) (ownedD : d.Owned owner) (ownedE : e.Owned owner)
    (own : h.question.Own owner project) (answers : d.Answers project h) : e.Answers project h := by
  obtain ⟨q, r⟩ := h
  cases q with
  | index c => exact answers.trans (answer_congr alike.shelves c)
  | sessions c => exact answers.trans (alike.answerSession ownedD ownedE own)
  | _ => trivial

/- Questions one after the other -/

/-- A database that answers a project along a run, and what becomes of it. -/
inductive Serves (project : String) : Database → List Heard → Database → Prop where
  | nil (d : Database) : Serves project d [] d
  | cons {d d' : Database} {h : Heard} {l : List Heard} (first : d.Answers project h)
      (rest : Serves project (d.asked project h.question) l d') : Serves project d (h :: l) d'

end Database

/-- Asks for no session that is not its own, as long as it is given none. -/
def Minds (owner : String → String) (project : String) : List Heard → Prop
  | [] => True
  | h :: l => h.question.Own owner project ∧
      ((∀ s, h.given? = some s → s.Of owner project) → Minds owner project l)

theorem minds_of_own {owner : String → String} {project : String} {l : List Heard}
    (own : ∀ h ∈ l, h.question.Own owner project) : Minds owner project l := by
  induction l with
  | nil => trivial
  | cons h l ih =>
    exact ⟨own h List.mem_cons_self, fun _ => ih fun h' member => own h' (List.mem_cons_of_mem _ member)⟩

namespace Database

variable {owner : String → String} {project other : String} {d d' e : Database} {l : List Heard}

/-- Who asks for his own sessions as long as he is given none of others, is given none of others. -/
theorem Owned.serves (owned : d.Owned owner) (serves : Serves project d l d')
    (minds : Minds owner project l) :
    (∀ h ∈ l, h.question.Own owner project) ∧ (∀ h ∈ l, ∀ s, h.given? = some s → s.Of owner project) ∧
      d'.Owned owner := by
  induction serves with
  | nil d => exact ⟨List.forall_mem_nil _, List.forall_mem_nil _, owned⟩
  | cons first rest ih =>
    obtain ⟨own, later⟩ := minds
    have given := fun s => owned.given own first (s := s)
    obtain ⟨owns, gives, kept⟩ := ih (owned.asked own) (later given)
    exact ⟨List.forall_mem_cons.mpr ⟨own, owns⟩, List.forall_mem_cons.mpr ⟨given, gives⟩, kept⟩

/-- A run of one project leaves what the others can ask for. -/
theorem alike_serves_other (owned : d.Owned owner) (serves : Serves project d l d')
    (own : ∀ h ∈ l, h.question.Own owner project) (different : other ≠ project) : Alike other d' d := by
  induction serves with
  | nil d => exact .refl other d
  | cons first rest ih =>
    obtain ⟨here, later⟩ := List.forall_mem_cons.mp own
    exact (ih (owned.asked here) later).trans (alike_asked_other owned here different)

/-- Two databases with the same part for a project serve it with the same answers. -/
theorem Alike.serves (alike : Alike project d e) (ownedD : d.Owned owner) (ownedE : e.Owned owner)
    (serves : Serves project d l d') (own : ∀ h ∈ l, h.question.Own owner project) :
    ∃ e', Serves project e l e' ∧ Alike project d' e' ∧ e'.Owned owner := by
  induction serves generalizing e with
  | nil d => exact ⟨e, .nil e, alike, ownedE⟩
  | cons first rest ih =>
    obtain ⟨here, later⟩ := List.forall_mem_cons.mp own
    obtain ⟨e', onward, alike', owned'⟩ :=
      ih (alike.asked here) (ownedD.asked here) (ownedE.asked here) later
    exact ⟨e', .cons (alike.answers ownedD ownedE here first) onward, alike', owned'⟩

end Database

namespace World

variable {σ : Type} (o : Outside σ)

theorem answers_answer (q : Ask) (w : World σ) :
    (answer o q w).2.project = w.project ∧ (answer o q w).2.database = w.database.asked w.project q ∧
      w.database.Answers w.project ⟨q, (answer o q w).1⟩ := by
  cases q with
  | turn c =>
    cases c with
    | move next =>
      refine ⟨?_, ?_, trivial⟩
      · simp only [answer, turn?]
        split <;> rfl
      · simp only [answer, turn?]
        split <;> rfl
    | _ => exact ⟨rfl, rfl, trivial⟩
  | index c => exact ⟨rfl, rfl, rfl⟩
  | sessions c => exact ⟨rfl, rfl, rfl⟩
  | _ => exact ⟨rfl, rfl, trivial⟩

/-- A world's database serves the project whose index it is. -/
theorem serves_run (p : Act α) (w : World σ) :
    Database.Serves w.project w.database (heard o p w) (run o p w).2.database := by
  induction p generalizing w with
  | done a => exact .nil _
  | ask q next ih =>
    obtain ⟨project, database, first⟩ := answers_answer o q w
    have onward := ih (answer o q w).1 (answer o q w).2
    rw [project, database] at onward
    exact .cons first onward

end World

end CodeAgent
