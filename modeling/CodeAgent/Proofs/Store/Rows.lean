import CodeAgent.Proofs.Json.Likeness
import CodeAgent.Proofs.Session.Document

/-! The rows of the stored sessions.
Rows that were saved are those of a map from ids to sessions, one each. Read back, each gives its session
or one of two refusals: of a version that is not known yet, and of a document that nests deeper than a
reader goes. What is put, taken or ordered among the rows is put, taken or ordered in the map. -/
namespace CodeAgent

open Json

namespace Database

/-- The refusal of a document of a version that is not known yet. -/
def unknownVersion (version : Nat) : BackendError :=
  .database ("Session document version " ++ toString version ++ " is newer than supported version "
    ++ toString Session.currentVersion)

/-- A document that states a version that is not known yet. -/
def StatesNewer (document : String) (version : Nat) : Prop :=
  ∃ j, parse? document = some j ∧ documentVersion j.canonical = version ∧
    Session.currentVersion < version

theorem decodeSession_of_newer {document : String} {version : Nat}
    (newer : StatesNewer document version) :
    decodeSession document = .error (unknownVersion version) := by
  obtain ⟨j, parsed, rfl, above⟩ := newer
  rw [decodeSession, parsed, Option.map_some]
  exact if_pos above

/-- What the store answers of a row. -/
def restore (r : SessionRow) : Outcome Session :=
  (decodeSession r.document).mapError BackendError.toFault

theorem mapError_map {ε ε' α β : Type} (f : ε → ε') (g : α → β) (x : Except ε α) :
    (x.map g).mapError f = (x.mapError f).map g := by
  cases x <;> rfl

theorem mapError_mapM {ε ε' α β : Type} (f : ε → ε') (g : α → Except ε β) (l : List α) :
    (l.mapM g).mapError f = l.mapM fun a => (g a).mapError f := by
  induction l with
  | nil => rfl
  | cons a l ih =>
    rw [List.mapM_cons, List.mapM_cons, ← ih]
    cases g a with
    | error e => rfl
    | ok b => cases l.mapM g <;> rfl

/-- The first that fails is what all of them come to. -/
theorem mapM_refused {ε α β : Type} {g : α → Except ε β} {before after : List α} {a : α} {e : ε}
    (readable : ∀ b ∈ before, ∃ x, g b = .ok x) (refused : g a = .error e) :
    (before ++ a :: after).mapM g = .error e := by
  induction before with
  | nil =>
    rw [List.nil_append, List.mapM_cons, refused]
    rfl
  | cons b before ih =>
    obtain ⟨⟨x, read⟩, rest⟩ := List.forall_mem_cons.mp readable
    rw [List.cons_append, List.mapM_cons, read, ih rest]
    rfl

theorem decodeRow_some (r : SessionRow) :
    (decodeRow (some r)).mapError BackendError.toFault = (restore r).map some :=
  mapError_map ..

theorem decodeRows {α : Type} (f : Session → α) (rows : List SessionRow) :
    (rows.mapM fun r => (decodeSession r.document).map f).mapError BackendError.toFault =
      (rows.map restore).mapM fun given => given.map f := by
  rw [mapError_mapM, List.mapM_map]
  congr 1
  funext r
  exact mapError_map ..

end Database

namespace Session

/-- No arguments of a call nest deeper than a reader of the session's document goes. -/
def Shallow (s : Session) : Prop := ∀ e ∈ s.history, ∀ b ∈ e.message.content, b.Shallow 122

theorem nests_maxDepth {s : Session} : Nests maxDepth s.toJson ↔ s.Shallow := nests_iff

/-- What the store gives back of a session that was saved. -/
inductive GivenBack (s : Session) : Outcome Session → Prop where
  | whole (shallow : s.Shallow) (known : s.schemaVersion ≤ currentVersion) : s.GivenBack (.ok s)
  | newer (shallow : s.Shallow) (unknown : currentVersion < s.schemaVersion) :
      s.GivenBack (.error (Database.unknownVersion s.schemaVersion).toFault)
  | deep (deep : ¬ s.Shallow) : s.GivenBack (.error BackendError.malformed.toFault)

theorem givenBack {s : Session} (fits : s.Fits) :
    s.GivenBack (Database.restore (Database.rowOf s)) := by
  have document : (Database.rowOf s).document = s.toJson.compact := by rw [Database.rowOf]
  rw [Database.restore, document]
  by_cases shallow : s.Shallow
  · rw [decodeSession_compact fits (nests_maxDepth.mpr shallow)]
    by_cases unknown : s.schemaVersion > currentVersion
    · rw [if_pos unknown]
      exact .newer shallow unknown
    · rw [if_neg unknown]
      exact .whole shallow (Nat.le_of_not_gt unknown)
  · rw [Database.decodeSession, parse?_of_deep (mt nests_maxDepth.mp shallow)]
    exact .deep shallow

theorem restore_rowOf {s : Session} (fits : s.Fits) (shallow : s.Shallow)
    (known : s.schemaVersion ≤ currentVersion) : Database.restore (Database.rowOf s) = .ok s := by
  have given := givenBack fits
  generalize Database.restore (Database.rowOf s) = answer at given
  cases given with
  | whole => rfl
  | newer _ unknown => exact absurd known (Nat.not_le_of_gt unknown)
  | deep deep => exact absurd shallow deep

/-- What is given back as a session is the session. -/
theorem GivenBack.eq {s s' : Session} (given : s.GivenBack (.ok s')) : s' = s := by
  cases given
  rfl

/-- By last activity, then by creation, newest first. -/
def NotOlder (s s' : Session) : Prop :=
  s'.lastActivityAt < s.lastActivityAt ∨
    s.lastActivityAt = s'.lastActivityAt ∧ s'.createdAt ≤ s.createdAt

theorem notOlder_rowOf {s s' : Session} :
    (Database.rowOf s).notOlder (Database.rowOf s') = true ↔ s.NotOlder s' := by
  simp only [SessionRow.notOlder, Bool.or_eq_true, Bool.and_eq_true, decide_eq_true_eq]
  rfl

theorem fits_new (project id : String) {now : Int}
    (word : -Nat.pow 2 63 ≤ now ∧ now ≤ Nat.pow 2 63 - 1) : (new project id now).Fits where
  version := show currentVersion ≤ _ by decide
  createdAt := word
  lastActivityAt := word
  history := List.forall_mem_nil _
  usage := ContextState.reads_zero
  stats := ⟨Nat.zero_le _, Nat.zero_le _, Nat.zero_le _, Nat.zero_le _, Nat.zero_le _⟩
  undoStack := List.forall_mem_nil _
  maxUndo := show presetMaxUndo ≤ maxWord by decide
  maxInputs := show presetMaxInputs ≤ maxWord by decide

section

variable {s : Session}

theorem Fits.touch {now : Int} (fits : s.Fits)
    (word : -Nat.pow 2 63 ≤ now ∧ now ≤ Nat.pow 2 63 - 1) : (s.touch now).Fits :=
  { fits with lastActivityAt := word }

theorem Fits.pushUndo {c : Change} (fits : s.Fits) (change : c.Fits) : (s.pushUndo c).Fits := by
  refine { fits with undoStack := fun other member => ?_ }
  rcases List.mem_cons.mp member with rfl | below
  · exact change
  · split at below
    · exact fits.undoStack other (List.dropLast_subset _ below)
    · exact fits.undoStack other below

theorem Fits.popUndo (fits : s.Fits) : s.popUndo.2.Fits := by
  rw [Session.popUndo]
  split
  · exact fits
  · rename_i c rest stack
    refine { fits with undoStack := fun other member => fits.undoStack other ?_ }
    exact stack ▸ List.mem_cons_of_mem c member

theorem popUndo_none {rest : Session} (popped : s.popUndo = (none, rest)) : rest = s := by
  rw [Session.popUndo] at popped
  split at popped
  · exact (Prod.mk.inj popped).2.symm
  · cases popped

@[simp] theorem touch_id (now : Int) : (s.touch now).id = s.id := rfl

@[simp] theorem pushUndo_id (c : Change) : (s.pushUndo c).id = s.id := rfl

@[simp] theorem popUndo_id : s.popUndo.2.id = s.id := by
  rw [Session.popUndo]
  split <;> rfl

end

end Session

namespace Database

@[simp] theorem rowOf_id (s : Session) : (rowOf s).id = s.id := rfl

@[simp] theorem rowOf_project (s : Session) : (rowOf s).project = s.projectName := rfl

/-- The rows are those of a map's sessions, one each, and what the map holds can be written and read. -/
structure Stores (d : Database) (m : Table Session) : Prop where
  single : (d.sessions.map (·.id)).Nodup
  rows : ∀ r, r ∈ d.sessions ↔ ∃ s, m.get? s.id = some s ∧ r = rowOf s
  named : ∀ {id s}, m.get? id = some s → s.id = id
  fits : ∀ {id s}, m.get? id = some s → s.Fits

theorem stores_empty {d : Database} (none : d.sessions = []) : d.Stores .empty :=
  ⟨by simp [none], by simp [none], by simp, by simp⟩

theorem find?_of_mem {rows : List SessionRow} {r : SessionRow} (single : (rows.map (·.id)).Nodup)
    (member : r ∈ rows) : rows.find? (·.id = r.id) = some r := by
  induction rows with
  | nil => cases member
  | cons first rest ih =>
    obtain ⟨fresh, single⟩ := List.nodup_cons.mp single
    rcases List.mem_cons.mp member with rfl | later
    · exact List.find?_cons_of_pos (by simp)
    · have other : first.id ≠ r.id := fun same => fresh (List.mem_map.mpr ⟨r, later, same.symm⟩)
      rw [List.find?_cons_of_neg (by simpa using other), ih single later]

namespace Stores

variable {d : Database} {m : Table Session}

theorem find? (held : d.Stores m) (id : String) :
    d.sessions.find? (·.id = id) = (m.get? id).map rowOf := by
  cases found : m.get? id with
  | none =>
    refine List.find?_eq_none.mpr fun r member => ?_
    obtain ⟨s, stored, rfl⟩ := (held.rows r).mp member
    intro same
    rw [show s.id = id from of_decide_eq_true same, found] at stored
    cases stored
  | some s =>
    have named := held.named found
    have member : rowOf s ∈ d.sessions := (held.rows _).mpr ⟨s, named ▸ found, rfl⟩
    have first := find?_of_mem held.single member
    rwa [show (rowOf s).id = id from named] at first

theorem removeRow (held : d.Stores m) (id : String) : (d.removeRow id).Stores (m.erase id) := by
  have earlier {key : String} {s : Session} (found : (m.erase id).get? key = some s) :
      m.get? key = some s := by
    rw [Table.get?_erase] at found
    split at found
    · cases found
    · exact found
  refine ⟨?_, fun r => ?_, fun found => held.named (earlier found),
    fun found => held.fits (earlier found)⟩
  · exact held.single.sublist (List.filter_sublist.map _)
  · simp only [Database.removeRow, List.mem_filter, held.rows, Table.get?_erase]
    constructor
    · rintro ⟨⟨s, stored, rfl⟩, other⟩
      have other : s.id ≠ id := of_decide_eq_true other
      exact ⟨s, by rw [if_neg other, stored], rfl⟩
    · rintro ⟨s, stored, rfl⟩
      split at stored
      · cases stored
      · rename_i other
        exact ⟨⟨s, stored, rfl⟩, decide_eq_true other⟩

theorem putRow (held : d.Stores m) {s : Session} (fits : s.Fits) :
    (d.putRow (rowOf s)).Stores (m.insert s.id s) := by
  have removed := held.removeRow s.id
  have earlier {key : String} {s' : Session} (found : (m.insert s.id s).get? key = some s') :
      key = s.id ∧ s' = s ∨ m.get? key = some s' := by
    rw [Table.get?_insert] at found
    split at found
    · exact Or.inl ⟨by assumption, (Option.some.inj found).symm⟩
    · exact Or.inr found
  refine ⟨?_, fun r => ?_, fun found => ?_, fun found => ?_⟩
  · rw [Database.putRow, List.map_append, List.nodup_append]
    refine ⟨removed.single, List.nodup_singleton _, ?_⟩
    intro id member other single
    obtain ⟨r, kept, rfl⟩ := List.mem_map.mp member
    have apart : r.id ≠ s.id := of_decide_eq_true (List.mem_filter.mp kept).2
    exact fun same => apart (same.trans (List.mem_singleton.mp single))
  · have among : r ∈ (d.putRow (rowOf s)).sessions ↔
        r ∈ (d.removeRow s.id).sessions ∨ r = rowOf s := by
      simp [Database.putRow, rowOf]
    rw [among, removed.rows]
    constructor
    · rintro (⟨s', stored, rfl⟩ | rfl)
      · refine ⟨s', ?_, rfl⟩
        rw [Table.get?_erase] at stored
        split at stored
        · cases stored
        · rename_i other
          rw [Table.get?_insert, if_neg other, stored]
      · exact ⟨s, Table.get?_insert_self .., rfl⟩
    · rintro ⟨s', stored, rfl⟩
      by_cases same : s'.id = s.id
      · rw [same, Table.get?_insert_self] at stored
        exact Or.inr (by rw [Option.some.inj stored])
      · rw [Table.get?_insert, if_neg same] at stored
        exact Or.inl ⟨s', by rw [Table.get?_erase, if_neg same, stored], rfl⟩
  · rcases earlier found with ⟨rfl, rfl⟩ | found
    · rfl
    · exact held.named found
  · rcases earlier found with ⟨rfl, rfl⟩ | found
    · exact fits
    · exact held.fits found

theorem mem_values (held : d.Stores m) {s : Session} : s ∈ m.values ↔ m.get? s.id = some s := by
  constructor
  · intro member
    obtain ⟨e, inside, rfl⟩ := List.mem_map.mp member
    have found : m.get? e.1 = some e.2 := Table.get?_eq_some.mpr inside
    rwa [held.named found]
  · intro found
    exact List.mem_map.mpr ⟨_, Table.get?_eq_some.mp found, rfl⟩

theorem nodup_values (held : d.Stores m) : m.values.Nodup := by
  have ids : m.values.map (·.id) = m.entries.map (·.1) := by
    rw [Table.values, List.map_map]
    exact List.map_congr_left fun e inside => held.named (Table.get?_eq_some.mpr inside)
  exact (ids ▸ m.nodup_keys).of_map

/-- Rows of the store are rows of sessions. -/
theorem sessions_of_rows (held : d.Stores m) {rows : List SessionRow}
    (among : ∀ r ∈ rows, r ∈ d.sessions) :
    ∃ ss : List Session, rows = ss.map rowOf ∧ ∀ s ∈ ss, m.get? s.id = some s := by
  induction rows with
  | nil => exact ⟨[], rfl, by simp⟩
  | cons r rows ih =>
    obtain ⟨s, stored, rfl⟩ := (held.rows r).mp (among r List.mem_cons_self)
    obtain ⟨ss, rfl, all⟩ := ih fun r member => among r (List.mem_cons_of_mem _ member)
    exact ⟨s :: ss, rfl, List.forall_mem_cons.mpr ⟨stored, all⟩⟩

end Stores

/-- The rows of a project, or all. -/
theorem mem_ofProject {rows : List SessionRow} {project : Option String} {r : SessionRow} :
    r ∈ ofProject rows project ↔ r ∈ rows ∧ ∀ p ∈ project, r.project = p := by
  cases project <;> simp [ofProject]

theorem perm_newestFirst (rows : List SessionRow) : (newestFirst rows).Perm rows :=
  List.mergeSort_perm ..

theorem sorted_newestFirst (rows : List SessionRow) :
    (newestFirst rows).Pairwise fun r r' => r.notOlder r' := by
  refine List.pairwise_mergeSort ?_ ?_ rows
  · intro a b c
    simp only [SessionRow.notOlder, Bool.or_eq_true, Bool.and_eq_true, decide_eq_true_eq]
    omega
  · intro a b
    simp only [SessionRow.notOlder, Bool.or_eq_true, Bool.and_eq_true, decide_eq_true_eq]
    omega

/-- The rows that are asked for are those of the sessions asked for, newest first. -/
theorem Stores.ordered {d : Database} {m : Table Session} (held : d.Stores m)
    (project : Option String) :
    ∃ ss : List Session, newestFirst (ofProject d.sessions project) = ss.map rowOf ∧
      ss.Perm (m.values.filter fun s => ∀ p ∈ project, s.projectName = p) ∧
      ss.Pairwise Session.NotOlder ∧ ∀ s ∈ ss, s.Fits := by
  have member {r : SessionRow} : r ∈ newestFirst (ofProject d.sessions project) ↔
      r ∈ d.sessions ∧ ∀ p ∈ project, r.project = p :=
    (perm_newestFirst _).mem_iff.trans mem_ofProject
  obtain ⟨ss, rows, stored⟩ := held.sessions_of_rows fun r inside => (member.mp inside).1
  have sorted := sorted_newestFirst (ofProject d.sessions project)
  rw [rows, List.pairwise_map] at sorted
  refine ⟨ss, rows, ?_, sorted.imp Session.notOlder_rowOf.mp, fun s inside => held.fits (stored s inside)⟩
  refine (List.perm_ext_iff_of_nodup ?_ (held.nodup_values.filter _)).mpr fun s => ?_
  · have kept : (ofProject d.sessions project).Sublist d.sessions := by
      cases project
      · exact List.Sublist.refl _
      · exact List.filter_sublist
    have ids : ((ss.map rowOf).map (·.id)).Nodup :=
      rows ▸ ((perm_newestFirst _).map _).nodup_iff.mpr (held.single.sublist (kept.map _))
    exact ids.of_map.of_map
  · rw [List.mem_filter, held.mem_values, decide_eq_true_eq]
    constructor
    · intro inside
      have row : rowOf s ∈ newestFirst (ofProject d.sessions project) :=
        rows ▸ List.mem_map_of_mem inside
      exact ⟨stored s inside, (member.mp row).2⟩
    · rintro ⟨found, asked⟩
      have row := member.mpr ⟨(held.rows (rowOf s)).mpr ⟨s, found, rfl⟩, asked⟩
      rw [rows] at row
      obtain ⟨s', inside, same⟩ := List.mem_map.mp row
      have ids : s'.id = s.id := congrArg SessionRow.id same
      have found' := stored s' inside
      rw [ids, found] at found'
      rwa [Option.some.inj found']

end Database

end CodeAgent
