import CodeAgent.Proofs.Json.Restoring
import CodeAgent.Proofs.Project.Recording

/-! The records that the database holds of a project's files.
It keeps what it is given, as an index does, as long as a record can be written and read back; so a
program that is run in a world with a database is a run along its files and records. -/
namespace CodeAgent

namespace FileRecord

open Json

/-- Sixty-four bits hold the numbers of the record. -/
structure Fits (r : FileRecord) : Prop where
  size : r.size ≤ maxWord
  notBefore : -Nat.pow 2 63 ≤ r.lastModified
  notAfter : r.lastModified ≤ Nat.pow 2 63 - 1

theorem restores {r : FileRecord} (fits : r.Fits) : Restores maxDepth toJson ofJson? r := by
  have size : Restores 127 nat toNat64? r.size := .nat fits.size
  have modified : Restores 127 int toInt64? r.lastModified := .int fits.notBefore fits.notAfter
  refine ⟨readable_object ?_, ?_⟩
  · simp [size.readable, modified.readable]
  · simp [ofJson?, toJson, Table.ofList, Table.get?_insert, size.read, modified.read]

theorem read_compact {r : FileRecord} (fits : r.Fits) :
    (parse? r.toJson.compact).bind ofJson? = some r := (restores fits).read_compact

end FileRecord

namespace Shelf

variable {s : Shelf} {project key other : String}

theorem get?_put (document : String) :
    (s.put project key document).get? project other =
      if other = key then some document else s.get? project other := by
  rw [get?, put, Table.update, Table.get?_insert_self, Option.bind_some, Table.get?_insert]
  split
  · rfl
  · rw [get?]
    cases Table.get? s project <;> rfl

theorem get?_remove :
    (s.remove project key).get? project other =
      if other = key then none else s.get? project other := by
  rw [remove]
  split
  · rename_i t held
    rw [get?, get?, Table.get?_insert_self, held, Option.bind_some, Option.bind_some, Table.get?_erase]
  · rename_i absent
    simp [get?, absent]

theorem get?_replace (documents : Table String) :
    (s.replace project documents).get? project key = documents.get? key := by
  rw [get?, replace, Table.get?_insert_self, Option.bind_some]

/-- The records of a project's files; a document that cannot be read is none. -/
def records (s : Shelf) (project : String) : Records := fun path =>
  ((s.get? project path).bind Json.parse?).bind FileRecord.ofJson?

theorem records_put {r : FileRecord} (fits : r.Fits) :
    (s.put project r.path r.toJson.compact).records project =
      Function.update (s.records project) r.path (some r) := by
  funext path
  rw [records, get?_put, Function.update_apply]
  by_cases same : path = r.path
  · rw [if_pos same, if_pos same, Option.bind_some, FileRecord.read_compact fits]
  · rw [if_neg same, if_neg same, records]

theorem records_remove :
    (s.remove project key).records project = Function.update (s.records project) key none := by
  funext path
  rw [records, get?_remove, Function.update_apply]
  by_cases same : path = key
  · rw [if_pos same, if_pos same, Option.bind_none, Option.bind_none]
  · rw [if_neg same, if_neg same, records]

/-- What is put in the place of a project's records is all that there is. -/
theorem records_replace {rs : List FileRecord} (fits : ∀ r ∈ rs, r.Fits) {path : String}
    {r : FileRecord}
    (held : (s.replace project (.ofList (rs.map fun r => (r.path, r.toJson.compact)))).records
      project path = some r) : r ∈ rs ∧ r.path = path := by
  rw [records, get?_replace] at held
  cases stored : (Table.ofList (rs.map fun r => (r.path, r.toJson.compact))).get? path with
  | none => simp [stored] at held
  | some document =>
    obtain ⟨r', member, same⟩ := List.mem_map.mp (Table.mem_of_get?_ofList stored)
    obtain ⟨rfl, rfl⟩ := Prod.mk.inj same
    rw [stored, Option.bind_some, FileRecord.read_compact (fits r' member)] at held
    obtain rfl := Option.some.inj held
    exact ⟨member, rfl⟩

end Shelf

namespace Database

/-- A document that is there and can be read is the record; one that cannot be read is an error. -/
theorem kept_file (d : Database) (project path : String) :
    (IndexCall.file path).Kept (d.files.records project) (d.answer project (.file path)).1
      (d.files.records project) := by
  have found (r : Option FileRecord)
      (read : decodeIfAny FileRecord.ofJson? (d.files.get? project path) = .ok r) :
      r = d.files.records project path := by
    cases document : d.files.get? project path with
    | none =>
      rw [document] at read
      cases read
      simp [Shelf.records, document]
    | some text =>
      rw [document, decodeIfAny, decode] at read
      cases whole : (Json.parse? text).bind FileRecord.ofJson? with
      | none =>
        rw [whole] at read
        cases read
      | some r =>
        rw [whole] at read
        cases read
        simp [Shelf.records, document, whole]
  rw [answer, Database.read]
  cases read : decodeIfAny FileRecord.ofJson? (d.files.get? project path) with
  | ok r => exact ⟨found r read, rfl⟩
  | error e => rfl

/-- The database keeps what it is given. -/
theorem kept_answer (d : Database) (project : String) {c : IndexCall}
    (fits : ∀ r ∈ c.offered, r.Fits) :
    c.Kept (d.files.records project) (d.answer project c).1
      ((d.answer project c).2.files.records project) := by
  cases c with
  | file path => exact d.kept_file project path
  | setFile r => exact Shelf.records_put (fits r (List.mem_singleton_self r))
  | deleteFile path => exact Shelf.records_remove
  | commit s =>
    rw [answer, commit]
    by_cases single : (s.files.map (·.path)).Nodup
    · rw [if_pos single]
      exact fun n r held => Shelf.records_replace fits held
    · rw [if_neg single]
      exact fun n r => Or.inl
  | _ => rfl

end Database

namespace World

variable {σ : Type}

/-- The files and records of the project in a world. -/
def scene (w : World σ) : Scene := ⟨w.files, w.database.files.records w.project⟩

/-- Only files and the index change the scene. -/
theorem scene_answer (o : Outside σ) {q : Ask} (w : World σ) (elsewhere : q.elsewhere) :
    (answer o q w).2.scene = w.scene := by
  cases q with
  | file | index => exact elsewhere.elim
  | sessions c => cases c <;> rfl
  | turn c =>
    cases c with
    | move next =>
      simp only [answer, turn?]
      split <;> rfl
    | _ => rfl
  | _ => rfl

/-- A program that hands over no record that does not fit runs along the files and records. -/
theorem along_run (o : Outside σ) (p : Act α) (w : World σ)
    (fits : ∀ h ∈ heard o p w, ∀ c, h.question = .index c → ∀ r ∈ c.offered, r.Fits) :
    Along w.scene (heard o p w) (run o p w).2.scene := by
  induction p generalizing w with
  | done a => exact along_nil.mpr rfl
  | ask q next ih =>
    have onward := ih (answer o q w).1 (answer o q w).2
      fun h member => fits h (List.mem_cons_of_mem _ member)
    rw [run_ask]
    cases q with
    | file c => exact along_file.mpr ⟨_, rfl, onward⟩
    | index c =>
      have kept := w.database.kept_answer w.project (fits _ List.mem_cons_self c rfl)
      exact along_index.mpr ⟨_, kept, onward⟩
    | _ =>
      rw [scene_answer o w (by trivial)] at onward
      exact (along_other (by trivial)).mpr onward

end World

end CodeAgent
