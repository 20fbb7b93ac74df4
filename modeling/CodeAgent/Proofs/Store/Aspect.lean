import CodeAgent.Proofs.Store.Commit

/-! What an index holds of a file beside its record, in memory and in the database.
Each call is followed look-up by look-up: in memory what a file had stays unless the file goes, in the
database a pass puts its own in the place of all. -/
namespace CodeAgent

/-- Whether the call takes away what files had. -/
def IndexCall.sweeps : IndexCall → Bool
  | deleteFile _ | commit _ => true
  | _ => false

/-- What an index holds of a file beside its record. -/
inductive Aspect where
  | outline
  | fileMeta

namespace Aspect

abbrev Value : Aspect → Type
  | outline => Outline
  | fileMeta => FileMeta

def write : (a : Aspect) → a.Value → Json
  | outline => Outline.toJson
  | fileMeta => FileMeta.toJson

def read : (a : Aspect) → Json → Option a.Value
  | outline => Outline.ofJson?
  | fileMeta => FileMeta.ofJson?

/-- The bits that its numbers are read with hold them. -/
def Fits : (a : Aspect) → a.Value → Prop
  | outline => Outline.Fits
  | fileMeta => fun m => m.complexity.Fits

theorem restores {a : Aspect} {v : a.Value} (fits : a.Fits v) :
    Json.Restores Json.maxDepth a.write a.read v := by
  cases a with
  | outline => exact Outline.restores fits
  | fileMeta => exact FileMeta.restores fits

/-- What a pass found. -/
def found : (a : Aspect) → Snapshot → Table a.Value
  | outline => Snapshot.outlines
  | fileMeta => Snapshot.metas

theorem fits_found (a : Aspect) {s : Snapshot} (fits : s.Fits) :
    ∀ e ∈ (a.found s).entries, a.Fits e.2 := by
  cases a with
  | outline => exact fits.outlines
  | fileMeta => exact fits.metas

/-- The file and the value that a call hands over. -/
def given : (a : Aspect) → IndexCall → Option (String × a.Value)
  | outline, .setOutline path o => some (path, o)
  | fileMeta, .setMeta path m => some (path, m)
  | _, _ => none

/-- The question for the value of a file. -/
def ask : Aspect → String → IndexCall
  | outline => .outline
  | fileMeta => .fileMeta

/- In memory -/

def table : (a : Aspect) → MemoryIndex → Table a.Value
  | outline => MemoryIndex.outlines
  | fileMeta => MemoryIndex.metas

variable (a : Aspect) (m : MemoryIndex) (path : String)

theorem table_setFiles (rs : List FileRecord) :
    a.table (rs.foldl MemoryIndex.setFile m) = a.table m := by
  induction rs generalizing m with
  | nil => rfl
  | cons r rs ih =>
    rw [List.foldl_cons, ih]
    cases a <;> rfl

theorem get?_deleteFile (gone : String) :
    (a.table (m.deleteFile gone)).get? path = if path = gone then none else (a.table m).get? path := by
  cases a <;> exact Table.get?_erase _ _ _

theorem get?_deleteFiles (gone : List String) :
    (a.table (gone.foldl MemoryIndex.deleteFile m)).get? path =
      if path ∈ gone then none else (a.table m).get? path := by
  induction gone generalizing m with
  | nil => simp
  | cons first gone ih =>
    rw [List.foldl_cons, ih, get?_deleteFile]
    by_cases here : path = first <;> by_cases later : path ∈ gone <;> simp [here, later]

/-- A file is deleted by a pass that does not find it, if it is recorded. -/
theorem mem_stale {found : List FileRecord} :
    path ∈ (m.files.keys.filter fun p => found.all (·.path ≠ p)) ↔
      (m.files.get? path).isSome ∧ path ∉ found.map (·.path) := by
  rw [List.mem_filter, Table.mem_keys]
  simp

theorem get?_commit (s : Snapshot) :
    (a.table (m.commit s)).get? path = ((a.found s).get? path).or
      (if (m.files.get? path).isSome ∧ path ∉ s.files.map (·.path) then none
        else (a.table m).get? path) := by
  let parts : MemoryIndex := { m with symbols := s.symbols, graph := s.graph }
  have kept : (a.table (s.files.foldl MemoryIndex.setFile (parts.deleteStale s.files))).get? path =
      if (m.files.get? path).isSome ∧ path ∉ s.files.map (·.path) then none
        else (a.table m).get? path := by
    rw [table_setFiles, MemoryIndex.deleteStale, get?_deleteFiles]
    refine if_congr (mem_stale parts path) rfl ?_
    cases a <;> rfl
  rw [← kept]
  cases a <;> exact Table.get?_inserts _ _

/-- A call that takes nothing away and hands no such value over leaves all values alone. -/
theorem table_answer {c : IndexCall} (given : a.given c = none) (stays : c.sweeps = false) :
    a.table (m.answer c).2 = a.table m := by
  cases c with
  | deleteFile gone => cases stays
  | commit s => cases stays
  | setOutline p o => cases a with
    | outline => cases given
    | fileMeta => rfl
  | setMeta p o => cases a with
    | outline => rfl
    | fileMeta => cases given
  | _ => cases a <;> rfl

theorem get?_given {c : IndexCall} {named : String} {v : a.Value} (given : a.given c = some (named, v)) :
    (a.table (m.answer c).2).get? path = if path = named then some v else (a.table m).get? path := by
  cases a <;> cases c <;> cases given <;> exact Table.get?_insert _ _ _ _

/- In the database -/

def shelf : Aspect → Database → Shelf
  | outline => Database.outlines
  | fileMeta => Database.metas

variable (d : Database) (project : String)

theorem shelf_answer {c : IndexCall} (given : a.given c = none) (stays : c.sweeps = false) :
    a.shelf (d.answer project c).2 = a.shelf d := by
  cases c with
  | deleteFile gone => cases stays
  | commit s => cases stays
  | setOutline p o => cases a with
    | outline => cases given
    | fileMeta => rfl
  | setMeta p o => cases a with
    | outline => rfl
    | fileMeta => cases given
  | _ => cases a <;> rfl

theorem document_given {c : IndexCall} {named : String} {v : a.Value}
    (given : a.given c = some (named, v)) :
    (a.shelf (d.answer project c).2).get? project path =
      if path = named then some (a.write v).compact else (a.shelf d).get? project path := by
  cases a <;> cases c <;> cases given <;> exact Shelf.get?_put _

theorem document_deleteFile (gone : String) :
    (a.shelf (d.answer project (.deleteFile gone)).2).get? project path =
      if path = gone then none else (a.shelf d).get? project path := by
  cases a <;> exact Shelf.get?_remove

theorem document_commit (s : Snapshot) :
    (a.shelf (d.replaced project s)).get? project path =
      ((a.found s).get? path).map fun v => (a.write v).compact := by
  cases a <;> exact (Shelf.get?_replace _).trans (Table.get?_mapValues _)

end Aspect

end CodeAgent
