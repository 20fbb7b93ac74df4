import CodeAgent.Proofs.Tool.Remembering
import CodeAgent.Store.Memory

/-! The records that the index holds of files, along a run.
The index is any that keeps what it is given. A record tells what its file held when the record was
made, and until the index is given another one it stays. -/
namespace CodeAgent

/-- The records of an index, by name. -/
abbrev Records := String → Option FileRecord

namespace IndexCall

/-- The records that a call hands over to the index. -/
def offered : IndexCall → List FileRecord
  | setFile r => [r]
  | commit s => s.files
  | _ => []

/-- How an index that keeps what it is given may answer, with its records before and after. A call
that fails may have been carried out, and a pass that fails only in part. -/
def Kept (before : Records) : (c : IndexCall) → Outcome c.Result → Records → Prop
  | file n, .ok found, after => found = before n ∧ after = before
  | setFile r, .ok _, after => after = Function.update before r.path (some r)
  | setFile r, .error _, after => after = before ∨ after = Function.update before r.path (some r)
  | deleteFile n, .ok _, after => after = Function.update before n none
  | deleteFile n, .error _, after => after = before ∨ after = Function.update before n none
  | commit s, .ok _, after => ∀ n r, after n = some r → r ∈ s.files ∧ r.path = n
  | commit s, .error _, after =>
    ∀ n r, after n = some r → before n = some r ∨ (r ∈ s.files ∧ r.path = n)
  | _, _, after => after = before

theorem offered_of_update {before : Records} {record r : FileRecord} {n : String}
    (held : Function.update before record.path (some record) n = some r) :
    before n = some r ∨ (r ∈ [record] ∧ r.path = n) := by
  by_cases same : n = record.path
  · subst same
    rw [Function.update_self] at held
    obtain rfl := Option.some.inj held
    exact Or.inr ⟨List.mem_singleton_self _, rfl⟩
  · rw [Function.update_of_ne same] at held
    exact Or.inl held

theorem held_of_update_none {before : Records} {r : FileRecord} {n gone : String}
    (held : Function.update before gone none n = some r) : before n = some r := by
  by_cases same : n = gone
  · subst same
    simp at held
  · rwa [Function.update_of_ne same] at held

/-- An index comes by its records only as they are handed over. -/
theorem Kept.offers {before after : Records} {c : IndexCall} {answer : Outcome c.Result}
    (kept : c.Kept before answer after) {n : String} {r : FileRecord} (held : after n = some r) :
    before n = some r ∨ (r ∈ c.offered ∧ r.path = n) := by
  cases c with
  | file =>
    cases answer with
    | ok => exact Or.inl (kept.2 ▸ held)
    | error => exact Or.inl (kept ▸ held)
  | setFile =>
    cases answer with
    | ok => exact offered_of_update (kept ▸ held)
    | error =>
      rcases kept with rfl | rfl
      · exact Or.inl held
      · exact offered_of_update held
  | deleteFile =>
    cases answer with
    | ok => exact Or.inl (held_of_update_none (kept ▸ held))
    | error =>
      rcases kept with rfl | rfl
      · exact Or.inl held
      · exact Or.inl (held_of_update_none held)
  | commit =>
    cases answer with
    | ok => exact Or.inr (kept n r held)
    | error => exact kept n r held
  | _ => exact Or.inl (kept ▸ held)

end IndexCall

/-- An index answers along a run, and holds other records at its end. -/
inductive Stores : Records → List Heard → Records → Prop where
  | nil (rs : Records) : Stores rs [] rs
  | index {rs rs₁ rs' : Records} {l : List Heard} {c : IndexCall} {answer : Outcome c.Result}
      (kept : c.Kept rs answer rs₁) (rest : Stores rs₁ l rs') : Stores rs (⟨.index c, answer⟩ :: l) rs'
  | other {rs rs' : Records} {h : Heard} {l : List Heard} (elsewhere : ∀ c, h.question ≠ .index c)
      (rest : Stores rs l rs') : Stores rs (h :: l) rs'

section

variable {rs rs' : Records} {l l₁ l₂ : List Heard}

theorem stores_nil : Stores rs [] rs' ↔ rs' = rs := by
  constructor
  · intro stores
    cases stores
    rfl
  · rintro rfl
    exact .nil rs'

theorem stores_index {c : IndexCall} {answer : Outcome c.Result} :
    Stores rs (⟨.index c, answer⟩ :: l) rs' ↔ ∃ rs₁, c.Kept rs answer rs₁ ∧ Stores rs₁ l rs' := by
  constructor
  · intro stores
    cases stores with
    | index kept rest => exact ⟨_, kept, rest⟩
    | other elsewhere => exact absurd rfl (elsewhere c)
  · rintro ⟨rs₁, kept, rest⟩
    exact .index kept rest

theorem stores_other {h : Heard} (elsewhere : ∀ c, h.question ≠ .index c) :
    Stores rs (h :: l) rs' ↔ Stores rs l rs' := by
  constructor
  · intro stores
    cases stores with
    | index => exact absurd rfl (elsewhere _)
    | other _ rest => exact rest
  · exact .other elsewhere

theorem stores_append : Stores rs (l₁ ++ l₂) rs' ↔ ∃ m, Stores rs l₁ m ∧ Stores m l₂ rs' := by
  induction l₁ generalizing rs with
  | nil =>
    constructor
    · intro stores
      exact ⟨rs, .nil rs, stores⟩
    · rintro ⟨m, first, second⟩
      obtain rfl := stores_nil.mp first
      exact second
  | cons h l₁ ih =>
    constructor
    · intro stores
      cases stores with
      | index kept rest =>
        obtain ⟨m, first, second⟩ := ih.mp rest
        exact ⟨m, .index kept first, second⟩
      | other elsewhere rest =>
        obtain ⟨m, first, second⟩ := ih.mp rest
        exact ⟨m, .other elsewhere first, second⟩
    · rintro ⟨m, first, second⟩
      cases first with
      | index kept rest => exact .index kept (ih.mpr ⟨m, rest, second⟩)
      | other elsewhere rest => exact .other elsewhere (ih.mpr ⟨m, rest, second⟩)

theorem Stores.unasked (stores : Stores rs l rs') (unasked : ∀ h ∈ l, ∀ c, h.question ≠ .index c) :
    rs' = rs := by
  induction stores with
  | nil => rfl
  | index kept rest => exact absurd rfl (unasked _ List.mem_cons_self _)
  | other elsewhere rest ih => exact ih fun h member => unasked h (List.mem_cons_of_mem _ member)

end

/-- The files of a project, and what its index holds of them. -/
structure Scene where
  files : FileTree
  records : Records

/-- A scene answers along a run, and becomes another by it. -/
structure Along (s : Scene) (l : List Heard) (s' : Scene) : Prop where
  follows : Follows s.files l s'.files
  stores : Stores s.records l s'.records

section

variable {s s' : Scene} {l l₁ l₂ : List Heard}

theorem along_nil : Along s [] s' ↔ s' = s := by
  constructor
  · rintro ⟨follows, stores⟩
    obtain ⟨t, rs⟩ := s'
    obtain rfl : t = s.files := follows_nil.mp follows
    obtain rfl : rs = s.records := stores_nil.mp stores
    rfl
  · rintro rfl
    exact ⟨.nil _, .nil _⟩

theorem along_append : Along s (l₁ ++ l₂) s' ↔ ∃ m, Along s l₁ m ∧ Along m l₂ s' := by
  constructor
  · rintro ⟨follows, stores⟩
    obtain ⟨t, follows₁, follows₂⟩ := follows_append.mp follows
    obtain ⟨rs, stores₁, stores₂⟩ := stores_append.mp stores
    exact ⟨⟨t, rs⟩, ⟨follows₁, stores₁⟩, ⟨follows₂, stores₂⟩⟩
  · rintro ⟨m, first, second⟩
    exact ⟨follows_append.mpr ⟨_, first.follows, second.follows⟩,
      stores_append.mpr ⟨_, first.stores, second.stores⟩⟩

theorem along_file {c : FileCall} {answer : Except FileError c.Result} :
    Along s (⟨.file c, answer⟩ :: l) s' ↔
      ∃ now, answer = (s.files.answer now c).1 ∧ Along ⟨(s.files.answer now c).2, s.records⟩ l s' := by
  constructor
  · rintro ⟨follows, stores⟩
    obtain ⟨now, answered, rest⟩ := follows_file.mp follows
    exact ⟨now, answered, rest, (stores_other (by simp)).mp stores⟩
  · rintro ⟨now, answered, rest⟩
    exact ⟨follows_file.mpr ⟨now, answered, rest.follows⟩, .other (by simp) rest.stores⟩

theorem along_index {c : IndexCall} {answer : Outcome c.Result} :
    Along s (⟨.index c, answer⟩ :: l) s' ↔
      ∃ rs, c.Kept s.records answer rs ∧ Along ⟨s.files, rs⟩ l s' := by
  constructor
  · rintro ⟨follows, stores⟩
    obtain ⟨rs, kept, rest⟩ := stores_index.mp stores
    exact ⟨rs, kept, (follows_other (by simp)).mp follows, rest⟩
  · rintro ⟨rs, kept, rest⟩
    exact ⟨.other (by simp) rest.follows, .index kept rest.stores⟩

/-- Neither a file nor the index is asked. -/
def Ask.elsewhere : Ask → Prop
  | .file _ | .index _ => False
  | _ => True

theorem along_other {q : Ask} {answer : q.Answer} (elsewhere : q.elsewhere) :
    Along s (⟨q, answer⟩ :: l) s' ↔ Along s l s' := by
  have noFile : ∀ c, q ≠ .file c := by
    rintro c rfl
    exact elsewhere
  have noIndex : ∀ c, q ≠ .index c := by
    rintro c rfl
    exact elsewhere
  constructor
  · rintro ⟨follows, stores⟩
    exact ⟨(follows_other noFile).mp follows, (stores_other noIndex).mp stores⟩
  · rintro ⟨follows, stores⟩
    exact ⟨.other noFile follows, .other noIndex stores⟩

/-- Questions that change neither files nor records. -/
def Ask.peeks : Ask → Prop
  | .file c => (Ask.file c).looks
  | .index (.file _) => True
  | .index _ => False
  | _ => True

theorem Ask.peeks_of_looks (c : FileCall) (looks : (Ask.file c).looks) : (Ask.file c).peeks := looks

theorem Along.same (along : Along s l s') (peeks : ∀ h ∈ l, h.question.peeks) : s' = s := by
  induction l generalizing s with
  | nil => exact along_nil.mp along
  | cons h l ih =>
    obtain ⟨q, answer⟩ := h
    have here : q.peeks := peeks _ List.mem_cons_self
    have later := fun h member => peeks h (List.mem_cons_of_mem _ member)
    cases q with
    | file c =>
      obtain ⟨now, -, rest⟩ := along_file.mp along
      obtain rfl := ih rest later
      cases c <;> first | rfl | exact here.elim
    | index c =>
      cases c with
      | file n =>
        obtain ⟨rs, kept, rest⟩ := along_index.mp along
        have still : rs = s.records := by
          cases answer with
          | ok => exact kept.2
          | error => exact kept
        rw [still] at rest
        exact ih rest later
      | _ => exact here.elim
    | _ => exact ih ((along_other (by exact here)).mp along) later

end

namespace FileTree

variable {t t' : FileTree}

/-- No answer takes a directory away. -/
theorem keeps_answer (t : FileTree) (now : Int) (c : FileCall) : t.Keeps (t.answer now c).2 := by
  cases c with
  | write path content =>
    rcases answer_write t now path content with ⟨e, same⟩ | ⟨p, -, file, same⟩
    · rw [same]
      exact .refl t
    · rw [same]
      exact (content_write file).2
  | makeDirs path => exact (content_answer_makeDirs t now path).2
  | remove path =>
    rw [answer]
    cases removed : t.remove path with
    | error e => exact .refl t
    | ok t' =>
      intro q directory
      unfold remove at removed
      cases found : t.find path with
      | error e =>
        rw [found] at removed
        cases removed
      | ok there =>
        obtain ⟨p, e⟩ := there
        rw [found] at removed
        cases e with
        | directory => cases removed
        | file content modified =>
          obtain rfl := Except.ok.inj removed
          have entry := (find_eq.mp found).2
          have other : q ≠ p := by
            rintro rfl
            simp [isDirectory, entry] at directory
          have same : entry? ⟨t.entries.erase p⟩ q = t.entry? q := by
            unfold entry?
            rw [Table.get?_erase, if_neg other]
          change isDirectory ⟨t.entries.erase p⟩ q = true
          rw [isDirectory, same]
          exact directory
  | _ => exact .refl t

end FileTree

theorem Follows.keeps {t t' : FileTree} {l : List Heard} (follows : Follows t l t') : t.Keeps t' := by
  induction follows with
  | nil t => exact .refl t
  | file now c rest ih => exact (FileTree.keeps_answer _ now c).trans ih
  | other elsewhere rest ih => exact ih

/-- The record was made of a file of the project that holds what the record says. A backslash in the
name of a scanned file counts as a slash in its record. -/
structure Made (root : String) (t : FileTree) (r : FileRecord) : Prop where
  digest : r.hash = contentHash r.content
  held : ∃ name, (name = r.path ∨ Scan.slashed name = r.path) ∧
    t.read (Path.join root name) = .ok r.content.toUTF8

/-- Every record is one from before, or it was made of the files as they are. -/
def Renewed (root : String) (t : FileTree) (before after : Records) : Prop :=
  ∀ n r, after n = some r → before n = some r ∨ (r.path = n ∧ Made root t r)

theorem Renewed.refl (root : String) (t : FileTree) (rs : Records) : Renewed root t rs rs :=
  fun _ _ => Or.inl

section

variable {root path name : String} {t : FileTree} {s s' : Scene} {l : List Heard}

theorem IndexCall.Kept.renewed {before after : Records} {c : IndexCall} {answer : Outcome c.Result}
    (kept : c.Kept before answer after) (made : ∀ r ∈ c.offered, Made root t r) :
    Renewed root t before after := fun _ r held =>
  (kept.offers held).imp id fun ⟨offered, named⟩ => ⟨named, made r offered⟩

theorem Made.ofContent {text : String} {modified : Int}
    (leads : Path.join root name = path) (read : t.read path = .ok text.toUTF8) :
    Made root t (.ofContent name text modified) where
  digest := by rw [FileRecord.content_ofContent]; rfl
  held := ⟨name, Or.inl rfl, by rw [FileRecord.content_ofContent, leads, read]⟩

theorem Files.along_loadRecord {record : FileRecord}
    (leads : ∀ b, s.files.read path = .ok b → Path.join root name = path)
    (run : Act.Trace (loadRecord path name).run l (.ok record)) (along : Along s l s') :
    s' = s ∧ Made root s.files record ∧ ∃ text modified, s.files.read path = .ok text.toUTF8 ∧
      record = .ofContent name text modified := by
  obtain rfl := along.same (run.within (within_loadRecord Ask.peeks_of_looks path name)).1
  obtain ⟨-, ⟨text, modified, read, same⟩ | ⟨_, wrong, -⟩⟩ := follows_loadRecord run along.follows
  · cases same
    exact ⟨rfl, .ofContent (leads _ read) read, text, modified, read, rfl⟩
  · cases wrong

theorem Attempt.along_recall {r : Outcome (Option FileRecord)}
    (run : Act.Trace (Attempt.index (.file name)).run l r) (along : Along s l s') :
    s' = s ∧ ∀ stored, r = .ok stored → stored = s.records name := by
  obtain rfl := Attempt.trace_index.mp run
  obtain rfl := along.same (by simp [Ask.peeks])
  refine ⟨rfl, ?_⟩
  rintro stored rfl
  obtain ⟨rs, kept, -⟩ := along_index.mp along
  exact kept.1

theorem Attempt.along_setFile {record : FileRecord} {r : Outcome Unit} (made : Made root s.files record)
    (run : Act.Trace (Attempt.index (.setFile record)).run l r) (along : Along s l s') :
    s'.files = s.files ∧ Renewed root s.files s.records s'.records ∧
      (r = .ok () → s'.records record.path = some record) := by
  obtain rfl := Attempt.trace_index.mp run
  obtain ⟨rs, kept, rest⟩ := along_index.mp along
  obtain rfl := along_nil.mp rest
  refine ⟨rfl, kept.renewed (by simpa [IndexCall.offered] using made), ?_⟩
  rintro rfl
  have stored : rs = Function.update s.records record.path (some record) := kept
  rw [stored]
  simp

end

/- Files as a value, with an index in memory -/

namespace MemoryIndex

theorem setFile_files (m : MemoryIndex) (r : FileRecord) :
    (m.setFile r).files.get? = Function.update m.files.get? r.path (some r) := by
  funext n
  rw [setFile, Table.get?_insert, Function.update_apply]

theorem deleteFile_files (m : MemoryIndex) (path : String) :
    (m.deleteFile path).files.get? = Function.update m.files.get? path none := by
  funext n
  rw [deleteFile, Table.get?_erase, Function.update_apply]

theorem get?_of_deleteFiles {paths : List String} {m : MemoryIndex} {n : String} {r : FileRecord}
    (held : (paths.foldl deleteFile m).files.get? n = some r) :
    n ∉ paths ∧ m.files.get? n = some r := by
  induction paths generalizing m with
  | nil => exact ⟨by simp, held⟩
  | cons path paths ih =>
    obtain ⟨later, held⟩ := ih held
    rw [deleteFile_files] at held
    have other : n ≠ path := by
      rintro rfl
      simp at held
    rw [Function.update_of_ne other] at held
    exact ⟨by simp [other, later], held⟩

theorem get?_of_setFiles {records : List FileRecord} {m : MemoryIndex} {n : String} {r : FileRecord}
    (held : (records.foldl setFile m).files.get? n = some r) :
    (r ∈ records ∧ r.path = n) ∨ ((∀ x ∈ records, x.path ≠ n) ∧ m.files.get? n = some r) := by
  induction records generalizing m with
  | nil => exact Or.inr ⟨by simp, held⟩
  | cons record records ih =>
    rcases ih held with ⟨member, named⟩ | ⟨unnamed, held⟩
    · exact Or.inl ⟨List.mem_cons_of_mem _ member, named⟩
    · rw [setFile_files] at held
      rcases IndexCall.offered_of_update held with before | ⟨member, named⟩
      · by_cases here : record.path = n
        · rw [← here, Function.update_self] at held
          obtain rfl := Option.some.inj held
          exact Or.inl ⟨List.mem_cons_self, here⟩
        · refine Or.inr ⟨?_, before⟩
          simpa [here] using unnamed
      · exact Or.inl ⟨by simp [List.mem_singleton.mp member], named⟩

theorem get?_of_commit {m : MemoryIndex} {s : Snapshot} {n : String} {r : FileRecord}
    (held : (m.commit s).files.get? n = some r) : r ∈ s.files ∧ r.path = n := by
  rcases get?_of_setFiles held with found | ⟨unnamed, held⟩
  · exact found
  · -- what no record of the pass is named by was among the names that were deleted
    obtain ⟨fresh, there⟩ := get?_of_deleteFiles held
    refine absurd (List.mem_filter.mpr ⟨?_, ?_⟩) fresh
    · exact List.mem_map.mpr ⟨(n, r), Entries.mem_of_lookup there, rfl⟩
    · simpa using unnamed

theorem setFiles_eq (m : MemoryIndex) (rs : List FileRecord) :
    rs.foldl setFile m =
      { m with files := (rs.map fun r => (r.path, r)).foldl (fun t e => t.insert e.1 e.2) m.files } := by
  induction rs generalizing m with
  | nil => rfl
  | cons r rs ih => exact ih (m.setFile r)

theorem deleteFiles_eq (m : MemoryIndex) (paths : List String) :
    paths.foldl deleteFile m =
      { m with
        files := paths.foldl Table.erase m.files
        outlines := paths.foldl Table.erase m.outlines
        metas := paths.foldl Table.erase m.metas } := by
  induction paths generalizing m with
  | nil => rfl
  | cons path paths ih => exact ih (m.deleteFile path)

/-- What a pass leaves beside the files. -/
theorem commit_parts (m : MemoryIndex) (s : Snapshot) :
    (m.commit s).symbols = s.symbols ∧ (m.commit s).graph = s.graph ∧
      (m.commit s).notes = m.notes.insert lastIndexedKey (.int s.indexedAt) := by
  rw [commit, deleteStale, deleteFiles_eq, setFiles_eq]
  exact ⟨rfl, rfl, rfl⟩

/-- What a pass found is recorded, if no two records share a path. -/
theorem get?_commit {s : Snapshot} {r : FileRecord} (m : MemoryIndex)
    (single : (s.files.map (·.path)).Nodup) (member : r ∈ s.files) :
    (m.commit s).files.get? r.path = some r := by
  have paths : (s.files.map fun r => (r.path, r)).map (·.1) = s.files.map (·.path) := List.map_map
  rw [commit, setFiles_eq]
  exact Table.get?_inserts_of_mem (paths ▸ single) (List.mem_map.mpr ⟨r, member, rfl⟩)

/-- An index in memory keeps what it is given. -/
theorem kept_answer (m : MemoryIndex) (c : IndexCall) :
    c.Kept m.files.get? (m.answer c).1 (m.answer c).2.files.get? := by
  cases c with
  | file => exact ⟨rfl, rfl⟩
  | setFile r => exact m.setFile_files r
  | deleteFile n => exact m.deleteFile_files n
  | commit s => exact fun n r => get?_of_commit
  | _ => rfl

end MemoryIndex

/-- Files and an index on which a program can be run; whoever else is asked says next to nothing. -/
structure Bench where
  files : FileTree
  index : MemoryIndex

namespace Bench

def scene (b : Bench) : Scene := ⟨b.files, b.index.files.get?⟩

def answer (b : Bench) : (q : Ask) → q.Answer × Bench
  | .file c => ((b.files.answer 0 c).1, { b with files := (b.files.answer 0 c).2 })
  | .index c => ((b.index.answer c).1, { b with index := (b.index.answer c).2 })
  | .sessions _ => (.error default, b)
  | .turn .state => (.ready, b)
  | .turn (.move _) => (.ok (), b)
  | .turn .settle => (true, b)
  | .decide .. => (default, b)
  | .chat .. => (.cancelled, b)
  | .confirm _ | .cancelled => (false, b)
  | .process _ => (.timedOut, b)
  | .now => ((0 : Int), b)
  | .newId => ("", b)
  | .forgive _ | .abort | .tell _ | .progress _ => ((), b)

def run : Act α → Bench → α × Bench
  | .done a, b => (a, b)
  | .ask q next, b => run (next (b.answer q).1) (b.answer q).2

def heard : Act α → Bench → List Heard
  | .done _, _ => []
  | .ask q next, b => ⟨q, (b.answer q).1⟩ :: heard (next (b.answer q).1) (b.answer q).2

theorem trace_run (p : Act α) (b : Bench) : Act.Trace p (heard p b) (run p b).1 := by
  induction p generalizing b with
  | done a => exact .done a
  | ask q next ih => exact .ask q next _ (ih _ _)

theorem along_run (p : Act α) (b : Bench) : Along b.scene (heard p b) (run p b).2.scene := by
  induction p generalizing b with
  | done a => exact along_nil.mpr rfl
  | ask q next ih =>
    have onward := ih (b.answer q).1 (b.answer q).2
    cases q with
    | file c => exact along_file.mpr ⟨0, rfl, onward⟩
    | index c => exact along_index.mpr ⟨_, b.index.kept_answer c, onward⟩
    | turn c => cases c <;> exact (along_other (by trivial)).mpr onward
    | _ => exact (along_other (by trivial)).mpr onward

end Bench

end CodeAgent
