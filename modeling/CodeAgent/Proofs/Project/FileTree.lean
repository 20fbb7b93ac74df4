import CodeAgent.Project.FileTree
import CodeAgent.Proofs.Path.Canonical
import CodeAgent.Proofs.Store.Tables
import Mathlib.Logic.Function.Basic

/-! Trees of files by what their files hold.
A canonical path stands for itself as long as the directories above it are there, and no operation
takes a directory away; so what one wrote another finds again. -/
namespace CodeAgent.FileTree

open CodeAgent.Path

/-- What a file holds, by its path. -/
def content? (t : FileTree) (path : String) : Option ByteArray :=
  match t.entry? path with
  | some (.file content _) => some content
  | _ => none

/-- Every file is found under its own path. -/
def Rooted (t : FileTree) : Prop := ∀ path b, t.content? path = some b → t.place path = .ok path

/-- The directories of a tree are directories of another. -/
def Keeps (t t' : FileTree) : Prop := ∀ path, t.isDirectory path = true → t'.isDirectory path = true

section

variable {t t' : FileTree} {names : List String}

theorem Keeps.refl (t : FileTree) : t.Keeps t := fun _ => id

theorem Keeps.trans {t'' : FileTree} (first : t.Keeps t') (second : t'.Keeps t'') : t.Keeps t'' :=
  fun path directory => second path (first path directory)

theorem entry_of_isDirectory {path : String} (directory : t.isDirectory path = true) :
    t.entry? path = some .directory := by
  unfold isDirectory at directory
  split at directory
  · assumption
  · cases directory

theorem entry_of_content {path : String} {b : ByteArray} (holds : t.content? path = some b) :
    ∃ modified, t.entry? path = some (.file b modified) := by
  unfold content? at holds
  split at holds
  · rename_i content modified entry
    obtain rfl := Option.some.inj holds
    exact ⟨modified, entry⟩
  · cases holds

/- Places -/

/-- What it takes for names to lead somewhere: directories to go through, and short names. -/
def Leads (t : FileTree) (dirs names : List String) : Prop :=
  ∀ pre n post, names = pre ++ n :: post →
    t.isDirectory (absolute (dirs ++ pre)) = true ∧ n.utf8ByteSize ≤ maxName

theorem leads_cons {dirs : List String} {n : String} :
    t.Leads dirs (n :: names) ↔
      (t.isDirectory (absolute dirs) = true ∧ n.utf8ByteSize ≤ maxName) ∧
        t.Leads (dirs ++ [n]) names := by
  constructor
  · intro leads
    refine ⟨by simpa using leads [] n names rfl, ?_⟩
    rintro pre m post rfl
    simpa using leads (n :: pre) m post rfl
  · rintro ⟨first, later⟩ pre m post same
    cases pre with
    | nil =>
      obtain ⟨rfl, -⟩ := List.cons.inj same
      simpa using first
    | cons p pre =>
      obtain ⟨rfl, rfl⟩ := List.cons.inj same
      simpa using later pre m post rfl

theorem Leads.keeps {dirs : List String} (leads : t.Leads dirs names) (keeps : t.Keeps t') :
    t'.Leads dirs names := fun pre n post same =>
  ⟨keeps _ (leads pre n post same).1, (leads pre n post same).2⟩

theorem step_eq {dirs : List String} {n p : String} (above : ∀ x ∈ dirs, Named x) (named : Named n) :
    t.step (absolute dirs) n = .ok p ↔
      (t.isDirectory (absolute dirs) = true ∧ n.utf8ByteSize ≤ maxName) ∧ p = absolute (dirs ++ [n]) := by
  have joined : join (absolute dirs) n = absolute (dirs ++ [n]) := by
    have behind := @join_absolute [n] dirs above (by simpa using named) (by simp)
    rwa [slashed_singleton] at behind
  unfold step
  split
  · rename_i missing
    simp_all
  · rename_i directory
    split
    · rename_i long
      constructor
      · rintro ⟨⟩
      · rintro ⟨⟨-, short⟩, -⟩
        omega
    · rename_i short
      rw [joined]
      constructor
      · rintro ⟨⟩
        exact ⟨⟨by simpa using directory, by omega⟩, rfl⟩
      · rintro ⟨-, rfl⟩
        rfl

theorem follow_names {dirs : List String} {p : String} (above : ∀ n ∈ dirs, Named n)
    (named : ∀ n ∈ names, Named n) :
    t.follow (absolute dirs) (names.map Part.name) = .ok p ↔
      t.Leads dirs names ∧ p = absolute (dirs ++ names) := by
  induction names generalizing dirs with
  | nil =>
    simp only [List.map_nil, follow, List.append_nil]
    constructor
    · rintro ⟨⟩
      exact ⟨fun pre n post same => by simp at same, rfl⟩
    · rintro ⟨-, rfl⟩
      rfl
  | cons n names ih =>
    have first := named n List.mem_cons_self
    have later : ∀ x ∈ names, Named x := fun x member => named x (List.mem_cons_of_mem _ member)
    have above' : ∀ x ∈ dirs ++ [n], Named x := by
      intro x member
      rcases List.mem_append.mp member with outer | inner
      · exact above x outer
      · rw [List.mem_singleton.mp inner]
        exact first
    cases names with
    | nil =>
      simp only [List.map_cons, List.map_nil, follow]
      rw [step_eq above first, leads_cons]
      simp [Leads]
    | cons m names =>
      have rest := ih above' later
      rw [leads_cons]
      simp only [List.map_cons, follow] at rest ⊢
      cases stepped : t.step (absolute dirs) n with
      | error e =>
        constructor
        · rintro ⟨⟩
        · rintro ⟨⟨here, -⟩, -⟩
          have goes := (step_eq above first).mpr ⟨here, rfl⟩
          rw [stepped] at goes
          cases goes
      | ok next =>
        obtain ⟨here, rfl⟩ := (step_eq above first).mp stepped
        change (if (t.entry? (absolute (dirs ++ [n]))).isSome then _ else _) = _ ↔ _
        split
        · rw [rest]
          simp [here]
        · rename_i missing
          constructor
          · rintro ⟨⟩
          · rintro ⟨⟨-, onward⟩, -⟩
            have directory := (onward [] m names rfl).1
            rw [List.append_nil] at directory
            simp [entry_of_isDirectory directory] at missing

/-- A path that a file system takes at all. -/
def Fits (path : String) : Prop :=
  path.toList.contains '\x00' = false ∧ path.utf8ByteSize ≤ maxPath

/-- A canonical path stands for itself, when the directories above it are there. -/
theorem place_absolute {p : String} (named : ∀ n ∈ names, Named n) :
    t.place (absolute names) = .ok p ↔
      Fits (absolute names) ∧ t.Leads [] names ∧ p = absolute names := by
  have followed := @follow_names t names [] p (by simp) named
  unfold place
  split
  · rename_i zero
    constructor
    · rintro ⟨⟩
    · rintro ⟨⟨plain, -⟩, -⟩
      rw [plain] at zero
      cases zero
  · rename_i plain
    split
    · rename_i long
      constructor
      · rintro ⟨⟩
      · rintro ⟨⟨-, short⟩, -⟩
        omega
    · rename_i short
      rw [parts_absolute named]
      change t.follow "/" (names.map Part.name) = .ok p ↔ _
      have fits : Fits (absolute names) := ⟨by simpa using plain, by omega⟩
      rw [show "/" = absolute [] from rfl, followed]
      simp [fits]

theorem follow_of_place {path p : String} (placed : t.place path = .ok p) :
    t.follow "/" (parts path) = .ok p := by
  unfold place at placed
  split at placed
  · cases placed
  · split at placed
    · cases placed
    · exact placed

theorem eq_of_place {path p : String} (canonical : Canonical path) (placed : t.place path = .ok p) :
    p = path := by
  obtain ⟨names, named, rfl⟩ := canonical
  exact ((place_absolute named).mp placed).2.2

theorem place_keeps {path p : String} (canonical : Canonical path) (keeps : t.Keeps t')
    (placed : t.place path = .ok p) : t'.place path = .ok p := by
  obtain ⟨names, named, rfl⟩ := canonical
  obtain ⟨fits, leads, same⟩ := (place_absolute named).mp placed
  exact (place_absolute named).mpr ⟨fits, leads.keeps keeps, same⟩

/-- Whatever a path is followed to is canonical. -/
theorem canonical_of_follow {dir p : String} {ps : List Part} (canonical : Canonical dir)
    (named : ∀ s, .name s ∈ ps → Named s) (followed : t.follow dir ps = .ok p) : Canonical p := by
  induction ps generalizing dir with
  | nil =>
    obtain rfl := Except.ok.inj followed
    exact canonical
  | cons part ps ih =>
    have later : ∀ s, .name s ∈ ps → Named s := fun s member => named s (List.mem_cons_of_mem _ member)
    obtain ⟨dirs, above, rfl⟩ := canonical
    cases part with
    | root => exact ih ⟨[], by simp, rfl⟩ later followed
    | here => exact ih ⟨dirs, above, rfl⟩ later followed
    | up =>
      rw [follow] at followed
      split at followed
      · refine ih ?_ later followed
        split
        · exact ⟨[], by simp, rfl⟩
        · rename_i notTop
          cases dirs using List.reverseRecOn with
          | nil => exact absurd rfl notTop
          | append_singleton dirs d =>
            rw [parent_absolute above]
            exact ⟨dirs, fun n member => above n (List.mem_append_left _ member), rfl⟩
      · cases followed
    | name n =>
      have first := named n List.mem_cons_self
      have deeper : Canonical (absolute (dirs ++ [n])) := by
        refine ⟨dirs ++ [n], ?_, rfl⟩
        intro x member
        rcases List.mem_append.mp member with outer | inner
        · exact above x outer
        · rw [List.mem_singleton.mp inner]
          exact first
      cases ps with
      | nil =>
        obtain ⟨-, rfl⟩ := (step_eq above first).mp followed
        exact deeper
      | cons q ps =>
        rw [follow] at followed
        · cases stepped : t.step (absolute dirs) n with
          | error e =>
            rw [stepped] at followed
            cases followed
          | ok next =>
            rw [stepped] at followed
            obtain ⟨-, rfl⟩ := (step_eq above first).mp stepped
            change (if _ then _ else _) = _ at followed
            split at followed
            · exact ih deeper later followed
            · cases followed
        · simp

theorem canonical_of_place {path p : String} (placed : t.place path = .ok p) : Canonical p :=
  canonical_of_follow ⟨[], by simp, rfl⟩ (fun _ member => named_of_parts member)
    (follow_of_place placed)

/- Operations -/

theorem find_eq {path p : String} {e : FileEntry} :
    t.find path = .ok (p, e) ↔ t.place path = .ok p ∧ t.entry? p = some e := by
  unfold find
  cases t.place path with
  | error f => simp [Bind.bind, Except.bind]
  | ok q =>
    dsimp only [Bind.bind, Except.bind]
    cases entry : t.entry? q with
    | none =>
      constructor
      · rintro ⟨⟩
      · rintro ⟨same, there⟩
        obtain rfl := Except.ok.inj same
        simp [entry] at there
    | some e' =>
      constructor
      · rintro ⟨⟩
        exact ⟨rfl, entry⟩
      · rintro ⟨same, there⟩
        obtain rfl := Except.ok.inj same
        rw [entry] at there
        obtain rfl := Option.some.inj there
        rfl

theorem entry_put {p q : String} {e : FileEntry} (below : p ≠ "/") :
    entry? (t.put p e) q = if q = p then some e else t.entry? q := by
  unfold entry? put
  rw [Table.get?_insert]
  by_cases top : q = "/"
  · simp [top, Ne.symm below]
  · simp [top]

theorem not_top_of_file {p : String} (file : t.isDirectory p = false) : p ≠ "/" := by
  rintro rfl
  simp [isDirectory, entry?] at file

/-- What a file is written to holds what was written, and nothing else changes. -/
theorem content_write {p : String} {b : ByteArray} {now : Int} (file : t.isDirectory p = false) :
    (t.put p (.file b now)).content? = Function.update t.content? p (some b) ∧
      t.Keeps (t.put p (.file b now)) := by
  have put : ∀ q, entry? (t.put p (.file b now)) q = if q = p then some (.file b now) else t.entry? q :=
    fun q => entry_put (not_top_of_file file)
  constructor
  · funext q
    by_cases same : q = p
    · subst same
      simp [content?, put]
    · simp [content?, put, same]
  · intro q directory
    have other : q ≠ p := by
      rintro rfl
      rw [file] at directory
      cases directory
    rw [isDirectory, put, if_neg other]
    exact directory

theorem write_eq {path : String} {b : ByteArray} {now : Int} :
    t.write path b now = .ok t' ↔
      ∃ p, t.place path = .ok p ∧ t.isDirectory p = false ∧ t' = t.put p (.file b now) := by
  unfold write
  cases t.place path with
  | error f => simp [Bind.bind, Except.bind]
  | ok q =>
    change (if t.isDirectory q then _ else _) = _ ↔ _
    split
    · rename_i directory
      simp [directory]
    · rename_i file
      constructor
      · rintro ⟨⟩
        exact ⟨q, rfl, by simpa using file, rfl⟩
      · rintro ⟨p, same, -, rfl⟩
        obtain rfl := Except.ok.inj same
        rfl

theorem content_descend (t : FileTree) (dir : String) (names : List String) :
    (t.descend dir names).2.content? = t.content? ∧ t.Keeps (t.descend dir names).2 := by
  induction names generalizing t dir with
  | nil => exact ⟨rfl, .refl t⟩
  | cons n names ih =>
    rw [descend]
    split
    · exact ⟨rfl, .refl t⟩
    · rename_i next stepped
      split
      · exact ih t next
      · exact ⟨rfl, .refl t⟩
      · rename_i missing
        have below : next ≠ "/" := by
          rintro rfl
          simp [ entry?] at missing
        have put : ∀ q, entry? (t.put next .directory) q =
            if q = next then some .directory else t.entry? q := fun q => entry_put below
        obtain ⟨same, keeps⟩ := ih (t.put next .directory) next
        constructor
        · rw [same]
          funext q
          by_cases here : q = next
          · subst here
            simp [content?, put, missing]
          · simp [content?, put, here]
        · intro q directory
          apply keeps
          by_cases here : q = next
          · simp [isDirectory, put, here]
          · rw [isDirectory, put, if_neg here]
            exact directory

theorem content_tryDirs (t : FileTree) (path : String) :
    (t.tryDirs path).2.content? = t.content? ∧ t.Keeps (t.tryDirs path).2 := by
  unfold tryDirs
  split
  · exact ⟨rfl, .refl t⟩
  · split
    · exact ⟨rfl, .refl t⟩
    · exact content_descend t _ _

/-- The directory at the end of a path, or one that the path goes through. -/
def OnTheWay (path dir : String) : Prop :=
  ∃ names, names <+: (parts path).filterMap partName? ∧ dir = absolute names

theorem isDirectory_descend {dirs : List String} {q : String} (above : ∀ x ∈ dirs, Named x)
    (named : ∀ x ∈ names, Named x) (there : (t.descend (absolute dirs) names).2.isDirectory q = true) :
    t.isDirectory q = true ∨ ∃ pre, pre <+: names ∧ q = absolute (dirs ++ pre) := by
  induction names generalizing t dirs with
  | nil => exact Or.inl there
  | cons n names ih =>
    have first := named n List.mem_cons_self
    have above' : ∀ x ∈ dirs ++ [n], Named x := by
      intro x member
      rcases List.mem_append.mp member with outer | inner
      · exact above x outer
      · rw [List.mem_singleton.mp inner]
        exact first
    -- a directory made further down has the same names in front
    have deeper : ∀ {m : FileTree}, (m.descend (absolute (dirs ++ [n])) names).2.isDirectory q = true →
        m.isDirectory q = true ∨ ∃ pre, pre <+: n :: names ∧ q = absolute (dirs ++ pre) := by
      intro m there
      refine (ih above' (fun x member => named x (List.mem_cons_of_mem _ member)) there).imp id ?_
      rintro ⟨pre, front, rfl⟩
      exact ⟨n :: pre, List.cons_prefix_cons.mpr ⟨rfl, front⟩, by simp⟩
    rw [descend] at there
    split at there
    · exact Or.inl there
    · rename_i next stepped
      obtain ⟨-, rfl⟩ := (step_eq above first).mp stepped
      split at there
      · exact deeper there
      · exact Or.inl there
      · rename_i missing
        have below : absolute (dirs ++ [n]) ≠ "/" := by
          intro top
          rw [top] at missing
          simp [ entry?] at missing
        refine (deeper there).elim (fun before => ?_) Or.inr
        rw [isDirectory, entry_put below] at before
        by_cases here : q = absolute (dirs ++ [n])
        · exact Or.inr ⟨[n], by simp, here⟩
        · rw [if_neg here] at before
          exact Or.inl before

/-- No directory is made but those that were asked for. -/
theorem isDirectory_tryDirs {path q : String} (there : (t.tryDirs path).2.isDirectory q = true) :
    t.isDirectory q = true ∨ OnTheWay path q := by
  unfold tryDirs at there
  split at there
  · exact Or.inl there
  · split at there
    · exact Or.inl there
    · refine (@isDirectory_descend t _ [] q (by simp) (fun x member => ?_) there).imp id ?_
      · obtain ⟨part, given, same⟩ := List.mem_filterMap.mp member
        cases part with
        | name s =>
          obtain rfl := Option.some.inj same
          exact named_of_parts given
        | _ => cases same
      · rintro ⟨pre, front, rfl⟩
        exact ⟨pre, front, rfl⟩

theorem descend_of_leads {dirs : List String} {n : String} (above : ∀ x ∈ dirs, Named x)
    (named : ∀ x ∈ names, Named x) (leads : t.Leads dirs (names ++ [n])) :
    t.descend (absolute dirs) names = (.ok (), t) := by
  induction names generalizing dirs with
  | nil => rfl
  | cons m names ih =>
    have first := named m List.mem_cons_self
    have above' : ∀ x ∈ dirs ++ [m], Named x := by
      intro x member
      rcases List.mem_append.mp member with outer | inner
      · exact above x outer
      · rw [List.mem_singleton.mp inner]
        exact first
    obtain ⟨here, onward⟩ := leads_cons.mp leads
    have directory : t.isDirectory (absolute (dirs ++ [m])) = true := by
      cases names with
      | nil => simpa using (onward [] n [] rfl).1
      | cons k names => simpa using (onward [] k (names ++ [n]) rfl).1
    rw [descend, (step_eq above first).mpr ⟨here, rfl⟩]
    dsimp only
    rw [entry_of_isDirectory directory]
    exact ih above' (fun x member => named x (List.mem_cons_of_mem _ member)) onward

theorem tryDirs_parent {n : String} (named : ∀ x ∈ names ++ [n], Named x)
    (placed : t.place (absolute (names ++ [n])) = .ok (absolute (names ++ [n]))) :
    t.tryDirs (parent (absolute (names ++ [n]))) = (.ok (), t) := by
  have outer : ∀ x ∈ names, Named x := fun x member => named x (List.mem_append_left _ member)
  obtain ⟨⟨plain, short⟩, leads, -⟩ := (place_absolute named).mp placed
  obtain ⟨tail, longer⟩ := absolute_concat outer (named n (by simp))
  rw [longer, String.toList_append] at plain
  rw [longer, String.utf8ByteSize_append] at short
  have plain' : (absolute names).toList.contains '\x00' = false := by
    simp only [List.contains_eq_mem, List.mem_append, decide_eq_false_iff_not, not_or] at plain ⊢
    exact plain.1
  have namesOnly : (parts (absolute names)).filterMap partName? = names := by
    have read : partName? ∘ Part.name = some := rfl
    rw [parts_absolute outer, List.filterMap_cons]
    simp [partName?, List.filterMap_map, read]
  rw [parent_absolute named, tryDirs, plain', namesOnly, if_neg Bool.false_ne_true,
    if_neg (by omega)]
  exact @descend_of_leads t names [] n (by simp) outer leads

/- Answers that change a tree -/

theorem content_answer_makeDirs (t : FileTree) (now : Int) (path : String) :
    (t.answer now (.makeDirs path)).2.content? = t.content? ∧
      t.Keeps (t.answer now (.makeDirs path)).2 := content_tryDirs t path

theorem answer_write (t : FileTree) (now : Int) (path content : String) :
    (∃ e, t.answer now (.write path content) = (.error e, t)) ∨
    ∃ p, t.place path = .ok p ∧ t.isDirectory p = false ∧
      t.answer now (.write path content) = (.ok (), t.put p (.file content.toUTF8 now)) := by
  rw [answer]
  cases wrote : t.write path content.toUTF8 now with
  | error e => exact Or.inl ⟨e, rfl⟩
  | ok t' =>
    obtain ⟨p, placed, file, rfl⟩ := write_eq.mp wrote
    exact Or.inr ⟨p, placed, file, rfl⟩

theorem isDirectory_put {p q : String} {b : ByteArray} {now : Int} (file : t.isDirectory p = false)
    (there : (t.put p (.file b now)).isDirectory q = true) : t.isDirectory q = true := by
  rw [isDirectory, entry_put (not_top_of_file file)] at there
  by_cases here : q = p
  · simp [here] at there
  · rwa [if_neg here] at there

/- Files under their own paths -/

theorem read_of_place {path : String} {b : ByteArray} (placed : t.place path = .ok path)
    (holds : t.content? path = some b) : t.read path = .ok b := by
  obtain ⟨modified, entry⟩ := entry_of_content holds
  rw [read, find_eq.mpr ⟨placed, entry⟩]
  rfl

section

variable {path : String} {b : ByteArray} (rooted : t.Rooted) (holds : t.content? path = some b)

include rooted holds

theorem find_of_content : ∃ modified, t.find path = .ok (path, .file b modified) := by
  obtain ⟨modified, entry⟩ := entry_of_content holds
  exact ⟨modified, find_eq.mpr ⟨rooted path b holds, entry⟩⟩

theorem read_of_content : t.read path = .ok b := read_of_place (rooted path b holds) holds

theorem status_of_content : ∃ modified, t.status path = .ok ⟨.file, b.size, modified⟩ := by
  obtain ⟨modified, found⟩ := find_of_content rooted holds
  rw [status, found]
  exact ⟨modified, rfl⟩

theorem remove_of_content :
    ∃ t', t.remove path = .ok t' ∧ t'.content? = Function.update t.content? path none ∧
      t.Keeps t' := by
  obtain ⟨modified, found⟩ := find_of_content rooted holds
  have entry := (find_eq.mp found).2
  have file : t.isDirectory path = false := by rw [isDirectory, entry]
  have erased : ∀ q, entry? ⟨t.entries.erase path⟩ q =
      if q = path then none else t.entry? q := by
    intro q
    unfold entry?
    rw [Table.get?_erase]
    by_cases top : q = "/"
    · simp [top, Ne.symm (not_top_of_file file)]
    · simp [top]
  refine ⟨⟨t.entries.erase path⟩, ?_, ?_, ?_⟩
  · rw [remove, found]
    rfl
  · funext q
    by_cases same : q = path
    · subst same
      simp [content?, erased]
    · simp [content?, erased, same]
  · intro q directory
    have other : q ≠ path := by
      rintro rfl
      rw [file] at directory
      cases directory
    rw [isDirectory, erased, if_neg other]
    exact directory

end

/-- Whether every entry is found under its own path. -/
def isRooted (t : FileTree) : Bool :=
  t.entries.entries.all fun e => t.place e.1 = .ok e.1

theorem rooted_of_isRooted (all : t.isRooted = true) : t.Rooted := by
  intro path b holds
  obtain ⟨modified, entry⟩ := entry_of_content holds
  unfold entry? at entry
  split at entry
  · cases entry
  · have member := Entries.mem_of_lookup entry
    simpa using List.all_eq_true.mp all _ member

/-- A tree stays rooted while directories stay and files come only where they are found. -/
theorem Rooted.of_keeps (rooted : t.Rooted) (keeps : t.Keeps t')
    (files : ∀ path b, t'.content? path = some b → t.content? path ≠ none ∨ t'.place path = .ok path) :
    t'.Rooted := by
  intro path b holds
  rcases files path b holds with before | found
  · obtain ⟨b', held⟩ := Option.ne_none_iff_exists'.mp before
    have placed := rooted path b' held
    exact place_keeps (canonical_of_place placed) keeps placed
  · exact found

end

end CodeAgent.FileTree
