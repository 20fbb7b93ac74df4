import CodeAgent.Proofs.Index.Derived
import CodeAgent.Proofs.Project.Scanning

/-! The index after a pass over a project.
A pass records the texts that the scan of the tree finds, derives all else from them and puts it in
the place of what was stored; so afterwards the index speaks of this tree and of nothing else. -/
namespace CodeAgent

/-- What a program that only looks at files gets from a tree. -/
def FileTree.look (t : FileTree) (p : Act α) : α := (Bench.run p ⟨t, .empty⟩).1

/-- Questions that only look at files. -/
def Ask.looksAtFiles (q : Ask) : Prop := ∃ c, q = .file c ∧ q.looks

theorem FileTree.look_ask {t : FileTree} {c : FileCall} {next : Except FileError c.Result → Act α}
    (looks : (Ask.file c).looks) (now : Int) :
    t.look (.ask (.file c) next) = t.look (next (t.answer now c).1) := by
  cases c <;> first | rfl | exact looks.elim

theorem FileTree.look_map (t : FileTree) (f : α → β) (p : Act α) : t.look (f <$> p) = f (t.look p) := by
  have apart (b : Bench) : Bench.run (f <$> p) b = (f (Bench.run p b).1, (Bench.run p b).2) := by
    induction p generalizing b with
    | done a => rfl
    | ask q next ih => exact ih _ _
  exact congrArg Prod.fst (apart _)

theorem Act.Trace.eq_look {t : FileTree} {p : Act α} {l : List Heard} {a : α} (run : Trace p l a)
    (answered : Answered t l) (looks : ∀ h ∈ l, h.question.looksAtFiles) : a = t.look p := by
  induction run with
  | done a => rfl
  | ask q next answer rest ih =>
    obtain ⟨c, asked, here⟩ := looks _ List.mem_cons_self
    have asked : q = .file c := asked
    subst asked
    obtain ⟨now, heard⟩ := answered c answer List.mem_cons_self here
    have later := ih (answered.mono (List.subset_cons_self _ _))
      fun h member => looks h (List.mem_cons_of_mem _ member)
    rw [t.look_ask here now, ← heard]
    exact later

namespace World

variable {σ : Type}

theorem run_bind (o : Outside σ) (p : Act α) (f : α → Act β) (w : World σ) :
    run o (p >>= f) w = run o (f (run o p w).1) (run o p w).2 := by
  induction p generalizing w with
  | done a => rfl
  | ask q next ih => exact ih _ _

/-- The name of the project stays. -/
theorem project_run (o : Outside σ) (p : Act α) (w : World σ) : (run o p w).2.project = w.project := by
  induction p generalizing w with
  | done a => rfl
  | ask q next ih =>
    rw [run_ask, ih]
    cases q with
    | turn c =>
      cases c with
      | move next =>
        simp only [answer, turn?]
        split <;> rfl
      | _ => rfl
    | _ => rfl

end World

theorem Act.trace_mapM_eq {f : α → Act β} {g : α → β} {as : List α} {bs : List β} {l : List Heard}
    (run : Trace (as.mapM f) l bs)
    (each : ∀ a ∈ as, ∀ b l', l' ⊆ l → Trace (f a) l' b → b = g a) : bs = as.map g := by
  induction as generalizing l bs with
  | nil =>
    obtain ⟨-, rfl⟩ := trace_pure.mp run
    rfl
  | cons a as ih =>
    rw [List.mapM_cons] at run
    obtain ⟨b, l₁, k, rfl, first, run₁⟩ := trace_bind.mp run
    obtain ⟨bs', l₂, l₃, rfl, rest, ending⟩ := trace_bind.mp run₁
    obtain ⟨rfl, rfl⟩ := trace_pure.mp ending
    rw [each a List.mem_cons_self b l₁ (by simp) first,
      ih rest fun a' among b' l' within => each a' (List.mem_cons_of_mem _ among) b' l'
        fun h m => by simp [within m]]
    rfl

/-- The files that are found below a root, before any is left out. -/
def Scan.search (root : String) : Act (List ScannedFile) := do
  match ← Act.file (.status root) with
  | .error _ => return []
  | .ok status =>
    if status.kind = .directory then
      let chain ← (above maxDepth root).mapM rulesOf
      walk chain root "" maxDepth
    else return [⟨"", root, status.size⟩]

namespace Indexing

variable {t : FileTree} {root : String} {l : List Heard}

/-- The record of a file that the scan found, unless it cannot be read or is no text. -/
def recordOf? (t : FileTree) (f : ScannedFile) : Option FileRecord :=
  match t.read f.absolute with
  | .error _ => none
  | .ok bytes => (Text.ofFileBytes? bytes).map fun content =>
    .ofContent f.path content (match t.status f.absolute with
      | .ok status => status.modified
      | .error _ => 0)

theorem whole_recordOf {f : ScannedFile} {r : FileRecord} (recorded : recordOf? t f = some r) :
    r.Whole := by
  rw [recordOf?] at recorded
  split at recorded
  · cases recorded
  · obtain ⟨content, -, rfl⟩ := Option.map_eq_some_iff.mp recorded
    exact FileRecord.whole_ofContent ..

theorem whole_of_mem {files : List ScannedFile} (r : FileRecord) (inside : r ∈ files.filterMap (recordOf? t)) :
    r.Whole := by
  obtain ⟨f, -, made⟩ := List.mem_filterMap.mp inside
  exact whole_recordOf made

theorem read_eq {f : ScannedFile} {found : Option FileRecord} (answered : Answered t l)
    (run : Act.Trace (read? f) l found) : found = recordOf? t f := by
  obtain ⟨bytes, l₁, l₂, rfl, asked, rest⟩ := Act.trace_bind.mp run
  obtain rfl := Act.trace_file.mp asked
  obtain ⟨now, known⟩ := answered (.read f.absolute) bytes (by simp) trivial
  have known : t.read f.absolute = bytes := known.symm
  rw [recordOf?, known]
  cases bytes with
  | error e => exact (Act.trace_pure.mp rest).2
  | ok bytes =>
    dsimp only at rest ⊢
    split at rest
    · rename_i none
      rw [none]
      exact (Act.trace_pure.mp rest).2
    · rename_i text decoded
      obtain ⟨status, l₃, l₄, rfl, asked, ending⟩ := Act.trace_bind.mp rest
      obtain rfl := Act.trace_file.mp asked
      obtain ⟨now, known⟩ := answered (.status f.absolute) status (by simp) trivial
      have known : t.status f.absolute = status := known.symm
      rw [decoded, known, Option.map_some]
      cases status <;> exact (Act.trace_pure.mp ending).2

theorem overEach_eq {phase : IndexPhase} {path : α → String} {step : α → Act β} {g : α → β}
    {items : List α} {results : List β} (run : Act.Trace (overEach phase path step items) l results)
    (each : ∀ a b l', l' ⊆ l → Act.Trace (step a) l' b → b = g a) : results = items.map g := by
  have paired := Act.trace_mapM_eq (g := fun p : α × Nat => g p.1) run fun p _ b l' within part => by
    obtain ⟨_, l₁, l₂, rfl, -, stepped⟩ := Act.trace_bind.mp part
    exact each p.1 b l₂ (fun h m => within (List.mem_append_right l₁ m)) stepped
  have apart : (fun p : α × Nat => g p.1) = g ∘ Prod.fst := rfl
  rw [paired, apart, ← List.map_map, List.zipIdx_map_fst]

/-- The files that a pass with these settings scans in a tree. -/
def scanned (t : FileTree) (root : String) (settings : ProjectSettings) (extraIgnored : List String) :
    Outcome (List ScannedFile) :=
  t.look (Scan.project root (settings.ignorePatterns ++ extraIgnored) settings.maxFileSize).run

theorem scanned_eq (settings : ProjectSettings) (extraIgnored : List String) :
    scanned t root settings extraIgnored =
      match Ignore.PathFilter.ofPatterns (settings.ignorePatterns ++ extraIgnored) with
      | .error f => .error f
      | .ok filter => .ok ((((t.look (Scan.search root)).map fun f => { f with path := Scan.slashed f.path }).filter
        fun f => !filter.ignores f.path && f.size ≤ settings.maxFileSize).mergeSort
          fun a b => a.path ≤ b.path) := by
  have lifted (p : Act (List ScannedFile)) (g : List ScannedFile → List ScannedFile) :
      (liftM p >>= fun found => pure (g found) : Attempt _).run = (fun found => .ok (g found)) <$> p := by
    rw [ExceptT.run_bind]
    change (Except.ok <$> p) >>= _ = _
    rw [bind_map_left]
    exact bind_pure_comp _ _
  rw [scanned, Scan.project]
  cases Ignore.PathFilter.ofPatterns (settings.ignorePatterns ++ extraIgnored) with
  | error f => rfl
  | ok filter => exact (congrArg t.look (lifted (Scan.search root) _)).trans (t.look_map _ _)

/-- What a pass gathers is derived from the records of the scanned files. -/
theorem gather_eq {settings : ProjectSettings} {extraIgnored : List String}
    {r : Outcome (Int × Snapshot)} (answered : Answered t l)
    (run : Act.Trace (gather root settings extraIgnored).run l r) :
    match scanned t root settings extraIgnored with
    | .error f => r = .error f
    | .ok files => ∃ started goModule time,
      r = .ok (started, Index.derive (files.filterMap (recordOf? t)) goModule time) := by
  obtain ⟨result, l₁, before, projected, rest⟩ := trace_gather run
  have looks : ∀ h ∈ l₁, h.question.looksAtFiles :=
    (projected.within (Scan.within_project (fun c looks => ⟨c, rfl, looks⟩) ..)).1
  have scans : result = scanned t root settings extraIgnored :=
    projected.eq_look (answered.mono before) looks
  rw [← scans]
  cases result with
  | error f => exact rest
  | ok files =>
    obtain ⟨found, started, goModule, time, l₂, after, each, same⟩ := rest
    have records := overEach_eq each fun f found' l' within =>
      read_eq (answered.mono fun h m => after (within m))
    refine ⟨started, goModule, time, ?_⟩
    rw [same, records, List.filterMap_map]
    rfl

section

variable {σ : Type} (o : Outside σ) (w : World σ)

/-- What a pass does with what it has gathered. -/
def handOver (started : Int) (snapshot : Snapshot) : Attempt IndexStats := do
  Attempt.index (.commit snapshot)
  tellPart .persist 1 1
  return .ofSnapshot snapshot ((← Act.now) - started).toNat

theorem run_eq_handOver (root : String) (settings : ProjectSettings) (extraIgnored : List String) :
    run root settings extraIgnored =
      gather root settings extraIgnored >>= fun gathered => handOver gathered.1 gathered.2 :=
  run_eq root settings extraIgnored

theorem run_handOver {started : Int} {s : Snapshot} {stats : IndexStats}
    (ended : (World.run o (handOver started s).run w).1 = .ok stats) :
    (s.files.map (·.path)).Nodup ∧ (∃ timeMs, stats = .ofSnapshot s timeMs) ∧
      (World.run o (handOver started s).run w).2.database = w.database.replaced w.project s := by
  have asked : World.run o (Attempt.index (.commit s)).run w =
      ((w.database.answer w.project (.commit s)).1,
        { w with database := (w.database.answer w.project (.commit s)).2 }) := rfl
  rw [handOver, ExceptT.run_bind, World.run_bind, asked, Database.answer, Database.commit_eq] at ended ⊢
  by_cases single : (s.files.map (·.path)).Nodup
  · rw [if_pos single] at ended ⊢
    exact ⟨single, ⟨_, (Except.ok.inj ended).symm⟩, rfl⟩
  · rw [if_neg single] at ended
    cases ended

theorem handOver_ends (started : Int) {s : Snapshot} (single : (s.files.map (·.path)).Nodup) :
    ∃ stats, (World.run o (handOver started s).run w).1 = .ok stats := by
  have asked : World.run o (Attempt.index (.commit s)).run w =
      ((w.database.answer w.project (.commit s)).1,
        { w with database := (w.database.answer w.project (.commit s)).2 }) := rfl
  rw [handOver, ExceptT.run_bind, World.run_bind, asked, Database.answer, Database.commit_eq, if_pos single]
  exact ⟨_, rfl⟩

variable (settings : ProjectSettings) (extraIgnored : List String)

/-- What a pass does in a world: it hands over what is derived from the scanned files. -/
theorem run_spec (root : String) :
    match scanned w.files root settings extraIgnored with
    | .error f => (World.run o (run root settings extraIgnored).run w).1 = .error f
    | .ok files => ∃ w' started goModule time, w'.project = w.project ∧
      World.run o (run root settings extraIgnored).run w = World.run o
        (handOver started (Index.derive (files.filterMap (recordOf? w.files)) goModule time)).run w' := by
  have gathering := World.trace_run o (gather root settings extraIgnored).run w
  have following := World.follows_run o (gather root settings extraIgnored).run w
  have named := World.project_run o (gather root settings extraIgnored).run w
  rw [run_eq_handOver, ExceptT.run_bind, World.run_bind]
  generalize World.run o (gather root settings extraIgnored).run w = gathered at *
  obtain ⟨result, w'⟩ := gathered
  have answered := following.answered (gathering.within (peeks_gather root settings extraIgnored)).1
  have spec := gather_eq answered gathering
  cases scans : scanned w.files root settings extraIgnored with
  | error f =>
    rw [scans] at spec
    obtain rfl : result = .error f := spec
    rfl
  | ok files =>
    rw [scans] at spec
    obtain ⟨started, goModule, time, same⟩ := spec
    obtain rfl : result = .ok _ := same
    exact ⟨w', started, goModule, time, named, rfl⟩

/-- A pass ends with statistics when the scan does and no two of the files have one path. -/
theorem run_ends {root : String} {files : List ScannedFile}
    (scans : scanned w.files root settings extraIgnored = .ok files)
    (single : ((files.filterMap (recordOf? w.files)).map (·.path)).Nodup) :
    ∃ stats, (World.run o (run root settings extraIgnored).run w).1 = .ok stats := by
  have spec := run_spec o w settings extraIgnored root
  rw [scans] at spec
  obtain ⟨w', started, goModule, time, -, same⟩ := spec
  rw [same]
  exact handOver_ends o w' started single

/-- After a pass that succeeds the index holds what is derived from the records of the scanned files. -/
theorem run_derived {root : String} {stats : IndexStats}
    (ended : (World.run o (run root settings extraIgnored).run w).1 = .ok stats)
    (counted : ∀ files, scanned w.files root settings extraIgnored = .ok files →
      ∀ f ∈ files, ∀ r, recordOf? w.files f = some r → r.Counted) :
    ∃ files goModule time, scanned w.files root settings extraIgnored = .ok files ∧
      (∃ timeMs, stats =
        .ofSnapshot (Index.derive (files.filterMap (recordOf? w.files)) goModule time) timeMs) ∧
      (World.run o (run root settings extraIgnored).run w).2.database.Holds w.project
        (Index.derive (files.filterMap (recordOf? w.files)) goModule time) := by
  have spec := run_spec o w settings extraIgnored root
  cases scans : scanned w.files root settings extraIgnored with
  | error f =>
    rw [scans] at spec
    cases spec.symm.trans ended
  | ok files =>
    rw [scans] at spec
    obtain ⟨w', started, goModule, time, named, same⟩ := spec
    rw [same] at ended ⊢
    obtain ⟨single, timed, held⟩ := run_handOver o w' ended
    have fits r (inside : r ∈ files.filterMap (recordOf? w.files)) : r.Counted := by
      obtain ⟨f, among, made⟩ := List.mem_filterMap.mp inside
      exact counted files scans f among r made
    refine ⟨files, goModule, time, rfl, timed, ?_⟩
    rw [held, named]
    exact Database.holds_replaced single (Index.derive_fits whole_of_mem fits)

/-- After a pass that succeeds the index holds the records of the scanned files and what follows from
them, whatever it held before. -/
theorem run_consistent (root : String) (stats : IndexStats)
    (ended : (World.run o (run root settings extraIgnored).run w).1 = .ok stats)
    (counted : ∀ files, scanned w.files root settings extraIgnored = .ok files →
      ∀ f ∈ files, ∀ r, recordOf? w.files f = some r → r.Counted) :
    ∃ files s, scanned w.files root settings extraIgnored = .ok files ∧
      s.files = files.filterMap (recordOf? w.files) ∧ s.Consistent stats ∧
      (World.run o (run root settings extraIgnored).run w).2.database.Holds w.project s := by
  obtain ⟨files, goModule, time, scans, ⟨timeMs, rfl⟩, held⟩ :=
    run_derived o w settings extraIgnored ended counted
  exact ⟨files, _, scans, rfl, Index.derive_consistent timeMs whole_of_mem, held⟩

end

/- A pass over a Go file and a text, in a project that was indexed before -/

/-- Nobody answers, and time stands still. -/
def silence : Outside Unit where
  chat := fun _ _ => pure .cancelled
  abort := pure ()
  confirm := fun _ => pure false
  cancelled := pure false
  process := fun _ => pure .timedOut
  now := pure 0
  newId := pure ""
  tell := fun _ => pure ()
  progress := fun _ => pure ()

def goProject : World Unit :=
  ⟨.ofFiles "/p" [("a.go", "func f() \x7b\n\x7d".toUTF8), ("b.txt", "x".toUTF8)] 0, .onceIndexed, "p", .ready,
    .new {}, ()⟩

/-- With nothing to ignore, all files that are not too large are scanned. -/
theorem scanned_plain {t : FileTree} {root : String} {files : List ScannedFile}
    (left : ((t.look (Scan.search root)).map fun f => { f with path := Scan.slashed f.path }).filter
      (fun f => !(⟨[]⟩ : Ignore.PathFilter).ignores f.path &&
        f.size ≤ ({} : ProjectSettings).maxFileSize) = files)
    (ordered : files.Pairwise fun a b => decide (a.path ≤ b.path) = true) :
    scanned t root {} [] = .ok files := by
  have patterns : Ignore.PathFilter.ofPatterns (({} : ProjectSettings).ignorePatterns ++ []) = .ok ⟨[]⟩ := rfl
  rw [scanned_eq, patterns]
  dsimp only
  rw [left]
  exact congrArg Except.ok (List.mergeSort_of_pairwise ordered)

theorem scanned_goProject :
    scanned goProject.files "/p" {} [] = .ok [⟨"a.go", "/p/a.go", 12⟩, ⟨"b.txt", "/p/b.txt", 1⟩] :=
  scanned_plain (by decide +kernel) (by decide)

theorem recordOf_eq {f : ScannedFile} (content : String) (status : FileStatus)
    (read : t.read f.absolute = .ok content.toUTF8)
    (text : Text.ofFileBytes? content.toUTF8 = some content)
    (known : t.status f.absolute = .ok status) :
    recordOf? t f = some (.ofContent f.path content status.modified) := by
  rw [recordOf?, read]
  dsimp only
  rw [text, known, Option.map_some]

theorem record_go :
    recordOf? goProject.files ⟨"a.go", "/p/a.go", 12⟩ = some (.ofContent "a.go" "func f() \x7b\n\x7d" 0) :=
  recordOf_eq "func f() \x7b\n\x7d" ⟨.file, 12, 0⟩ rfl (by cbv) rfl

theorem record_text :
    recordOf? goProject.files ⟨"b.txt", "/p/b.txt", 1⟩ = some (.ofContent "b.txt" "x" 0) :=
  recordOf_eq "x" ⟨.file, 1, 0⟩ rfl (by cbv) rfl

theorem counted_go : (FileRecord.ofContent "a.go" "func f() \x7b\n\x7d" 0).Counted := by
  have parsed : Outline.ofFile .go "func f() \x7b\n\x7d" =
      { Outline.empty "go" with functions := [⟨"f", 1, 2, [], false, false⟩] } := by decide +kernel
  refine FileRecord.counted_ofContent (l := .go) (by decide) (by decide) (by decide) rfl ?_
  rw [parsed]
  refine ⟨nofun, nofun, fun f inside => ?_, nofun, nofun, nofun⟩
  obtain rfl := List.mem_singleton.mp inside
  exact ⟨by decide, by decide⟩

theorem counted_text : (FileRecord.ofContent "b.txt" "x" 0).Counted where
  size := by decide
  notBefore := by decide
  notAfter := by decide
  outline l known := by
    have language : Language.ofPath? "b.txt" = none := rfl
    cases language.symm.trans known

theorem run_consistent_goProject :
    ∃ stats files s, scanned goProject.files "/p" {} [] = .ok files ∧ files.length = 2 ∧
      (World.run silence (run "/p" {} []).run goProject).1 = .ok stats ∧
      s.files = files.filterMap (recordOf? goProject.files) ∧ s.Consistent stats ∧
      (World.run silence (run "/p" {} []).run goProject).2.database.Holds "p" s := by
  have records : [⟨"a.go", "/p/a.go", 12⟩, ⟨"b.txt", "/p/b.txt", 1⟩].filterMap
      (recordOf? goProject.files) = [.ofContent "a.go" "func f() \x7b\n\x7d" 0, .ofContent "b.txt" "x" 0] := by
    simp [record_go, record_text]
  obtain ⟨stats, ended⟩ := run_ends silence goProject {} [] scanned_goProject
    (by rw [records]; decide)
  obtain ⟨files, s, scans, held⟩ := run_consistent silence goProject {} [] "/p" stats ended (by
    intro files scans f inside r recorded
    obtain rfl := Except.ok.inj (scanned_goProject.symm.trans scans)
    simp only [List.mem_cons, List.not_mem_nil, or_false] at inside
    rcases inside with rfl | rfl
    · obtain rfl := Option.some.inj (record_go.symm.trans recorded)
      exact counted_go
    · obtain rfl := Option.some.inj (record_text.symm.trans recorded)
      exact counted_text)
  obtain rfl := Except.ok.inj (scanned_goProject.symm.trans scans)
  exact ⟨stats, _, s, scans, rfl, ended, held⟩

end Indexing

end CodeAgent
