import CodeAgent.Project.Scan
import CodeAgent.Proofs.Project.Recording

/-! What a pass over a project records.
A pass looks at files until it hands its records over at once, and each of them is of a file that it
found below the root and read. -/
namespace CodeAgent

theorem Act.trace_mapM {f : α → Act β} {as : List α} {bs : List β} {l : List Heard}
    (run : Trace (as.mapM f) l bs) :
    ∀ b ∈ bs, ∃ a ∈ as, ∃ l', l' ⊆ l ∧ Trace (f a) l' b := by
  induction as generalizing l bs with
  | nil =>
    obtain ⟨-, rfl⟩ := trace_pure.mp run
    simp
  | cons a as ih =>
    rw [List.mapM_cons] at run
    obtain ⟨b, l₁, k, rfl, first, run₁⟩ := trace_bind.mp run
    obtain ⟨bs', l₂, l₃, rfl, rest, ending⟩ := trace_bind.mp run₁
    obtain ⟨rfl, rfl⟩ := trace_pure.mp ending
    intro x member
    rcases List.mem_cons.mp member with rfl | later
    · exact ⟨a, List.mem_cons_self, l₁, by simp, first⟩
    · obtain ⟨a', among, l', within, run'⟩ := ih rest x later
      exact ⟨a', List.mem_cons_of_mem _ among, l', fun h m => by simp [within m], run'⟩

theorem Path.isAbsolute_baseName (path : String) : isAbsolute (baseName path).toList = false := by
  have last : (Text.pieces '/' path.toList).getLastD [] ∈ Text.pieces '/' path.toList := by
    rw [List.getLastD_eq_getLast?, List.getLast?_eq_some_getLast (Text.pieces_ne_nil _ _)]
    exact List.getLast_mem _
  rw [baseName, String.toList_ofList]
  cases letters : (Text.pieces '/' path.toList).getLastD [] with
  | nil => rfl
  | cons c cs =>
    have plain := not_mem_of_pieces last
    rw [letters] at plain
    simpa [isAbsolute] using fun same : c = '/' => plain (by simp [same])

/-- A tree answers each look at files, whatever becomes of it in between. -/
def Answered (t : FileTree) (l : List Heard) : Prop :=
  ∀ c answer, (⟨.file c, answer⟩ : Heard) ∈ l → (Ask.file c).looks → ∃ now, answer = (t.answer now c).1

theorem Answered.mono {t : FileTree} {l l' : List Heard} (answered : Answered t l) (within : l' ⊆ l) :
    Answered t l' := fun c answer member => answered c answer (within member)

theorem Follows.answered {t t' : FileTree} {l : List Heard} (follows : Follows t l t')
    (peeks : ∀ h ∈ l, h.question.peeks) : Answered t l := by
  induction follows with
  | nil => simp [Answered]
  | @file t t' l now c rest ih =>
    have here : (Ask.file c).looks := peeks _ List.mem_cons_self
    have still : (t.answer now c).2 = t := by cases c <;> first | rfl | exact here.elim
    rw [still] at ih
    intro c' answer member looks
    rcases List.mem_cons.mp member with same | later
    · obtain ⟨same, heard⟩ := Heard.mk.inj same
      cases same
      exact ⟨now, eq_of_heq heard⟩
    · exact ih (fun h m => peeks h (List.mem_cons_of_mem _ m)) c' answer later looks
  | @other t t' h l elsewhere rest ih =>
    intro c answer member looks
    rcases List.mem_cons.mp member with same | later
    · rw [← same] at elsewhere
      exact absurd rfl (elsewhere c)
    · exact ih (fun h m => peeks h (List.mem_cons_of_mem _ m)) c answer later looks

theorem FileTree.list_names {t : FileTree} {path : String} {entries : List (String × FileKind)}
    (listed : t.list path = .ok entries) : ∀ e ∈ entries, Path.isAbsolute e.1.toList = false := by
  unfold FileTree.list at listed
  cases found : t.find path with
  | error e =>
    rw [found] at listed
    cases listed
  | ok there =>
    obtain ⟨p, e⟩ := there
    rw [found] at listed
    cases e with
    | file => cases listed
    | directory =>
      obtain rfl := Except.ok.inj listed
      intro x member
      obtain ⟨entry, -, named⟩ := List.mem_filterMap.mp member
      split at named
      · obtain rfl := Option.some.inj named
        exact Path.isAbsolute_baseName entry.1
      · cases named

namespace Scan

variable {t : FileTree} {root : String} {l : List Heard}

/-- Paths behind a directory lead where they lead behind its path below the root. -/
def Leads (root directory inside : String) : Prop :=
  ∀ n, Path.isAbsolute n.toList = false → Path.join directory n = Path.join root (Path.join inside n)

theorem leads_root (root : String) : Leads root root "" := by
  intro n relative
  simp [Path.join, relative]

theorem Leads.deeper {directory inside name : String} (leads : Leads root directory inside)
    (relative : Path.isAbsolute name.toList = false) :
    Leads root (Path.join directory name) (Path.join inside name) := by
  intro n below
  rw [Path.join_join relative below, leads _ (Path.isAbsolute_join relative below),
    Path.join_join relative below]

theorem located_walk {chain : List Ignore.DirectoryRules} {directory inside : String} {depth : Nat}
    {found : List ScannedFile} (leads : Leads root directory inside)
    (run : Act.Trace (walk chain directory inside depth) l found) (answered : Answered t l) :
    ∀ f ∈ found, f.absolute = Path.join root f.path := by
  induction depth generalizing chain directory inside l found with
  | zero =>
    obtain ⟨-, rfl⟩ := Act.trace_pure.mp run
    simp
  | succ depth ih =>
    rw [walk] at run
    obtain ⟨rules, l₁, k, rfl, -, run₁⟩ := Act.trace_bind.mp run
    obtain ⟨listed, l₂, k', rfl, asked, run₂⟩ := Act.trace_bind.mp run₁
    obtain rfl := Act.trace_file.mp asked
    cases listed with
    | error e =>
      obtain ⟨-, rfl⟩ := Act.trace_pure.mp run₂
      simp
    | ok entries =>
      obtain ⟨parts, l₃, l₄, rfl, each, ending⟩ := Act.trace_bind.mp run₂
      obtain ⟨rfl, rfl⟩ := Act.trace_pure.mp ending
      obtain ⟨now, known⟩ := answered (.list directory) (.ok entries) (by simp) trivial
      intro f member
      obtain ⟨part, among, member⟩ := List.mem_flatten.mp member
      obtain ⟨⟨name, kind⟩, entry, l', within, step⟩ := Act.trace_mapM each part among
      -- a name that began at the root would lead out of the directory
      have relative := FileTree.list_names known.symm _ entry
      dsimp only at step relative
      split at step
      · obtain ⟨-, rfl⟩ := Act.trace_pure.mp step
        simp at member
      · split at step
        · exact ih (leads.deeper relative) step
            (answered.mono fun h m => by simp [within m]) f member
        · split at step
          · obtain ⟨status, l₅, l₆, rfl, -, ended⟩ := Act.trace_bind.mp step
            cases status with
            | ok status =>
              obtain ⟨-, rfl⟩ := Act.trace_pure.mp ended
              obtain rfl := List.mem_singleton.mp member
              exact leads name relative
            | error e =>
              obtain ⟨-, rfl⟩ := Act.trace_pure.mp ended
              simp at member
          · obtain ⟨-, rfl⟩ := Act.trace_pure.mp step
            simp at member

/-- Every file of a pass is found below the root, under its path or, where that holds backslashes, under
the path that they stand for slashes in. -/
theorem located_project {ignored : List String} {maxSize : Nat} {files : List ScannedFile}
    (home : Tool.Home t root) (answered : Answered t l)
    (run : Act.Trace (project root ignored maxSize).run l (.ok files)) :
    ∀ f ∈ files, ∃ name, slashed name = f.path ∧ f.absolute = Path.join root name := by
  unfold project at run
  rcases Attempt.trace_bind.mp run with ⟨_, -, wrong⟩ | ⟨filter, l₁, l₂, rfl, -, run₁⟩
  · cases wrong
  obtain ⟨found, l₃, l₄, rfl, searched, ending⟩ := Attempt.trace_lift_bind.mp run₁
  obtain ⟨rfl, same⟩ := Attempt.trace_pure.mp ending
  obtain rfl := Except.ok.inj same
  have located : ∀ f ∈ found, f.absolute = Path.join root f.path := by
    obtain ⟨status, l₅, l₆, rfl, asked, rest⟩ := Act.trace_bind.mp searched
    obtain rfl := Act.trace_file.mp asked
    cases status with
    | error e =>
      obtain ⟨-, rfl⟩ := Act.trace_pure.mp rest
      simp
    | ok status =>
      obtain ⟨now, known⟩ := answered (.status root) (.ok status) (by simp) trivial
      have directory : status.kind = .directory := by
        have there := FileTree.find_eq.mpr
          ⟨home.placed, FileTree.entry_of_isDirectory home.directory⟩
        have answer : t.status root = .ok ⟨.directory, 0, 0⟩ := by
          rw [FileTree.status, there]
          rfl
        rw [FileTree.answer, answer] at known
        cases known
        rfl
      dsimp only at rest
      rw [if_pos directory] at rest
      obtain ⟨chain, l₇, l₈, rfl, -, walked⟩ := Act.trace_bind.mp rest
      exact located_walk (leads_root root) walked (answered.mono fun h m => by simp [m])
  intro f member
  obtain ⟨kept, -⟩ := List.mem_filter.mp (List.mem_mergeSort.mp member)
  obtain ⟨g, among, rfl⟩ := List.mem_map.mp kept
  exact ⟨g.path, rfl, located g among⟩

end Scan

namespace Text

theorem toUTF8_of_ofFileBytes {bytes : ByteArray} {text : String}
    (read : ofFileBytes? bytes = some text) : bytes = text.toUTF8 := by
  unfold ofFileBytes? at read
  split at read
  · cases read
  · exact (toUTF8_of_fromUTF8 read).symm

end Text

namespace Indexing

variable {t : FileTree} {root : String} {l : List Heard}

theorem trace_read {f : ScannedFile} {r : FileRecord} :
    Act.Trace (read? f) l (some r) ↔ ∃ text status, Text.ofFileBytes? (String.toUTF8 text) = some text ∧
      l = [⟨.file (.read f.absolute), .ok text.toUTF8⟩, ⟨.file (.status f.absolute), status⟩] ∧
      r = .ofContent f.path text (match status with
        | .ok status => status.modified
        | .error _ => 0) := by
  constructor
  · intro run
    obtain ⟨bytes, l₁, l₂, rfl, asked, rest⟩ := Act.trace_bind.mp run
    obtain rfl := Act.trace_file.mp asked
    cases bytes with
    | error e => cases (Act.trace_pure.mp rest).2
    | ok bytes =>
      dsimp only at rest
      split at rest
      · cases (Act.trace_pure.mp rest).2
      · rename_i text decoded
        obtain rfl := Text.toUTF8_of_ofFileBytes decoded
        obtain ⟨status, l₃, l₄, rfl, asked, ending⟩ := Act.trace_bind.mp rest
        obtain rfl := Act.trace_file.mp asked
        obtain ⟨rfl, same⟩ := Act.trace_pure.mp ending
        exact ⟨text, status, decoded, rfl, Option.some.inj same⟩
  · rintro ⟨text, status, decoded, rfl, rfl⟩
    refine Act.trace_bind.mpr ⟨.ok text.toUTF8, [_], [_], rfl, Act.trace_file.mpr rfl, ?_⟩
    dsimp only
    rw [decoded]
    exact Act.trace_bind.mpr ⟨status, [_], [], rfl, Act.trace_file.mpr rfl, Act.trace_pure.mpr ⟨rfl, rfl⟩⟩

theorem made_read {f : ScannedFile} {r : FileRecord} {name : String}
    (named : Scan.slashed name = f.path) (located : f.absolute = Path.join root name)
    (answered : Answered t l) (run : Act.Trace (read? f) l (some r)) : Made root t r := by
  obtain ⟨text, status, -, rfl, rfl⟩ := trace_read.mp run
  obtain ⟨now, known⟩ := answered (.read f.absolute) (.ok text.toUTF8) List.mem_cons_self trivial
  refine ⟨?_, name, Or.inr named, ?_⟩ <;> rw [FileRecord.content_ofContent]
  · rfl
  · rw [← located]
    exact known.symm

/-- All of a pass up to where its records are handed over, with the time when it began. -/
def gather (root : String) (settings : ProjectSettings) (extraIgnored : List String) :
    Attempt (Int × Snapshot) := do
  let started ← Act.now
  let scanned ← Scan.project root (settings.ignorePatterns ++ extraIgnored) settings.maxFileSize
  tellPart .scan scanned.length scanned.length
  let records := (← overEach .scan (·.path) read? scanned).filterMap id
  tellFiles .parse (records.filter fun r => (Language.ofPath? r.path).isSome)
  let goModule ← goModule? root
  tellFiles .analyze records
  tellPart .buildIndexes 0 2
  tellPart .buildIndexes 2 2
  tellPart .persist 0 1
  return (started, Index.derive records goModule (← Act.now))

theorem run_eq (root : String) (settings : ProjectSettings) (extraIgnored : List String) :
    run root settings extraIgnored = (do
      let (started, snapshot) ← gather root settings extraIgnored
      Attempt.index (.commit snapshot)
      tellPart .persist 1 1
      return .ofSnapshot snapshot ((← Act.now) - started).toNat) := by
  simp only [run, gather, bind_assoc, pure_bind]

section

open Act

variable {allowed : Ask → Prop} (files : ∀ c, (Ask.file c).looks → allowed (.file c))
  (told : ∀ step, allowed (.progress step)) (timed : allowed .now)

include told in
theorem within_progress (step : IndexProgress) : Within allowed (fun _ => True) (progress step) :=
  within_query (q := .progress step) (told step) fun _ => trivial

include told in
theorem within_overEach {phase : IndexPhase} {path : α → String} {step : α → Act β}
    (each : ∀ a, Within allowed (fun _ => True) (step a)) (items : List α) :
    Within allowed (fun _ => True) (overEach phase path step items) :=
  within_mapM (fun _ => within_next (within_progress told _) fun _ => each _) _

include told in
theorem within_tellFiles (phase : IndexPhase) (records : List FileRecord) :
    Within allowed (fun _ => True) (tellFiles phase records) := by
  rw [tellFiles, Functor.discard, LawfulFunctor.map_const]
  exact within_map (within_overEach told (fun _ => within_pure trivial) records)

include files in
theorem within_read (f : ScannedFile) : Within allowed (fun _ => True) (read? f) := by
  refine within_next (Files.within_file files trivial) fun bytes => ?_
  cases bytes with
  | error e => exact within_pure trivial
  | ok bytes =>
    dsimp only
    split
    · exact within_pure trivial
    · exact within_next (Files.within_file files trivial) fun status => within_pure trivial

include files in
theorem within_goModule (root : String) : Within allowed (fun _ => True) (goModule? root) := by
  refine within_next (Within.asks (Files.within_readText files _)) fun text => ?_
  cases text <;> exact within_pure trivial

include files told timed

/-- A pass looks at files, tells how far it is and notes the time, up to where it hands over. -/
theorem within_gather (root : String) (settings : ProjectSettings) (extraIgnored : List String) :
    Attempt.Within allowed (fun _ => True) (gather root settings extraIgnored) := by
  have now : Act.Within allowed (fun _ => True) Act.now :=
    Act.within_query (q := .now) timed fun _ => trivial
  refine Attempt.within_next (Attempt.within_lift now) fun started => ?_
  refine Attempt.within_next (Scan.within_project files ..) fun scanned => ?_
  refine Attempt.within_next (Attempt.within_lift (within_progress told _)) fun _ => ?_
  refine Attempt.within_next (Attempt.within_lift (within_overEach told (within_read files) _)) fun found => ?_
  refine Attempt.within_next (Attempt.within_lift (within_tellFiles told ..)) fun _ => ?_
  refine Attempt.within_next (Attempt.within_lift (within_goModule files root)) fun goModule => ?_
  refine Attempt.within_next (Attempt.within_lift (within_tellFiles told ..)) fun _ => ?_
  refine Attempt.within_next (Attempt.within_lift (within_progress told _)) fun _ => ?_
  refine Attempt.within_next (Attempt.within_lift (within_progress told _)) fun _ => ?_
  refine Attempt.within_next (Attempt.within_lift (within_progress told _)) fun _ => ?_
  exact Attempt.within_next (Attempt.within_lift now) fun time => Attempt.within_pure trivial

end

theorem peeks_gather (root : String) (settings : ProjectSettings) (extraIgnored : List String) :
    Attempt.Within Ask.peeks (fun _ => True) (gather root settings extraIgnored) :=
  within_gather Ask.peeks_of_looks (fun _ => trivial) trivial root settings extraIgnored

/-- Unless the scan fails, what is handed over was derived from the files that it found and that could be
read. -/
theorem trace_gather {settings : ProjectSettings} {extraIgnored : List String}
    {r : Outcome (Int × Snapshot)} (run : Act.Trace (gather root settings extraIgnored).run l r) :
    ∃ scanned l₁, l₁ ⊆ l ∧
      Act.Trace (Scan.project root (settings.ignorePatterns ++ extraIgnored) settings.maxFileSize).run l₁
        scanned ∧
      match scanned with
      | .error f => r = .error f
      | .ok files => ∃ found started goModule time l₂, l₂ ⊆ l ∧
        Act.Trace (overEach .scan (·.path) read? files) l₂ found ∧
        r = .ok (started, Index.derive (found.filterMap id) goModule time) := by
  obtain ⟨started, l₁, k₁, rfl, -, run₁⟩ := Attempt.trace_lift_bind.mp run
  rcases Attempt.trace_bind.mp run₁ with ⟨f, failed, rfl⟩ | ⟨files, l₂, k₂, rfl, projected, run₂⟩
  · exact ⟨.error f, k₁, fun h m => by simp [m], failed, rfl⟩
  obtain ⟨_, l₃, k₃, rfl, -, run₃⟩ := Attempt.trace_lift_bind.mp run₂
  obtain ⟨found, l₄, k₄, rfl, each, run₄⟩ := Attempt.trace_lift_bind.mp run₃
  obtain ⟨_, l₅, k₅, rfl, -, run₅⟩ := Attempt.trace_lift_bind.mp run₄
  obtain ⟨goModule, l₆, k₆, rfl, -, run₆⟩ := Attempt.trace_lift_bind.mp run₅
  obtain ⟨_, l₇, k₇, rfl, -, run₇⟩ := Attempt.trace_lift_bind.mp run₆
  obtain ⟨_, l₈, k₈, rfl, -, run₈⟩ := Attempt.trace_lift_bind.mp run₇
  obtain ⟨_, l₉, k₉, rfl, -, run₉⟩ := Attempt.trace_lift_bind.mp run₈
  obtain ⟨_, l₀, k₀, rfl, -, run₀⟩ := Attempt.trace_lift_bind.mp run₉
  obtain ⟨time, _, _, rfl, -, ending⟩ := Attempt.trace_lift_bind.mp run₀
  obtain ⟨-, rfl⟩ := Attempt.trace_pure.mp ending
  exact ⟨.ok files, l₂, fun h m => by simp [m], projected, found, started, goModule, time, l₄,
    fun h m => by simp [m], each, rfl⟩

/-- Each record was read in a part of the run. -/
theorem read_of_gather {settings : ProjectSettings} {extraIgnored : List String} {started : Int}
    {snapshot : Snapshot} (run : Act.Trace (gather root settings extraIgnored).run l (.ok (started, snapshot))) :
    ∃ files l₁, l₁ ⊆ l ∧
      Act.Trace (Scan.project root (settings.ignorePatterns ++ extraIgnored) settings.maxFileSize).run l₁
        (.ok files) ∧
      ∀ r ∈ snapshot.files, ∃ f ∈ files, ∃ l₂, l₂ ⊆ l ∧ Act.Trace (read? f) l₂ (some r) := by
  obtain ⟨scanned, l₁, before, projected, rest⟩ := trace_gather run
  cases scanned with
  | error f => cases rest
  | ok files =>
    obtain ⟨found, _, goModule, time, l₂, after, each, same⟩ := rest
    cases same
    refine ⟨files, l₁, before, projected, fun r member => ?_⟩
    have recorded : some r ∈ found := by
      obtain ⟨found', among, same⟩ := List.mem_filterMap.mp member
      rwa [show found' = some r from same] at among
    obtain ⟨⟨f, i⟩, item, l', within, step⟩ := Act.trace_mapM each _ recorded
    obtain ⟨_, l₁', l₂', rfl, -, read⟩ := Act.trace_bind.mp step
    exact ⟨f, List.fst_mem_of_mem_zipIdx item, l₂',
      fun h m => after (within (List.mem_append_right l₁' m)), read⟩

theorem made_gather {settings : ProjectSettings} {extraIgnored : List String} {started : Int}
    {snapshot : Snapshot} (home : Tool.Home t root) (answered : Answered t l)
    (run : Act.Trace (gather root settings extraIgnored).run l (.ok (started, snapshot))) :
    ∀ r ∈ snapshot.files, Made root t r := by
  obtain ⟨files, l₁, before, projected, reads⟩ := read_of_gather run
  have located := Scan.located_project home (answered.mono before) projected
  intro r member
  -- all of the part that read the record was answered by the one tree
  obtain ⟨f, scanned, l₂, within, read⟩ := reads r member
  obtain ⟨name, named, located⟩ := located f scanned
  exact made_read named located (answered.mono within) read

/-- A pass leaves the files as they are, and what the index holds after it is held since before or was
made of them. -/
theorem renewed_run {settings : ProjectSettings} {extraIgnored : List String} {s s' : Scene}
    {r : Outcome IndexStats} (home : Tool.Home s.files root)
    (run : Act.Trace (run root settings extraIgnored).run l r) (along : Along s l s') :
    s'.files = s.files ∧ Renewed root s.files s.records s'.records := by
  rw [run_eq] at run
  have peeks := peeks_gather root settings extraIgnored
  rcases Attempt.trace_bind.mp run with ⟨f, gathered, rfl⟩ |
    ⟨⟨started, snapshot⟩, l₁, k, rfl, gathered, run₁⟩
  · obtain rfl := along.same (gathered.within peeks).1
    exact ⟨rfl, Renewed.refl root _ _⟩
  obtain ⟨m, along₁, along₂⟩ := along_append.mp along
  have asked := (gathered.within peeks).1
  obtain rfl := along₁.same asked
  have made := made_gather home (along₁.follows.answered asked) gathered
  rcases Attempt.trace_bind.mp run₁ with ⟨f, committed, rfl⟩ | ⟨_, l₂, l₃, rfl, committed, run₂⟩
  · obtain rfl := Attempt.trace_index.mp committed
    obtain ⟨rs, kept, rest⟩ := along_index.mp along₂
    obtain rfl := along_nil.mp rest
    exact ⟨rfl, kept.renewed made⟩
  · obtain rfl := Attempt.trace_index.mp committed
    obtain ⟨rs, kept, rest⟩ := along_index.mp along₂
    obtain ⟨_, l₄, l₅, rfl, told, run₃⟩ := Attempt.trace_lift_bind.mp run₂
    obtain ⟨time, l₆, l₇, rfl, clock, ending⟩ := Attempt.trace_lift_bind.mp run₃
    obtain rfl := Act.trace_query.mp told
    obtain rfl := Act.trace_now.mp clock
    obtain ⟨rfl, -⟩ := Attempt.trace_pure.mp ending
    obtain rfl := rest.same (by simp [Ask.peeks])
    exact ⟨rfl, kept.renewed made⟩

end Indexing

end CodeAgent
