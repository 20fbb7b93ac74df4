import CodeAgent.Proofs.Json.Restoring
import CodeAgent.Proofs.Outline.Siting
import CodeAgent.Proofs.Project.Indexed
import CodeAgent.Proofs.Tool.Scoping

/-! Where the two searches for a symbol agree.
One search reports the sites of the index, the other the lines that hold the symbol as a whole word; a site
is marked among these lines exactly when its own line is one of them. So it is when the name is written on
the line on which its construct starts, and starts and ends with word characters. -/
namespace CodeAgent

/-- In the world a program comes to the value and changes nothing. -/
def World.Yields {σ : Type} (o : Outside σ) (w : World σ) (p : Attempt α) (a : α) : Prop :=
  run o p.run w = (.ok a, w)

namespace World

variable {σ : Type} {o : Outside σ} {w : World σ}

theorem yields_bind {p : Attempt α} {f : α → Attempt β} {a : α} {b : β} (first : Yields o w p a)
    (second : Yields o w (f a) b) : Yields o w (p >>= f) b := by
  rw [Yields, ExceptT.run_bind, run_bind, first]
  exact second

theorem yields_ofOutcome {a : α} {r : Outcome α} (known : r = .ok a) : Yields o w (Tool.ofOutcome r) a := by
  rw [known]
  rfl

theorem yields_index {c : IndexCall} {value : c.Result} (same : (w.database.answer w.project c).2 = w.database)
    (answered : (w.database.answer w.project c).1 = .ok value) : Yields o w (Attempt.index c) value := by
  have asked : run o (Attempt.index c).run w =
      ((w.database.answer w.project c).1, { w with database := (w.database.answer w.project c).2 }) := rfl
  rw [Yields, asked, same, answered]

theorem yields_mapM {f : α → Attempt β} {g : α → β} {as : List α} (each : ∀ a ∈ as, Yields o w (f a) (g a)) :
    Yields o w (as.mapM f) (as.map g) := by
  induction as with
  | nil => rfl
  | cons a as ih =>
    rw [List.mapM_cons]
    exact yields_bind (each a List.mem_cons_self)
      (yields_bind (ih fun b member => each b (List.mem_cons_of_mem _ member)) rfl)

end World

/-- A line of the record holds the symbol as a whole word. -/
def FileRecord.HasWord (r : FileRecord) (symbol : String) (line : Nat) : Prop :=
  ∃ i text, i + 1 = line ∧ r.lines[i]? = some text ∧ Text.HoldsWord symbol.toList text.toList

instance (r : FileRecord) (symbol : String) : (line : Nat) → Decidable (r.HasWord symbol line)
  | 0 => isFalse (by rintro ⟨i, text, same, -⟩; cases same)
  | i + 1 => decidable_of_iff (∃ text ∈ r.lines[i]?, Text.HoldsWord symbol.toList text.toList)
      (by simp [FileRecord.HasWord])

namespace Tool

open World

/- What the answers say -/

/-- Among the entries of an answer there is one with these members. -/
def Lists (answer : Json) (key : String) (members : List (String × Json)) : Prop :=
  ∃ entries, answer.member? key = some (.arr entries) ∧
    ∃ e ∈ entries, ∀ m ∈ members, e.member? m.1 = some m.2

/-- A definition at the line is reported. -/
def Reports (answer : Json) (path : String) (line : Nat) : Prop :=
  Lists answer "definitions" [("path", .str path), ("line", .nat line)]

/-- The line is among the references, marked as a definition. -/
def Marks (answer : Json) (path : String) (line : Nat) : Prop :=
  Lists answer "references" [("path", .str path), ("line", .nat line), ("is_definition", .bool true)]

def Truncated (answer : Json) : Prop := answer.member? "truncated" = some (.bool true)

theorem lists_iff {α : Type} {answer : Json} {key : String} {members : List (String × Json)} {write : α → Json}
    {items : List α} (held : answer.member? key = some (.arr (items.map write))) :
    Lists answer key members ↔ ∃ a ∈ items, ∀ m ∈ members, (write a).member? m.1 = some m.2 := by
  simp only [Lists, held, Option.some.injEq, Json.arr.injEq, exists_eq_left', List.mem_map,
    exists_exists_and_eq_and]

theorem nat_inj {a b : Nat} : Json.nat a = .nat b ↔ a = b := by
  rw [Json.nat, Json.nat, Json.num.injEq, Number.int.injEq, Int.ofNat_inj]

variable {σ : Type} {o : Outside σ} {w : World σ} {s : Snapshot} {symbol : String} {sites : List Site}
  {files : List FileRecord} {path : String} {line : Nat}

theorem yields_indexedFiles (holds : w.database.Holds w.project s) (some : s.files ≠ []) :
    ∃ files, files.Perm s.files ∧ Yields o w indexedFiles files := by
  obtain ⟨files, answered, perm, -⟩ := holds.files
  refine ⟨files, perm, yields_bind (yields_index rfl answered) ?_⟩
  have kept : files.isEmpty = false := by
    rw [List.isEmpty_eq_false_iff]
    rintro rfl
    exact some perm.nil_eq.symm
  rw [kept]
  rfl

/- Definitions -/

/-- What is said of a site. -/
def describedSite (s : Snapshot) (site : Site) : Json :=
  Json.object [("path", .str site.path), ("line", .nat site.line), ("kind", .str site.kind.name),
    ("context", Json.ofOption (fun r => .str (siteContext r site.line)) (s.files.find? (·.path = site.path)))]

theorem yields_describeSite (holds : w.database.Holds w.project s) (site : Site) :
    Yields o w (describeSite site) (describedSite s site) :=
  yields_bind (yields_index rfl (holds.file site.path)) rfl

theorem describedSite_iff {site : Site} :
    (∀ m ∈ [("path", Json.str path), ("line", Json.nat line)], (describedSite s site).member? m.1 = some m.2) ↔
      site.path = path ∧ site.line = line := by
  have named : (describedSite s site).member? "path" = some (.str site.path) :=
    Json.member?_of_mem (by simp) (by simp)
  have placed : (describedSite s site).member? "line" = some (.nat site.line) :=
    Json.member?_of_mem (by simp) (by simp)
  simp [named, placed, nat_inj]

/-- What is said of the definitions of a symbol. -/
def definitionReport (s : Snapshot) (symbol : String) : Json :=
  match s.symbols.lookup symbol with
  | [] => Json.object [("symbol", .str symbol), ("found", .bool false), ("definitions", .arr []),
      ("suggestions", Json.ofStrings (suggestions s.symbols.names symbol))]
  | sites => Json.object [("symbol", .str symbol), ("found", .bool true),
      ("definitions", .arr (sites.map (describedSite s)))]

theorem reports_iff : Reports (definitionReport s symbol) path line ↔
    ∃ site ∈ s.symbols.lookup symbol, site.path = path ∧ site.line = line := by
  have held : (definitionReport s symbol).member? "definitions" =
      some (.arr ((s.symbols.lookup symbol).map (describedSite s))) := by
    rw [definitionReport]
    split
    · rename_i none
      rw [none]
      exact Json.member?_of_mem (by simp) (by simp)
    · exact Json.member?_of_mem (by simp) (by simp)
  rw [Reports, lists_iff held]
  simp only [describedSite_iff]

theorem run_body {p : Attempt ToolOutput} {output : ToolOutput} (yields : Yields o w p output) :
    World.run o (BodyEnd.ofOutcome <$> p.run) w = (.done output, w) := by
  rw [map_eq_pure_bind, World.run_bind, yields]
  rfl

theorem run_findDefinition {arguments : Json} (holds : w.database.Holds w.project s) (some : s.files ≠ [])
    (asked : symbolArgument arguments = .ok symbol) :
    World.run o (findDefinition.body arguments) w = (.done (.of (definitionReport s symbol)), w) := by
  obtain ⟨files, -, listed⟩ := yields_indexedFiles (o := o) holds some
  have symbols : Yields o w (Attempt.index .symbols) s.symbols := yields_index rfl holds.symbols
  refine run_body (yields_bind (yields_ofOutcome asked) (yields_bind listed (yields_bind symbols ?_)))
  rw [definitionReport]
  cases s.symbols.lookup symbol with
  | nil => rfl
  | cons site sites => exact yields_bind (yields_mapM fun site _ => yields_describeSite holds site) rfl

/- References -/

/-- The lines that hold a symbol, file by file. -/
def allReferences (s : Snapshot) (symbol : String) (files : List FileRecord) : List Reference :=
  (files.map (referencesIn symbol (s.symbols.lookup symbol))).flatten

/-- What is said of the references to a symbol. -/
def referenceReport (s : Snapshot) (symbol : String) (files : List FileRecord) : Json :=
  Json.object [("symbol", .str symbol), ("total", .nat (allReferences s symbol files).length),
    ("files", .nat ((files.map (referencesIn symbol (s.symbols.lookup symbol))).filter (!·.isEmpty)).length),
    ("references", .arr (((allReferences s symbol files).take maxReferences).map Reference.toJson)),
    ("truncated", .bool ((allReferences s symbol files).length > maxReferences))]

theorem mem_referencesIn {r : FileRecord} {found : Reference} : found ∈ referencesIn symbol sites r ↔
    ∃ i text offset, r.lines[i]? = some text ∧
      Text.wordOffset? symbol.toList none text.toList = some offset ∧
      found = ⟨r.path, i + 1, offset + 1, Text.trim text,
        sites.any fun s => s.path = r.path && s.line = i + 1⟩ := by
  simp only [referencesIn, List.mem_filterMap, List.mem_mapIdx, id]
  constructor
  · rintro ⟨_, ⟨i, inside, rfl⟩, held⟩
    obtain ⟨offset, word, rfl⟩ := Option.map_eq_some_iff.mp held
    exact ⟨i, _, offset, List.getElem?_eq_getElem inside, word, rfl⟩
  · rintro ⟨i, text, offset, place, word, rfl⟩
    obtain ⟨inside, rfl⟩ := List.getElem?_eq_some_iff.mp place
    exact ⟨_, ⟨i, inside, rfl⟩, by rw [word]; rfl⟩

theorem marked_iff :
    (∃ found ∈ allReferences s symbol files,
        found.path = path ∧ found.line = line ∧ found.isDefinition = true) ↔
      (∃ site ∈ s.symbols.lookup symbol, site.path = path ∧ site.line = line) ∧
        ∃ r ∈ files, r.path = path ∧ r.HasWord symbol line := by
  simp only [allReferences, List.mem_flatten, List.mem_map, exists_exists_and_eq_and, mem_referencesIn]
  constructor
  · rintro ⟨_, ⟨r, inside, i, text, offset, place, word, rfl⟩, rfl, rfl, marked⟩
    obtain ⟨site, listed, same⟩ := List.any_eq_true.mp marked
    simp only [Bool.and_eq_true, decide_eq_true_eq] at same
    exact ⟨⟨site, listed, same⟩, r, inside, rfl, i, text, rfl, place,
      Text.isSome_wordOffset.mp (Option.isSome_of_eq_some word)⟩
  · rintro ⟨⟨site, listed, here, there⟩, r, inside, rfl, i, text, rfl, place, word⟩
    obtain ⟨offset, word⟩ := Option.isSome_iff_exists.mp (Text.isSome_wordOffset.mpr word)
    refine ⟨_, ⟨r, inside, i, text, offset, place, word, rfl⟩, rfl, rfl, ?_⟩
    exact List.any_eq_true.mpr ⟨site, listed, by simp [here, there]⟩

theorem toJson_iff {r : Reference} :
    (∀ m ∈ [("path", Json.str path), ("line", Json.nat line), ("is_definition", Json.bool true)],
      r.toJson.member? m.1 = some m.2) ↔ r.path = path ∧ r.line = line ∧ r.isDefinition = true := by
  have named : r.toJson.member? "path" = some (.str r.path) := Json.member?_of_mem (by simp) (by simp)
  have placed : r.toJson.member? "line" = some (.nat r.line) := Json.member?_of_mem (by simp) (by simp)
  have flag : r.toJson.member? "is_definition" = some (.bool r.isDefinition) :=
    Json.member?_of_mem (by simp) (by simp)
  simp [named, placed, flag, nat_inj]

theorem truncated_iff :
    Truncated (referenceReport s symbol files) ↔ maxReferences < (allReferences s symbol files).length := by
  have flag : (referenceReport s symbol files).member? "truncated" =
      some (.bool ((allReferences s symbol files).length > maxReferences)) :=
    Json.member?_of_mem (by simp) (by simp)
  simp [Truncated, flag]

/-- Where there are few lines, all references are shown. -/
theorem not_truncated (few : (files.map (·.lines.length)).sum ≤ maxReferences) :
    ¬ Truncated (referenceReport s symbol files) := by
  have each (r : FileRecord) : (referencesIn symbol (s.symbols.lookup symbol) r).length ≤ r.lines.length :=
    Nat.le_trans (List.length_filterMap_le _ _) (Nat.le_of_eq List.length_mapIdx)
  have all : (allReferences s symbol files).length ≤ (files.map (·.lines.length)).sum := by
    rw [allReferences, List.length_flatten, List.map_map]
    exact List.sum_le_sum fun r _ => each r
  rw [truncated_iff, Nat.not_lt]
  exact Nat.le_trans all few

theorem marks_iff (whole : ¬ Truncated (referenceReport s symbol files)) :
    Marks (referenceReport s symbol files) path line ↔
      Reports (definitionReport s symbol) path line ∧ ∃ r ∈ files, r.path = path ∧ r.HasWord symbol line := by
  have held : (referenceReport s symbol files).member? "references" =
      some (.arr (((allReferences s symbol files).take maxReferences).map Reference.toJson)) :=
    Json.member?_of_mem (by simp) (by simp)
  have all : (allReferences s symbol files).take maxReferences = allReferences s symbol files := by
    rw [List.take_eq_self_iff, ← Nat.not_lt, ← truncated_iff]
    exact whole
  rw [all] at held
  rw [Marks, lists_iff held, reports_iff, ← marked_iff]
  simp only [toJson_iff]

theorem run_findReferences (root : String) {arguments : Json} (holds : w.database.Holds w.project s)
    (some : s.files ≠ []) (asked : symbolArgument arguments = .ok symbol)
    (everywhere : arguments.textArgument? "path" = none) :
    ∃ files, files.Perm s.files ∧ World.run o ((findReferences root).body arguments) w =
      (.done (.of (referenceReport s symbol files)), w) := by
  obtain ⟨files, perm, listed⟩ := yields_indexedFiles (o := o) holds some
  have symbols : Yields o w (Attempt.index .symbols) s.symbols := yields_index rfl holds.symbols
  have one : Survey.occurrences ∈ Survey.all := by simp [Survey.all]
  have body : (findReferences root).body arguments = Survey.occurrences.answer arguments fun _ => True :=
    body_of_scope (scope_of_none everywhere root) one fun _ => (iff_true_right rfl).mpr trivial
  refine ⟨Survey.byPath files, (List.mergeSort_perm _ _).trans perm, ?_⟩
  rw [body]
  have every : (Survey.byPath files).filter (fun _ => True) = Survey.byPath files := by simp
  refine run_body (yields_bind (yields_ofOutcome asked) (yields_bind listed ?_))
  rw [← every]
  exact yields_bind symbols rfl

/- Sites and the lines that they are at -/

open Outline in
/-- A site of the index is that of a construct in the file's text that the symbol names. -/
theorem sited_of_mem {records : List FileRecord} {goModule : Option String} {time : Int} {site : Site}
    (listed : site ∈ (Index.derive records goModule time).symbols.lookup symbol) :
    ∃ r ∈ records, ∃ l, r.path = site.path ∧ Language.ofPath? site.path = some l ∧
      Sited (.ofString r.content) ((reading l).tree r.content).root (symbol, site.line) := by
  obtain ⟨settled, held, either⟩ := Index.mem_lookup_symbols.mp listed
  have derived : (Index.derive records goModule time).outlines.get? site.path = some settled := held
  rw [Index.get?_derive_outlines] at derived
  obtain ⟨o, parsed, rfl⟩ := Option.map_eq_some_iff.mp derived
  obtain ⟨r, inside, l, named, known, rfl⟩ := Index.outline_of_outlines parsed
  refine ⟨r, inside, l, named, known, sited_reading l ?_⟩
  rcases either with item | ⟨-, shown⟩
  · exact Findings.mem_places_of_item item
  · exact Findings.mem_places_of_shown shown

open Outline Syntax in
/-- The construct at the line that says the symbol, and when this puts the symbol on the line. -/
def Explains (r : FileRecord) (symbol : String) (line : Nat) : Prop :=
  ∃ l d n, Language.ofPath? r.path = some l ∧ Stated ((reading l).tree r.content).root d ∧ Names d n ∧
    (Source.ofString r.content).text n = symbol ∧ d.line = line ∧
    (Apart r.content.toList n.span → n.span.row = d.span.row → Text.inWord symbol.toList.head? = true →
      Text.inWord symbol.toList.getLast? = true → r.HasWord symbol line)

/-- The two answers about a symbol, site by site. -/
structure Agree (s : Snapshot) (symbol : String) (found shown : Json) : Prop where
  reported (path : String) (line : Nat) : Reports found path line ↔
    ∃ site ∈ s.symbols.lookup symbol, site.path = path ∧ site.line = line
  explained (path : String) (line : Nat) : Reports found path line →
    ∃ r ∈ s.files, r.path = path ∧ Explains r symbol line
  /-- Of the sites those are marked whose line holds the symbol as a whole word, and no other lines. -/
  marked (path : String) (line : Nat) : ¬ Truncated shown →
    (Marks shown path line ↔ Reports found path line ∧ ∃ r ∈ s.files, r.path = path ∧ r.HasWord symbol line)
  complete : (s.files.map (·.lines.length)).sum ≤ maxReferences → ¬ Truncated shown

open Outline Syntax in
theorem explains_of_sited {r : FileRecord} {l : Language} {line : Nat} (whole : r.Whole)
    (known : Language.ofPath? r.path = some l)
    (sited : Sited (.ofString r.content) ((reading l).tree r.content).root (symbol, line)) :
    Explains r symbol line := by
  obtain ⟨d, n, stated, names, text, here⟩ := sited
  refine ⟨l, d, n, known, stated, names, text, here, fun apart row first last => ?_⟩
  obtain ⟨line, place, word⟩ := holds_name text apart first last
  have lines : r.lines = Text.lines r.content := congrArg FileRecord.lines whole
  exact ⟨n.span.row, line, by rw [row]; exact here, by rw [lines]; exact place, word⟩

/-- The searches in a world whose index is derived from the records. -/
theorem searches_agree {records : List FileRecord} {goModule : Option String} {time : Int} (root : String)
    {arguments : Json} (holds : w.database.Holds w.project (Index.derive records goModule time))
    (whole : ∀ r ∈ records, r.Whole) (asked : symbolArgument arguments = .ok symbol)
    (everywhere : arguments.textArgument? "path" = none)
    (indexed : symbol ∈ (Index.derive records goModule time).symbols.names) :
    ∃ found shown, World.run o (findDefinition.body arguments) w = (.done (.of found), w) ∧
      World.run o ((findReferences root).body arguments) w = (.done (.of shown), w) ∧
      Agree (Index.derive records goModule time) symbol found shown := by
  obtain ⟨site, first⟩ : ∃ site, site ∈ (Index.derive records goModule time).symbols.lookup symbol :=
    List.exists_mem_of_ne_nil _ (((Index.ordered_symbols _).sited symbol).mp indexed)
  obtain ⟨r, inside, -⟩ := sited_of_mem first
  have some : (Index.derive records goModule time).files ≠ [] := List.ne_nil_of_mem inside
  obtain ⟨files, perm, references⟩ := run_findReferences (o := o) root holds some asked everywhere
  refine ⟨_, _, run_findDefinition holds some asked, references,
    { reported := fun path line => reports_iff
      explained := fun path line reported => ?_
      marked := fun path line complete => ?_
      complete := fun few => not_truncated (by rwa [(perm.map _).sum_eq]) }⟩
  · obtain ⟨site, among, rfl, rfl⟩ := reports_iff.mp reported
    obtain ⟨r, inside, l, named, known, sited⟩ := sited_of_mem among
    exact ⟨r, inside, named, explains_of_sited (whole r inside) (named ▸ known) sited⟩
  · simp only [marks_iff complete, perm.mem_iff]

/-- After a pass, as long as the index holds what it found, both searches succeed for each symbol of the
index; and of the sites that are reported just those are marked whose line holds the symbol as a whole
word. -/
theorem sites_marked {σ : Type} (o : Outside σ) (w : World σ) (root : String) (settings : ProjectSettings)
    (extraIgnored : List String) {stats : IndexStats}
    (ended : (World.run o (Indexing.run root settings extraIgnored).run w).1 = .ok stats)
    (counted : ∀ files, Indexing.scanned w.files root settings extraIgnored = .ok files →
      ∀ f ∈ files, ∀ r, Indexing.recordOf? w.files f = some r → r.Counted) :
    ∃ files records goModule time, Indexing.scanned w.files root settings extraIgnored = .ok files ∧
      records = files.filterMap (Indexing.recordOf? w.files) ∧
      (World.run o (Indexing.run root settings extraIgnored).run w).2.database.Holds w.project
        (Index.derive records goModule time) ∧
      ∀ later : World σ, later.database.Holds later.project (Index.derive records goModule time) →
        ∀ arguments symbol, symbolArgument arguments = .ok symbol → arguments.textArgument? "path" = none →
        symbol ∈ (Index.derive records goModule time).symbols.names →
        ∃ found shown, World.run o (findDefinition.body arguments) later = (.done (.of found), later) ∧
          World.run o ((findReferences root).body arguments) later = (.done (.of shown), later) ∧
          Agree (Index.derive records goModule time) symbol found shown := by
  obtain ⟨files, goModule, time, scans, -, holds⟩ :=
    Indexing.run_derived o w settings extraIgnored ended counted
  refine ⟨files, _, goModule, time, scans, rfl, holds, ?_⟩
  exact fun later holds arguments symbol asked everywhere indexed =>
    searches_agree root holds Indexing.whole_of_mem asked everywhere indexed

/- A script whose name starts with a sign, and two functions of which one is decorated -/

def scriptText : String := "function $f() \x7b\x7d\n"

def pythonText : String := "@wrap\ndef p():\n    pass\ndef q():\n    pass\n"

def decorated : World Unit :=
  ⟨.ofFiles "/p" [("a.ts", scriptText.toUTF8), ("b.py", pythonText.toUTF8)] 0, .empty, "p", .ready, .new {}, ()⟩

def decoratedRecords : List FileRecord := [.ofContent "a.ts" scriptText 0, .ofContent "b.py" pythonText 0]

theorem scanned_decorated : Indexing.scanned decorated.files "/p" {} [] =
    .ok [⟨"a.ts", "/p/a.ts", 17⟩, ⟨"b.py", "/p/b.py", 42⟩] :=
  Indexing.scanned_plain (by decide +kernel) (by decide)

theorem records_of_scanned {files : List ScannedFile}
    (scans : Indexing.scanned decorated.files "/p" {} [] = .ok files) :
    files.filterMap (Indexing.recordOf? decorated.files) = decoratedRecords := by
  obtain rfl := Except.ok.inj (scanned_decorated.symm.trans scans)
  have script := Indexing.recordOf_eq (t := decorated.files) (f := ⟨"a.ts", "/p/a.ts", 17⟩) scriptText
    ⟨.file, 17, 0⟩ rfl (by cbv) rfl
  have python := Indexing.recordOf_eq (t := decorated.files) (f := ⟨"b.py", "/p/b.py", 42⟩) pythonText
    ⟨.file, 42, 0⟩ rfl (by cbv) rfl
  simp only [List.filterMap_cons, List.filterMap_nil, script, python, decoratedRecords]

theorem parsed_script : Outline.ofFile .typeScript scriptText =
    { Outline.empty "typescript" with functions := [⟨"$f", 1, 1, [], false, false⟩] } := by decide +kernel

theorem parsed_python : Outline.ofFile .python pythonText =
    { Outline.empty "python" with
      functions := [⟨"p", 1, 3, [], false, true⟩, ⟨"q", 4, 5, [], false, true⟩]
      exports := [⟨"p", 1, false⟩, ⟨"q", 4, false⟩] } := by decide +kernel

theorem counted_decorated (r : FileRecord) (inside : r ∈ decoratedRecords) : r.Counted := by
  simp only [decoratedRecords, List.mem_cons, List.not_mem_nil, or_false] at inside
  rcases inside with rfl | rfl
  · refine FileRecord.counted_ofContent (l := .typeScript) (by decide) (by decide) (by decide) rfl ?_
    rw [parsed_script]
    refine ⟨nofun, nofun, fun f inside => ?_, nofun, nofun, nofun⟩
    obtain rfl := List.mem_singleton.mp inside
    exact ⟨by decide, by decide⟩
  · refine FileRecord.counted_ofContent (l := .python) (by decide) (by decide) (by decide) rfl ?_
    rw [parsed_python]
    refine ⟨nofun, fun e inside => ?_, fun f inside => ?_, nofun, nofun, nofun⟩
    · rcases List.mem_pair.mp inside with rfl | rfl <;> decide
    · rcases List.mem_pair.mp inside with rfl | rfl <;> exact ⟨by decide, by decide⟩

theorem ended_decorated :
    ∃ stats, (World.run Indexing.silence (Indexing.run "/p" {} []).run decorated).1 = .ok stats :=
  Indexing.run_ends Indexing.silence decorated {} [] scanned_decorated
    (by rw [records_of_scanned scanned_decorated]; decide)

theorem counted_scanned (files : List ScannedFile)
    (scans : Indexing.scanned decorated.files "/p" {} [] = .ok files) (f : ScannedFile) (among : f ∈ files)
    (r : FileRecord) (made : Indexing.recordOf? decorated.files f = some r) : r.Counted :=
  counted_decorated r (records_of_scanned scans ▸ List.mem_filterMap.mpr ⟨f, among, made⟩)

/-- The three functions are in the index, each at the line on which it starts. -/
theorem sites_decorated (goModule : Option String) (time : Int) :
    ⟨"a.ts", 1, .function⟩ ∈ (Index.derive decoratedRecords goModule time).symbols.lookup "$f" ∧
    ⟨"b.py", 1, .function⟩ ∈ (Index.derive decoratedRecords goModule time).symbols.lookup "p" ∧
    ⟨"b.py", 4, .function⟩ ∈ (Index.derive decoratedRecords goModule time).symbols.lookup "q" := by
  have single : (decoratedRecords.map (·.path)).Nodup := by decide
  have script : FileRecord.ofContent "a.ts" scriptText 0 ∈ decoratedRecords := List.mem_cons_self
  have python : FileRecord.ofContent "b.py" pythonText 0 ∈ decoratedRecords :=
    List.mem_cons_of_mem _ List.mem_cons_self
  refine ⟨Index.mem_lookup_derive (l := .typeScript) single script rfl ?_,
    Index.mem_lookup_derive (l := .python) single python rfl ?_,
    Index.mem_lookup_derive (l := .python) single python rfl ?_⟩
  · rw [FileRecord.content_ofContent, parsed_script]
    exact .function (f := ⟨"$f", 1, 1, [], false, false⟩) (by decide)
  · rw [FileRecord.content_ofContent, parsed_python]
    exact .function (f := ⟨"p", 1, 3, [], false, true⟩) (by decide)
  · rw [FileRecord.content_ofContent, parsed_python]
    exact .function (f := ⟨"q", 4, 5, [], false, true⟩) (by decide)

theorem names_of_site {records : List FileRecord} {goModule : Option String} {time : Int} {site : Site}
    (listed : site ∈ (Index.derive records goModule time).symbols.lookup symbol) :
    symbol ∈ (Index.derive records goModule time).symbols.names :=
  ((Index.ordered_symbols _).sited symbol).mpr (List.ne_nil_of_mem listed)

theorem few_lines : (decoratedRecords.map (·.lines.length)).sum ≤ maxReferences := by decide

/-- The world after a pass over the two files. -/
def afterPass : World Unit := (World.run Indexing.silence (Indexing.run "/p" {} []).run decorated).2

theorem holds_afterPass {s : Snapshot}
    (holds : (World.run Indexing.silence (Indexing.run "/p" {} []).run decorated).2.database.Holds
      decorated.project s) : afterPass.database.Holds afterPass.project s := by
  rw [afterPass, World.project_run]
  exact holds

/-- What the searches for a symbol come to then. -/
def Answered (symbol : String) (found shown : Json) : Prop :=
  World.run Indexing.silence (findDefinition.body (.obj [("symbol", .str symbol)])) afterPass =
      (.done (.of found), afterPass) ∧
    World.run Indexing.silence ((findReferences "/p").body (.obj [("symbol", .str symbol)])) afterPass =
      (.done (.of shown), afterPass)

theorem sites_marked_decorated :
    (∃ stats, (World.run Indexing.silence (Indexing.run "/p" {} []).run decorated).1 = .ok stats) ∧
    (∀ files, Indexing.scanned decorated.files "/p" {} [] = .ok files →
      ∀ f ∈ files, ∀ r, Indexing.recordOf? decorated.files f = some r → r.Counted) ∧
    ∃ found shown, Answered "q" found shown ∧ Reports found "b.py" 4 ∧ ¬ Truncated shown ∧
      Marks shown "b.py" 4 := by
  obtain ⟨stats, ended⟩ := ended_decorated
  obtain ⟨files, records, goModule, time, scans, rfl, holds, searched⟩ :=
    sites_marked Indexing.silence decorated "/p" {} [] ended counted_scanned
  rw [records_of_scanned scans] at holds searched
  obtain ⟨-, -, listed⟩ := sites_decorated goModule time
  obtain ⟨found, shown, definitions, references, agree⟩ := searched afterPass (holds_afterPass holds)
    (.obj [("symbol", .str "q")]) "q" rfl rfl (names_of_site listed)
  have reported := (agree.reported "b.py" 4).mpr ⟨_, listed, rfl, rfl⟩
  have complete : ¬ Truncated shown := agree.complete few_lines
  refine ⟨⟨stats, ended⟩, counted_scanned, found, shown, ⟨definitions, references⟩, reported, complete, ?_⟩
  exact (agree.marked "b.py" 4 complete).mpr
    ⟨reported, .ofContent "b.py" pythonText 0, List.mem_cons_of_mem _ List.mem_cons_self, rfl, by decide⟩

/-- Neither a name that starts with a sign nor one behind a decorator is marked where it is defined. -/
theorem definitions_unmarked :
    (∃ stats, (World.run Indexing.silence (Indexing.run "/p" {} []).run decorated).1 = .ok stats) ∧
    (∃ found shown, Answered "$f" found shown ∧ Reports found "a.ts" 1 ∧ ¬ Truncated shown ∧
      ¬ Marks shown "a.ts" 1) ∧
    ∃ found shown, Answered "p" found shown ∧ Reports found "b.py" 1 ∧ ¬ Truncated shown ∧
      ¬ Marks shown "b.py" 1 := by
  obtain ⟨stats, ended⟩ := ended_decorated
  obtain ⟨files, goModule, time, scans, -, holds⟩ :=
    Indexing.run_derived Indexing.silence decorated {} [] ended counted_scanned
  rw [records_of_scanned scans] at holds
  obtain ⟨script, python, -⟩ := sites_decorated goModule time
  have whole (r : FileRecord) (inside : r ∈ decoratedRecords) : r.Whole := by
    rw [← records_of_scanned scans] at inside
    exact Indexing.whole_of_mem r inside
  have unmarked {symbol path : String} {line : Nat}
      (listed : ⟨path, line, .function⟩ ∈ (Index.derive decoratedRecords goModule time).symbols.lookup symbol)
      (asked : symbolArgument (.obj [("symbol", .str symbol)]) = .ok symbol)
      (without : ∀ r ∈ decoratedRecords, r.path = path → ¬ r.HasWord symbol line) :
      ∃ found shown, Answered symbol found shown ∧ Reports found path line ∧ ¬ Truncated shown ∧
        ¬ Marks shown path line := by
    obtain ⟨found, shown, definitions, references, agree⟩ := searches_agree (o := Indexing.silence)
      "/p" (holds_afterPass holds) whole asked rfl (names_of_site listed)
    have complete : ¬ Truncated shown := agree.complete few_lines
    refine ⟨found, shown, ⟨definitions, references⟩, (agree.reported path line).mpr ⟨_, listed, rfl, rfl⟩,
      complete, fun marks => ?_⟩
    obtain ⟨-, r, inside, same, word⟩ := (agree.marked path line complete).mp marks
    exact without r inside same word
  exact ⟨⟨stats, ended⟩, unmarked script rfl (by decide), unmarked python rfl (by decide)⟩

end Tool

end CodeAgent
