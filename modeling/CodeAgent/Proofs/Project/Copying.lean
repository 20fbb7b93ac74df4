import CodeAgent.Proofs.Project.Indexed
import CodeAgent.Proofs.Tool.FileTool
import CodeAgent.Proofs.Tool.Observing

/-! Records as copies of files.
The lines of a text and the text are two views of one thing. So a record holds the text that was read, its
digest and its size are those of that text, and it is the same whether a pass made it or a tool. -/
namespace CodeAgent

namespace Text

theorem lines_ne_nil (s : String) : lines s ≠ [] :=
  mt List.map_eq_nil_iff.mp (pieces_ne_nil '\n' s.toList)

theorem feed_not_mem {s line : String} (member : line ∈ lines s) : '\n' ∉ line.toList := by
  obtain ⟨p, piece, rfl⟩ := List.mem_map.mp member
  rw [String.toList_ofList]
  exact Path.not_mem_of_pieces piece

/-- Lines come back from their text. A text without lines does not exist, and a line has no line feed. -/
theorem lines_unlines {ls : List String} (some : ls ≠ []) (plain : ∀ line ∈ ls, '\n' ∉ line.toList) :
    lines (unlines ls) = ls := by
  have back : String.ofList ∘ String.toList = id := funext fun s => String.ofList_toList
  have free : ∀ p ∈ ls.map String.toList, '\n' ∉ p := by
    intro p member
    obtain ⟨line, inside, rfl⟩ := List.mem_map.mp member
    exact plain line inside
  rw [lines, unlines, splitOn, joinWith, String.toList_ofList,
    pieces_join (mt List.map_eq_nil_iff.mp some) free, List.map_map, back, List.map_id]

end Text

/-- What a record says of a file with this name and text, whenever that was written. -/
structure FileRecord.Copies (r : FileRecord) (path text : String) : Prop where
  named : r.path = path
  lined : r.lines = Text.lines text
  holds : r.content = text
  digest : r.hash = hashLines r.lines
  measured : r.size = r.content.utf8ByteSize

namespace FileRecord

variable {r r' : FileRecord} {path text : String}

theorem copies_ofContent (path text : String) (modified : Int) :
    (ofContent path text modified).Copies path text where
  named := rfl
  lined := rfl
  holds := content_ofContent ..
  digest := by
    change contentHash text = contentHash (Text.unlines (Text.lines text))
    rw [Text.unlines_lines]
  measured := by
    rw [content_ofContent]
    rfl

/-- Only the time is left open. -/
theorem Copies.eq (copies : r.Copies path text) : r = ofContent path text r.lastModified := by
  have digest := copies.digest
  have measured := copies.measured
  rw [copies.lined, hashLines, Text.unlines_lines] at digest
  rw [copies.holds] at measured
  cases r
  simp only [ofContent, mk.injEq, and_true]
  exact ⟨copies.named, copies.lined, digest, measured⟩

end FileRecord

/- The two ways to make a record -/

theorem Indexing.copies_read {f : ScannedFile} {l : List Heard} {r : FileRecord}
    (run : Act.Trace (read? f) l (some r)) :
    ∃ text : String, (⟨.file (.read f.absolute), .ok text.toUTF8⟩ : Heard) ∈ l ∧ r.Copies f.path text := by
  obtain ⟨text, status, -, rfl, rfl⟩ := trace_read.mp run
  exact ⟨text, List.mem_cons_self, FileRecord.copies_ofContent ..⟩

theorem Files.copies_load {path name : String} {l : List Heard} {r : FileRecord}
    (run : Act.Trace (loadRecord path name).run l (.ok r)) :
    ∃ text : String, (⟨.file (.read path), .ok text.toUTF8⟩ : Heard) ∈ l ∧ r.Copies name text := by
  obtain ⟨text, status, rfl, rfl⟩ := trace_loadRecord.mp run
  exact ⟨text, List.mem_cons_self, FileRecord.copies_ofContent ..⟩

section

variable {t : FileTree} {f : ScannedFile} {l l' : List Heard} {r : FileRecord}

/-- Of a file that a pass records a tool makes the same record. -/
theorem Files.load_of_read {result : Outcome FileRecord} (answered : Answered t l)
    (read : Act.Trace (Indexing.read? f) l (some r)) (answered' : Answered t l')
    (load : Act.Trace (loadRecord f.absolute f.path).run l' result) : result = .ok r := by
  obtain ⟨text, status, -, rfl, rfl⟩ := Indexing.trace_read.mp read
  obtain ⟨_, held⟩ := answered (.read f.absolute) (.ok text.toUTF8) (by simp) trivial
  obtain ⟨_, known⟩ := answered (.status f.absolute) status (by simp) trivial
  obtain ⟨modified, same⟩ := FileTree.status_of_read held.symm
  have looks : Attempt.Within Ask.looksAtFiles (fun _ => True) (loadRecord f.absolute f.path) :=
    within_loadRecord (fun c looks => ⟨c, rfl, looks⟩) ..
  cases known.trans same
  have again : Act.Trace (loadRecord f.absolute f.path).run
      [⟨.file (.read f.absolute), .ok text.toUTF8⟩,
        ⟨.file (.status f.absolute), .ok ⟨.file, text.toUTF8.size, modified⟩⟩]
      (.ok (.ofContent f.path text modified)) := trace_loadRecord.mpr ⟨text, _, rfl, rfl⟩
  rw [load.eq_look answered' (load.within looks).1]
  exact (again.eq_look answered (again.within looks).1).symm

/-- Of a file that a tool records a pass makes the same record, unless there is a zero near its front. -/
theorem Indexing.read_of_load {found : Option FileRecord} (answered : Answered t l)
    (read : Act.Trace (read? f) l found) (answered' : Answered t l')
    (load : Act.Trace (Files.loadRecord f.absolute f.path).run l' (.ok r)) :
    found = some r ∨ found = none ∧ 0 ∈ (r.content.toUTF8.extract 0 Text.sniffLength).toList := by
  obtain ⟨text, status, rfl, rfl⟩ := Files.trace_loadRecord.mp load
  obtain ⟨_, held⟩ := answered' (.read f.absolute) (.ok text.toUTF8) (by simp) trivial
  obtain ⟨_, known⟩ := answered' (.status f.absolute) (.ok status) (by simp) trivial
  have held : t.read f.absolute = .ok text.toUTF8 := held.symm
  have known : t.status f.absolute = .ok status := known.symm
  rw [read_eq answered read, recordOf?, held, known, FileRecord.content_ofContent]
  dsimp only
  rw [Text.ofFileBytes?, Text.fromUTF8_toUTF8]
  split
  · rename_i zero
    exact Or.inr ⟨rfl, List.contains_iff_mem.mp zero⟩
  · exact Or.inl rfl

end

/- What programs hand to the index -/

/-- Whatever a run hands to the index is a copy of a text that it read. -/
def HandsCopies (l : List Heard) : Prop :=
  ∀ h ∈ l, ∀ c, h.question = .index c → ∀ r ∈ c.offered, ∃ path text,
    (⟨.file (.read path), .ok (String.toUTF8 text)⟩ : Heard) ∈ l ∧ r.Copies r.path text

/-- A run that hands nothing to the index. -/
def Withholds (l : List Heard) : Prop := ∀ h ∈ l, ∀ c, h.question = .index c → c.offered = []

section

variable {l l' : List Heard} {root : String}

theorem withholds_of_peeks (peeks : ∀ h ∈ l, h.question.peeks) : Withholds l := by
  rintro ⟨q, answer⟩ member c rfl
  have peeks := peeks _ member
  cases c with
  | file => rfl
  | _ => exact peeks.elim

theorem withholds_of_unasked (unasked : ∀ h ∈ l, ∀ c, h.question ≠ .index c) : Withholds l :=
  fun h member c asked => (unasked h member c asked).elim

theorem handsCopies_nil : HandsCopies [] := by simp [HandsCopies]

theorem Withholds.hands (withholds : Withholds l) : HandsCopies l := by
  intro h member c asked r offered
  rw [withholds h member c asked] at offered
  cases offered

theorem HandsCopies.append (first : HandsCopies l) (second : HandsCopies l') : HandsCopies (l ++ l') := by
  intro h member c asked r offered
  rcases List.mem_append.mp member with before | after
  · obtain ⟨path, text, read, copies⟩ := first h before c asked r offered
    exact ⟨path, text, List.mem_append_left _ read, copies⟩
  · obtain ⟨path, text, read, copies⟩ := second h after c asked r offered
    exact ⟨path, text, List.mem_append_right _ read, copies⟩

theorem Withholds.append (first : Withholds l) (second : Withholds l') : Withholds (l ++ l') :=
  fun h member => (List.mem_append.mp member).elim (first h) (second h)

/-- What is handed over last was read before. -/
theorem handsCopies_offer {c : IndexCall} {answer : Outcome c.Result} (withholds : Withholds l)
    (copies : ∀ r ∈ c.offered, ∃ path text,
      (⟨.file (.read path), .ok (String.toUTF8 text)⟩ : Heard) ∈ l ∧ r.Copies r.path text) :
    HandsCopies (l ++ [⟨.index c, answer⟩]) := by
  intro h member c' asked r offered
  rcases List.mem_append.mp member with before | last
  · rw [withholds h before c' asked] at offered
    cases offered
  · obtain rfl := List.mem_singleton.mp last
    cases asked
    obtain ⟨path, text, read, copies⟩ := copies r offered
    exact ⟨path, text, List.mem_append_left _ read, copies⟩

theorem Files.withholds_load {path name : String} {r : Outcome FileRecord}
    (loaded : Act.Trace (loadRecord path name).run l r) : Withholds l :=
  withholds_of_peeks (loaded.within (within_loadRecord Ask.peeks_of_looks path name)).1

/-- A record is handed over as it was loaded. -/
theorem Files.handsCopies_load {path name : String} {r : FileRecord} {answer : Outcome Unit}
    (loaded : Act.Trace (loadRecord path name).run l (.ok r)) (withholds : Withholds l') (part : l ⊆ l') :
    HandsCopies (l' ++ [⟨.index (.setFile r), answer⟩]) := by
  refine handsCopies_offer (c := .setFile r) withholds fun r' offered => ?_
  obtain rfl := List.mem_singleton.mp offered
  obtain ⟨text, read, copies⟩ := copies_load loaded
  refine ⟨path, text, part read, ?_⟩
  rwa [copies.named]

theorem Tool.Recalling.withholds {path name : String} {current : FileRecord} {stored : Option FileRecord}
    (recalling : Recalling path name current stored l) : Withholds l := by
  cases recalling with
  | intro asked loaded recalled =>
    refine (withholds_of_peeks (asked.within (Files.within_kind Ask.peeks_of_looks path)).1).append ?_
    refine (Files.withholds_load loaded).append (withholds_of_peeks ?_)
    rw [Attempt.trace_index.mp recalled]
    simp [Ask.peeks]

theorem Tool.Recalling.handsCopies {path name : String} {current : FileRecord} {stored : Option FileRecord}
    {answer : Outcome Unit} (recalling : Recalling path name current stored l) :
    HandsCopies (l ++ [⟨.index (.setFile current), answer⟩]) := by
  have withholds := recalling.withholds
  cases recalling with
  | intro asked loaded recalled => exact Files.handsCopies_load loaded withholds (by simp)

theorem Indexing.handsCopies_run {settings : ProjectSettings} {extraIgnored : List String}
    {r : Outcome IndexStats} (run : Act.Trace (run root settings extraIgnored).run l r) : HandsCopies l := by
  rw [run_eq_handOver] at run
  have peeks := peeks_gather root settings extraIgnored
  rcases Attempt.trace_bind.mp run with ⟨f, gathered, rfl⟩ | ⟨⟨started, s⟩, l₁, l₂, rfl, gathered, given⟩
  · exact (withholds_of_peeks (gathered.within peeks).1).hands
  have withholds := withholds_of_peeks (gathered.within peeks).1
  have copies : ∀ r ∈ s.files, ∃ path text,
      (⟨.file (.read path), .ok (String.toUTF8 text)⟩ : Heard) ∈ l₁ ∧ r.Copies r.path text := by
    obtain ⟨files, _, -, -, reads⟩ := read_of_gather gathered
    intro r member
    obtain ⟨f, -, l', within, read⟩ := reads r member
    obtain ⟨text, heard, copies⟩ := copies_read read
    refine ⟨f.absolute, text, within heard, ?_⟩
    rwa [copies.named]
  rcases Attempt.trace_bind.mp given with ⟨f, committed, rfl⟩ | ⟨_, l₃, l₄, rfl, committed, rest⟩
  · obtain rfl := Attempt.trace_index.mp committed
    exact handsCopies_offer (c := .commit s) withholds copies
  · obtain rfl := Attempt.trace_index.mp committed
    rw [← List.append_assoc]
    refine (handsCopies_offer (c := .commit s) withholds copies).append (Withholds.hands ?_)
    obtain ⟨_, l₅, l₆, rfl, told, run₃⟩ := Attempt.trace_lift_bind.mp rest
    obtain ⟨time, l₇, l₈, rfl, clock, ending⟩ := Attempt.trace_lift_bind.mp run₃
    obtain rfl := Act.trace_query.mp told
    obtain rfl := Act.trace_now.mp clock
    obtain ⟨rfl, -⟩ := Attempt.trace_pure.mp ending
    exact withholds_of_peeks (by simp [Ask.peeks])

theorem Tool.handsCopies_observe {given : String} {r : Outcome FileRecord}
    (run : Act.Trace (observe root given).run l r) : HandsCopies l := by
  cases trace_observe run with
  | refused peeks => exact (withholds_of_peeks peeks).hands
  | known resolved recalling same => exact recalling.withholds.hands
  | given answer resolved recalling => exact recalling.handsCopies

theorem Tool.handsCopies_recordChange {absolute name content description : String}
    {previous : Option FileRecord} {r : Outcome (FileRecord × Change)}
    (run : Act.Trace (recordChange absolute name previous content description).run l r) :
    HandsCopies l := by
  cases trace_recordChange.mp run with
  | unread loaded => exact (Files.withholds_load loaded).hands
  | unrecorded f loaded =>
    exact Files.handsCopies_load loaded (Files.withholds_load loaded) (List.Subset.refl _)
  | @recorded l record id time loaded =>
    have rest : Withholds [⟨.newId, id⟩, ⟨.now, time⟩] := withholds_of_peeks (by simp [Ask.peeks])
    have handed : HandsCopies (l ++ [⟨.index (.setFile record), .ok ()⟩]) :=
      Files.handsCopies_load loaded (Files.withholds_load loaded) (List.Subset.refl _)
    have whole := handed.append rest.hands
    rwa [List.append_assoc] at whole

theorem Tool.ChangeRun.handsCopies {absolute name content description : String}
    {previous : Option FileRecord} {r : Outcome (FileRecord × Change)}
    (run : ChangeRun absolute name previous content description l r) : HandsCopies l := by
  cases run with
  | cancelled f => exact (withholds_of_peeks (by simp [Heard.polled, Ask.peeks])).hands
  | unwritten tried =>
    have polled : HandsCopies [.polled false] := (withholds_of_peeks (by simp [Heard.polled, Ask.peeks])).hands
    exact polled.append (withholds_of_unasked tried.unasked).hands
  | written recorded =>
    have wrote : HandsCopies [.polled false, ⟨.file (.makeDirs (Path.parent absolute)), .ok ()⟩,
        ⟨.file (.write absolute content), .ok ()⟩] :=
      (withholds_of_unasked (by simp [Heard.polled])).hands
    exact wrote.append (handsCopies_recordChange recorded)

/-- The tools that read or edit a file. -/
theorem FileTool.handsCopies (k : FileTool) {arguments : Json} {e : BodyEnd}
    (run : Act.Trace ((k.tool root).body arguments) l e) : HandsCopies l := by
  have planned {given : String} {l : List Heard} {r : Outcome (String × Option FileRecord)}
      (run : Act.Trace (Tool.unchanged? root given).run l r) : HandsCopies l :=
    (withholds_of_peeks (run.within (Tool.within_unchanged Ask.peeks_of_looks (fun _ => trivial) ..)).1).hands
  cases kind : k.edits with
  | false =>
    rcases trace_read kind run with ⟨rfl, -⟩ | ⟨given, r, -, observed, -⟩
    · exact handsCopies_nil
    · exact Tool.handsCopies_observe observed
  | true =>
    rcases trace_edit kind run with ⟨rfl, -⟩ | ⟨given, -, tried⟩
    · exact handsCopies_nil
    · cases tried with
      | refused looked => exact planned looked
      | unfit f looked => exact planned looked
      | changed looked drafted changed declares => exact (planned looked).append changed.handsCopies

theorem Undo.handsCopies_revert {path : String} {c : Change} {r : Outcome Unit}
    (run : Act.Trace (revert path c).run l r) : HandsCopies l := by
  unfold revert at run
  split at run
  · rcases Attempt.trace_bind.mp run with ⟨f, removed, rfl⟩ | ⟨_, l₁, l₂, rfl, removed, forgot⟩
    · exact (withholds_of_unasked (Files.unasked_call removed)).hands
    · obtain rfl := Attempt.trace_index.mp forgot
      exact handsCopies_offer (c := .deleteFile _) (withholds_of_unasked (Files.unasked_call removed))
        (by simp [IndexCall.offered])
  · rcases Attempt.trace_bind.mp run with ⟨f, wrote, rfl⟩ | ⟨_, l₁, k, rfl, wrote, run₁⟩
    · exact (withholds_of_unasked (Files.trace_writeText wrote).unasked).hands
    refine (withholds_of_unasked (Files.trace_writeText wrote).unasked).hands.append ?_
    rcases Attempt.trace_bind.mp run₁ with ⟨f, loaded, rfl⟩ | ⟨record, l₂, l₃, rfl, loaded, stored⟩
    · exact (Files.withholds_load loaded).hands
    · obtain rfl := Attempt.trace_index.mp stored
      exact Files.handsCopies_load loaded (Files.withholds_load loaded) (List.Subset.refl _)

theorem Undo.handsCopies_run {session : Session} {out : UndoReport × Session}
    (run : Act.Trace (run root session) l out) : HandsCopies l := by
  rcases trace_run run with idle | ⟨c, l₁, l₂, l₃, r, rfl, before, reverted, after⟩
  · exact (withholds_of_peeks idle).hands
  · exact ((withholds_of_peeks before).hands.append (handsCopies_revert reverted)).append
      (withholds_of_peeks after).hands

end

/-- Text and lines lead to each other, so a record that is made of a text holds this text, with its digest and
its size. A pass and a tool make the same record of the same text, but for the time; of a file as it is they
make the same one altogether. The index is handed no others. -/
theorem records_copy_files :
    (∀ text, Text.unlines (Text.lines text) = text ∧ Text.lines text ≠ [] ∧
      ∀ line ∈ Text.lines text, '\n' ∉ line.toList) ∧
    (∀ ls : List String, ls ≠ [] → (∀ line ∈ ls, '\n' ∉ line.toList) → Text.lines (Text.unlines ls) = ls) ∧
    (∀ path text modified, (FileRecord.ofContent path text modified).Copies path text) ∧
    (∀ (f : ScannedFile) (l : List Heard) (r : FileRecord), Act.Trace (Indexing.read? f) l (some r) →
      ∃ text : String, (⟨.file (.read f.absolute), .ok text.toUTF8⟩ : Heard) ∈ l ∧ r.Copies f.path text) ∧
    (∀ (path name : String) (l : List Heard) (r : FileRecord),
      Act.Trace (Files.loadRecord path name).run l (.ok r) →
      ∃ text : String, (⟨.file (.read path), .ok text.toUTF8⟩ : Heard) ∈ l ∧ r.Copies name text) ∧
    (∀ (r r' : FileRecord) (path text : String), r.Copies path text → r'.Copies path text →
      r' = { r with lastModified := r'.lastModified }) ∧
    (∀ (t : FileTree) (f : ScannedFile) (l l' : List Heard) (found : Option FileRecord)
      (result : Outcome FileRecord), Answered t l → Act.Trace (Indexing.read? f) l found →
      Answered t l' → Act.Trace (Files.loadRecord f.absolute f.path).run l' result →
      (∀ r, found = some r → result = .ok r) ∧
      ∀ r, result = .ok r →
        found = some r ∨ found = none ∧ 0 ∈ (r.content.toUTF8.extract 0 Text.sniffLength).toList) ∧
    (∀ root settings extraIgnored l r,
      Act.Trace (Indexing.run root settings extraIgnored).run l r → HandsCopies l) ∧
    (∀ root (k : FileTool) arguments l e, Act.Trace ((k.tool root).body arguments) l e → HandsCopies l) ∧
    ∀ root session l out, Act.Trace (Undo.run root session) l out → HandsCopies l := by
  refine ⟨fun text => ⟨Text.unlines_lines text, Text.lines_ne_nil text, fun _ => Text.feed_not_mem⟩,
    fun _ some plain => Text.lines_unlines some plain, FileRecord.copies_ofContent,
    fun _ _ _ => Indexing.copies_read, fun _ _ _ _ => Files.copies_load,
    fun r r' path text copies copies' => ?_, fun t f l l' found result answered read answered' load => ⟨?_, ?_⟩,
    fun _ _ _ _ _ => Indexing.handsCopies_run, fun _ k _ _ _ => k.handsCopies,
    fun _ _ _ _ => Undo.handsCopies_run⟩
  · rw [copies.eq, copies'.eq]
    rfl
  · rintro r rfl
    exact Files.load_of_read answered read answered' load
  · rintro r rfl
    exact Indexing.read_of_load answered read answered' load

/- A file that ends with a line break -/

namespace Ended

def bench : Bench := ⟨.ofFiles "/p" [("a.ts", "x\n".toUTF8)] 0, .empty⟩
def script : ScannedFile := ⟨"a.ts", "/p/a.ts", 2⟩
def record : FileRecord := .ofContent "a.ts" "x\n" 0

def passing : Act (Option FileRecord) := Indexing.read? script
def loading : Act (Outcome FileRecord) := (Files.loadRecord "/p/a.ts" "a.ts").run
def reading : Act BodyEnd := (FileTool.getLines.tool "/p").body (Json.object [("path", .str "a.ts")])

theorem answered_passing : Answered bench.files (Bench.heard passing bench) :=
  (Bench.along_run passing bench).follows.answered
    ((Bench.trace_run passing bench).within (Indexing.within_read Ask.peeks_of_looks script)).1

theorem answered_loading : Answered bench.files (Bench.heard loading bench) :=
  (Bench.along_run loading bench).follows.answered
    ((Bench.trace_run loading bench).within (Files.within_loadRecord Ask.peeks_of_looks ..)).1

theorem passed : (Bench.run passing bench).1 = some record := by decide +kernel

end Ended

open Ended in
theorem records_copy_files_ended :
    Text.lines (Text.unlines ["x", ""]) = ["x", ""] ∧
      (∃ text : String, (⟨.file (.read "/p/a.ts"), .ok text.toUTF8⟩ : Heard) ∈ Bench.heard passing bench ∧
        record.Copies "a.ts" text) ∧
      (∃ text : String, (⟨.file (.read "/p/a.ts"), .ok text.toUTF8⟩ : Heard) ∈ Bench.heard loading bench ∧
        record.Copies "a.ts" text) ∧
      FileRecord.ofContent "a.ts" "x\n" 5 = { record with lastModified := 5 } ∧
      (Bench.run passing bench).1 = some record ∧ (Bench.run loading bench).1 = .ok record ∧
      HandsCopies (Bench.heard (Indexing.run "/p" {} []).run bench) ∧
      HandsCopies (Bench.heard reading bench) ∧
      HandsCopies (Bench.heard (Undo.run "/p" (.new "p" "1" 0)) bench) := by
  obtain ⟨-, lines, made, read, load, timed, same, pass, tool, undo⟩ := records_copy_files
  have loaded : (Bench.run loading bench).1 = .ok record :=
    (same bench.files script _ _ _ _ answered_passing (Bench.trace_run passing bench)
      answered_loading (Bench.trace_run loading bench)).1 record passed
  refine ⟨lines ["x", ""] (by decide) (by decide), ?_, ?_, ?_, passed, loaded, ?_, ?_, ?_⟩
  · exact read script _ record (passed ▸ Bench.trace_run passing bench)
  · exact load "/p/a.ts" "a.ts" _ record (loaded ▸ Bench.trace_run loading bench)
  · exact timed record _ "a.ts" "x\n" (made "a.ts" "x\n" 0) (made "a.ts" "x\n" 5)
  · exact pass "/p" {} [] _ _ (Bench.trace_run _ bench)
  · exact tool "/p" .getLines _ _ _ (Bench.trace_run reading bench)
  · exact undo "/p" (.new "p" "1" 0) _ _ (Bench.trace_run _ bench)

end CodeAgent
