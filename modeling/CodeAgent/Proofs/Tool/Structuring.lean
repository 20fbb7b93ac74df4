import CodeAgent.Proofs.Project.Indexed
import CodeAgent.Proofs.Project.Listed
import CodeAgent.Proofs.Tool.Counting

/-! The tree that a tool shows of a project.
It counts every file that was scanned, and its lines account for each of them once. White space is cut off
behind the last line, though; so a last file whose name is nothing else is counted and not shown. -/
namespace CodeAgent

namespace Text

theorem mem_of_mem_pieces {sep c : Char} {cs p : List Char} (member : p ∈ pieces sep cs) (inside : c ∈ p) :
    c ∈ cs := by
  induction cs generalizing p with
  | nil =>
    obtain rfl := List.mem_singleton.mp member
    cases inside
  | cons c' rest ih =>
    rw [pieces] at member
    split at member
    · rcases List.mem_cons.mp member with rfl | later
      · cases inside
      · exact List.mem_cons_of_mem _ (ih later inside)
    · obtain ⟨first, more, shape⟩ := List.exists_cons_of_ne_nil (pieces_ne_nil sep rest)
      rw [shape] at member ih
      rcases List.mem_cons.mp member with rfl | later
      · rcases List.mem_cons.mp inside with rfl | deeper
        · exact List.mem_cons_self
        · exact List.mem_cons_of_mem _ (ih List.mem_cons_self deeper)
      · exact List.mem_cons_of_mem _ (ih (List.mem_cons_of_mem _ later) inside)

/-- Of a text only the end is cut off, as long as something of it stays. -/
theorem trimEndChars_append (front : List Char) {back : List Char} (some : trimEndChars back ≠ []) :
    trimEndChars (front ++ back) = front ++ trimEndChars back := by
  have kept : back.reverse.dropWhile isBlank ≠ [] := by
    intro none
    rw [trimEndChars, dropEndWhile, none] at some
    exact some rfl
  rw [trimEndChars, dropEndWhile, List.reverse_append, List.dropWhile_append,
    if_neg (by simpa using kept), List.reverse_append, List.reverse_reverse]
  rfl

theorem trimEndChars_join {sep : Char} (front : List (List Char)) {last : List Char}
    (some : trimEndChars last ≠ []) :
    trimEndChars (join sep (front ++ [last])) = join sep (front ++ [trimEndChars last]) ∧
      trimEndChars (join sep (front ++ [last])) ≠ [] := by
  induction front with
  | nil => exact ⟨rfl, some⟩
  | cons line front ih =>
    obtain ⟨same, kept⟩ := ih
    have behind (back : List Char) : join sep ((line :: front) ++ [back]) =
        (line ++ [sep]) ++ join sep (front ++ [back]) := by
      cases front <;> simp [join]
    have cut := trimEndChars_append (line ++ [sep]) kept
    rw [behind, behind, cut, same]
    exact ⟨rfl, List.append_ne_nil_of_left_ne_nil (by simp) _⟩

/-- Lines that end with more than white space are those of their text without the blanks at its end. -/
theorem lines_trimEnd_unlines {front : List String} {last : String}
    (whole : ∀ line ∈ front ++ [last], '\n' ∉ line.toList) (some : trimEnd last ≠ "") :
    lines (trimEnd (unlines (front ++ [last]))) = front ++ [trimEnd last] := by
  have some : trimEndChars last.toList ≠ [] := by
    intro none
    exact some (by rw [trimEnd, none])
  have cut : trimEndChars (join '\n' _) = _ := (trimEndChars_join (front.map String.toList) some).1
  have text : (trimEnd (unlines (front ++ [last]))).toList =
      join '\n' (front.map String.toList ++ [trimEndChars last.toList]) := by
    rw [trimEnd, unlines, joinWith, String.toList_ofList, String.toList_ofList, List.map_append]
    exact cut
  rw [lines, splitOn, text, pieces_join (by simp)]
  · simp [trimEnd, Function.comp_def]
  · intro p member
    rcases List.mem_append.mp member with before | final
    · obtain ⟨line, among, rfl⟩ := List.mem_map.mp before
      exact whole line (List.mem_append_left _ among)
    · obtain rfl := List.mem_singleton.mp final
      intro feed
      have inside : '\n' ∈ last.toList := by
        rw [trimEndChars, dropEndWhile, List.mem_reverse] at feed
        exact List.mem_reverse.mp ((List.dropWhile_sublist _).subset feed)
      exact whole last (by simp) inside

end Text

namespace Listing

/-- A line is broken only by a name that is. -/
theorem whole_line {paths : List String} {maxDepth : Nat} (some : 1 ≤ maxDepth)
    (whole : ∀ path ∈ paths, '\n' ∉ path.toList) :
    ∀ line ∈ (ofPaths paths).lines maxDepth, '\n' ∉ line.toList := by
  intro line member
  rw [lines_ofPaths] at member
  obtain ⟨r, among, rfl⟩ := List.mem_map.mp member
  obtain ⟨path, given, name⟩ := plain_name some among
  obtain ⟨piece, part, named⟩ := List.mem_map.mp name
  have plain : '\n' ∉ r.name.toList := by
    rw [← named, String.toList_ofList]
    exact fun feed => whole path given (Text.mem_of_mem_pieces part feed)
  have digits (n : Nat) : '\n' ∉ (toString n).toList := by
    intro feed
    rw [Nat.toString_eq_repr, Nat.repr, String.toList_ofList] at feed
    have digit := Nat.isDigit_of_mem_toDigits (by decide) (by decide) feed
    revert digit
    decide
  rw [Line.text]
  cases entry : r.entry with
  | file => simp [Row.line, entry, indent, plain]
  | opened => simp [Row.line, entry, indent, plain]
  | closed files => simpa [Row.line, entry, indent, plain] using digits files

end Listing

namespace Tool

open Attempt

section

variable (name : String) (files : List ScannedFile) (depth : Nat)

theorem member?_total : (treeReport name files depth).member? "total_files" = some (.nat files.length) := by
  simp [treeReport, Json.member?_object, Table.ofList, Table.get?_insert]

theorem member?_tree : (treeReport name files depth).member? "tree" =
    some (.str (Text.trimEnd (Text.unlines ((Listing.ofPaths (files.map (·.path))).lines depth)))) := by
  simp [treeReport, Json.member?_object, Table.ofList]

end

/-- What is shown was scanned below the directory that it is shown of. -/
theorem trace_getStructure {root : String} {arguments : Json} {l : List Heard} {o : ToolOutput}
    (run : Act.Trace ((getStructure root).body arguments) l (.done o)) :
    ∃ base files l₁ l₂, l = l₁ ++ l₂ ∧ Act.Trace (Scan.project base [] Json.maxWord).run l₂ (.ok files) ∧
      o = .of (treeReport (if (Path.relative root base).isEmpty then "." else Path.relative root base) files
        (max ((arguments.countArgument? "depth").getD defaultDepth) 1)) := by
  obtain ⟨_, ran, same⟩ := Act.trace_map.mp run
  obtain rfl := of_done same
  beta_reduce at ran
  extract_lets depth shown at ran
  obtain ⟨base, l₁, l₂, rfl, run₁⟩ :
      ∃ base l₁ l₂, l = l₁ ++ l₂ ∧ Act.Trace (shown base).run l₂ (.ok o) := by
    split at ran
    · rcases trace_bind.mp ran with ⟨_, -, wrong⟩ | ⟨base, l₁, l₂, same, -, rest⟩
      · cases wrong
      · exact ⟨base, l₁, l₂, same, rest⟩
    · exact ⟨root, [], l, rfl, ran⟩
  obtain ⟨kind, l₃, l₄, rfl, -, run₂⟩ := trace_lift_bind.mp run₁
  dsimp only at run₂
  split at run₂
  · rcases trace_bind.mp run₂ with ⟨_, -, wrong⟩ | ⟨_, _, _, -, thrown, -⟩
    · cases wrong
    · cases (trace_throw.mp thrown).2
  · rcases trace_bind.mp run₂ with ⟨_, -, wrong⟩ | ⟨files, l₅, l₆, rfl, scanned, ending⟩
    · cases wrong
    · obtain ⟨rfl, same⟩ := trace_pure.mp ending
      refine ⟨base, files, l₁ ++ l₃, l₅, ?_, scanned, Except.ok.inj same⟩
      rw [List.append_nil, List.append_assoc]

/-- Of any paths, down to any depth, the tree has a line for each file and each directory that is not too
deep, in its place, and each file that is too deep is counted by one directory. The tool shows these lines
and how many files there are; of the last line it shows what is in front of the blanks at its end. -/
theorem structure_accounts_for_files (root : String) (arguments : Json) :
    (∀ (paths : List String) (depth : Nat), 1 ≤ depth →
      Listing.Faithful (Listing.namesOf paths) depth (Listing.rows [] depth (Listing.ofPaths paths)) ∧
      (Listing.ofPaths paths).lines depth =
        (Listing.rows [] depth (Listing.ofPaths paths)).map (·.line.text) ∧
      Listing.readRows [] ((Listing.rows [] depth (Listing.ofPaths paths)).map Listing.Row.line) =
        Listing.rows [] depth (Listing.ofPaths paths) ∧
      ∀ r ∈ Listing.rows [] depth (Listing.ofPaths paths),
        '/' ∈ r.line.text.toList ↔ r.entry.isFile = false) ∧
    ∀ (l : List Heard) (o : ToolOutput), Act.Trace ((getStructure root).body arguments) l (.done o) →
      ∃ (base : String) (files : List ScannedFile) (l₁ l₂ : List Heard) (depth : Nat) (tree : String),
        l = l₁ ++ l₂ ∧ Act.Trace (Scan.project base [] Json.maxWord).run l₂ (.ok files) ∧
        depth = max ((arguments.countArgument? "depth").getD defaultDepth) 1 ∧
        o.data.member? "total_files" = some (.nat files.length) ∧
        o.data.member? "tree" = some (.str tree) ∧
        tree = Text.trimEnd (Text.unlines ((Listing.ofPaths (files.map (·.path))).lines depth)) ∧
        ∀ front last, (Listing.ofPaths (files.map (·.path))).lines depth = front ++ [last] →
          (∀ f ∈ files, '\n' ∉ f.path.toList) → Text.trimEnd last ≠ "" →
          Text.lines tree = front ++ [Text.trimEnd last] := by
  constructor
  · intro paths depth some
    exact ⟨Listing.faithful_ofPaths paths some, Listing.lines_ofPaths paths depth,
      Listing.readRows_rows (Listing.ofPaths paths), fun r => Listing.slash_text some⟩
  · intro l o run
    obtain ⟨base, files, l₁, l₂, same, scanned, rfl⟩ := trace_getStructure run
    have some := Nat.le_max_right ((arguments.countArgument? "depth").getD defaultDepth) 1
    generalize max ((arguments.countArgument? "depth").getD defaultDepth) 1 = depth at some run ⊢
    refine ⟨base, files, l₁, l₂, depth, _, same, scanned, rfl, ?_, ?_, rfl, ?_⟩
    · exact member?_total _ files depth
    · exact member?_tree _ files depth
    · intro front last lines whole shown
      have whole : ∀ path ∈ files.map (·.path), '\n' ∉ path.toList := by
        intro path member
        obtain ⟨f, among, rfl⟩ := List.mem_map.mp member
        exact whole f among
      have unbroken := Listing.whole_line some whole
      rw [lines] at unbroken ⊢
      exact Text.lines_trimEnd_unlines unbroken shown

/- Two projects -/

section

variable {root : String} {l : List Heard} {found : List ScannedFile}

/-- With nothing to leave out, what is found below a directory is scanned. -/
theorem trace_project (search : Act.Trace (Scan.search root) l found)
    (left : (found.map fun f => { f with path := Scan.slashed f.path }).filter
      (fun f => !(⟨[]⟩ : Ignore.PathFilter).ignores f.path && f.size ≤ Json.maxWord) = found)
    (ordered : found.Pairwise fun a b => decide (a.path ≤ b.path) = true) :
    Act.Trace (Scan.project root [] Json.maxWord).run l (.ok found) := by
  refine trace_bind.mpr (Or.inr ⟨⟨[]⟩, [], l, rfl, .done _, ?_⟩)
  refine trace_lift_bind.mpr ⟨found, l, [], (List.append_nil l).symm, search, ?_⟩
  refine trace_pure.mpr ⟨rfl, ?_⟩
  rw [left, List.mergeSort_of_pairwise ordered]

/-- The whole project is shown as it was scanned. -/
theorem trace_structure {status : FileStatus} (directory : status.kind = .directory)
    (scanned : Act.Trace (Scan.project root [] Json.maxWord).run l (.ok found)) :
    Act.Trace ((getStructure root).body (.obj [])) (⟨.file (.status root), .ok status⟩ :: l)
      (.done (.of (treeReport (if (Path.relative root root).isEmpty then "." else Path.relative root root)
        found defaultDepth))) := by
  refine Act.trace_map.mpr ⟨.ok _, ?_, rfl⟩
  refine trace_bind.mpr (Or.inr ⟨root, [], _, rfl, .done _, ?_⟩)
  refine trace_lift_bind.mpr ⟨some status.kind, [_], l, rfl, .ask _ _ _ (.done _), ?_⟩
  rw [directory]
  refine trace_bind.mpr (Or.inr ⟨found, l, [], (List.append_nil l).symm, scanned, .done _⟩)

theorem trace_search {t : FileTree} (finds : t.look (Scan.search root) = found) :
    ∃ l, Act.Trace (Scan.search root) l found := by
  have run := Bench.trace_run (Scan.search root) ⟨t, .empty⟩
  rw [FileTree.look] at finds
  rw [finds] at run
  exact ⟨_, run⟩

end

theorem structure_accounts_for_files_nested :
    Listing.Faithful [["a.ts"], ["src", "b.ts"], ["src", "lib", "c.ts"]] 2
        (Listing.rows [] 2 (Listing.ofPaths ["a.ts", "src/b.ts", "src/lib/c.ts"])) ∧
      (Listing.ofPaths ["a.ts", "src/b.ts", "src/lib/c.ts"]).lines 2 =
        ["src/", "  lib/ (1 files)", "  b.ts", "a.ts"] ∧
      ∃ l o, Act.Trace ((getStructure "/p").body (.obj [])) l (.done o) ∧
        ∃ files : List ScannedFile, files.length = 2 ∧
          Text.trimEnd (Text.unlines ((Listing.ofPaths (files.map (·.path))).lines 3)) = "src/\n  b.ts\na.ts" := by
  have found : (FileTree.ofFiles "/p" [("a.ts", "".toUTF8), ("src/b.ts", "".toUTF8)] 0).look
      (Scan.search "/p") = [⟨"a.ts", "/p/a.ts", 0⟩, ⟨"src/b.ts", "/p/src/b.ts", 0⟩] := by decide +kernel
  obtain ⟨l, search⟩ := trace_search found
  have scanned := trace_project search (by decide +kernel) (by decide +kernel)
  have directory : (⟨.directory, 0, 0⟩ : FileStatus).kind = .directory := rfl
  have run := trace_structure directory scanned
  have names : Listing.namesOf ["a.ts", "src/b.ts", "src/lib/c.ts"] =
      [["a.ts"], ["src", "b.ts"], ["src", "lib", "c.ts"]] := by decide +kernel
  obtain ⟨all, shows⟩ := structure_accounts_for_files "/p" (.obj [])
  obtain ⟨faithful, -⟩ := all ["a.ts", "src/b.ts", "src/lib/c.ts"] 2 (by decide)
  obtain ⟨_, files, _, _, _, tree, -, -, rfl, counted, shown, text, -⟩ := shows _ _ run
  have total := (member?_total _ _ _).symm.trans counted
  have drawn := (member?_tree _ _ _).symm.trans shown
  have lines : (Listing.ofPaths ["a.ts", "src/b.ts"]).lines 3 = ["src/", "  b.ts", "a.ts"] := by cbv
  refine ⟨names ▸ faithful, by cbv, _, _, run, files, ?_, ?_⟩
  · exact (Int.ofNat.inj (Number.int.inj (Json.num.inj (Option.some.inj total)))).symm
  · have same := Json.str.inj (Option.some.inj drawn)
    refine text.symm.trans (same.symm.trans ?_)
    change Text.trimEnd (Text.unlines ((Listing.ofPaths ["a.ts", "src/b.ts"]).lines 3)) = _
    rw [lines]
    decide +kernel

/-- A file whose name is a blank is counted, and no line is left of it. -/
theorem blank_name_not_shown : ∃ l o, Act.Trace ((getStructure "/p").body (.obj [])) l (.done o) ∧
    o.data.member? "total_files" = some (.nat 1) ∧ o.data.member? "tree" = some (.str "") := by
  have found : (FileTree.ofFiles "/p" [(" ", "x".toUTF8)] 0).look (Scan.search "/p") =
      [⟨" ", "/p/ ", 1⟩] := by decide +kernel
  obtain ⟨l, search⟩ := trace_search found
  have scanned := trace_project search (by decide +kernel) (by decide +kernel)
  have directory : (⟨.directory, 0, 0⟩ : FileStatus).kind = .directory := rfl
  have lines : (Listing.ofPaths [" "]).lines 3 = [" "] := by cbv
  have nothing : Text.trimEnd (Text.unlines [" "]) = "" := by decide +kernel
  refine ⟨_, _, trace_structure directory scanned, member?_total _ _ _, (member?_tree _ _ _).trans ?_⟩
  change some (Json.str (Text.trimEnd (Text.unlines ((Listing.ofPaths [" "]).lines 3)))) = _
  rw [lines, nothing]

end Tool

end CodeAgent
