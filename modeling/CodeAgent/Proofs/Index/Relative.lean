import CodeAgent.Proofs.Index.Resolving
import CodeAgent.Proofs.Path.Settling
import CodeAgent.Proofs.Text.Cutting

/-! Imports that are relative to the importing file.
Each language has its own way to climb from the file's directory and its own names to look for; all of
them lead to one directory, that of the segments followed, and a file that is found lies there. -/
namespace CodeAgent

namespace Resolve

open CodeAgent.Path

/- What an import is looked for as, from the directory that it leads to -/

/-- A file beside the directory's own name: in the same place, under a name made from it. -/
def Beside (named : String → String → Prop) (dir : List String) (found : String) : Prop :=
  ∃ n, named (dir.getLastD "") n ∧ found = slashed (dir.dropLast ++ [n])

/-- A file directly in the directory. -/
def Inside (named : String → Prop) (dir : List String) (found : String) : Prop :=
  ∃ n, named n ∧ found = slashed dir ++ "/" ++ n

/-- A script is found by its very name, with an extension behind it, or with another one for a known one. -/
def ScriptName (name found : String) : Prop :=
  found = name ∨ ∃ e ∈ scriptExtensions, found = name ++ "." ++ e ∨
    ∃ stem, ∃ known ∈ scriptExtensions, name = stem ++ "." ++ known ∧ found = stem ++ "." ++ e

def ScriptIndex (found : String) : Prop := ∃ e ∈ scriptExtensions, found = "index." ++ e

/-- The names behind the dots of a relative module. -/
def dotted (rest : List Char) : List String :=
  if rest = [] then [] else (Text.pieces '.' rest).map String.ofList

/-- A relative import of a file, read as the segments that it follows from the file's directory, with
what it means when they lead to a directory. -/
inductive Specifies (file : String) : String → String → List String →
    (List String → String → Prop) → Prop where
  | script {language source : String} (known : language = "typescript" ∨ language = "javascript")
      (relative : Text.startsWith source "." = true) :
      Specifies file language source (segments source) fun dir found =>
        Beside ScriptName dir found ∨ Inside ScriptIndex dir found
  | python {k : Nat} {rest : List Char} (all : rest.head? ≠ some '.') :
      Specifies file "python" (String.ofList (List.replicate (k + 1) '.' ++ rest))
        (List.replicate k "..") fun dir found =>
          Beside (fun name n => n = name ++ ".py") (dir ++ dotted rest) found ∨
            Inside (fun n => n = "__init__.py") (dir ++ dotted rest) found
  | rust {k : Nat} {names : List String} {source : String} (all : names.head? ≠ some "super")
      (chain : (Project.doubleColons source.toList).map String.ofList =
        List.replicate (k + 1) "super" ++ names) :
      Specifies file "rust" source (List.replicate (if file = "mod.rs" then k + 1 else k) "..")
        fun dir found => ∃ n, 0 < n ∧ n ≤ names.length ∧
          (Beside (fun name n => n = name ++ ".rs") (dir ++ names.take n) found ∨
            Inside (fun n => n = "mod.rs") (dir ++ names.take n) found)
  | go {source : String} (relative : Text.startsWith source "." = true) :
      Specifies file "go" source (segments source) fun dir found =>
        parent found = slashed dir ∧ Text.endsWith found ".go" = true ∧
          Text.endsWith found "_test.go" = false

theorem beside_append (dir : List String) (text : String) :
    Beside (fun name n => n = name ++ text) dir (slashed dir ++ text) :=
  ⟨_, rfl, slashed_append dir text⟩

theorem not_slash_of_extension : ∀ e ∈ scriptExtensions, '/' ∉ e.toList := by decide

/-- A known extension of a path belongs to the path's last name. -/
theorem last_of_extension {dir : List String} {stem known : String} (plain : '/' ∉ known.toList)
    (whole : slashed dir = stem ++ "." ++ known) :
    ∃ b, dir.getLastD "" = b ++ "." ++ known ∧
      ∀ e, stem ++ "." ++ e = slashed (dir.dropLast ++ [b ++ "." ++ e]) := by
  cases dir using List.reverseRecOn with
  | nil =>
    have empty := congrArg (List.length ∘ String.toList) whole
    simp [slashed, Text.joinWith, Text.join] at empty
  | append_singleton dirs n =>
    rw [List.getLastD_concat, List.dropLast_concat]
    cases dirs using List.reverseRecOn with
    | nil =>
      rw [List.nil_append, slashed_singleton] at whole
      exact ⟨stem, whole, fun e => (slashed_singleton _).symm⟩
    | append_singleton dirs m =>
      have text (x : String) : (slashed (dirs ++ [m] ++ [x])).toList =
          (slashed (dirs ++ [m])).toList ++ '/' :: x.toList := toList_slashed_concat x (by simp)
      have unslashed : '/' ∉ ("." ++ known).toList := by simpa using plain
      have split := congrArg String.toList whole
      rw [text, String.append_assoc, String.toList_append] at split
      rcases List.append_eq_append_iff.mp split with ⟨w, front, back⟩ | ⟨w, front, back⟩
      · cases w with
        | nil =>
          rw [List.nil_append] at back
          exact absurd (back ▸ List.mem_cons_self) unslashed
        | cons c w =>
          obtain ⟨rfl, name⟩ := List.cons.inj back
          refine ⟨String.ofList w, ?_, fun e => ?_⟩
          · rw [← String.toList_inj, name]
            simp
          · rw [← String.toList_inj, text]
            simp [front]
      · exact absurd (back ▸ by simp : '/' ∈ ("." ++ known).toList) unslashed

namespace Project

variable {p : Project} {importer found : String}

theorem script?_lies {source : String} {dir : List String}
    (leads : normalize (parent importer ++ "/" ++ source) = slashed dir)
    (held : p.script? importer source = some found) :
    Beside ScriptName dir found ∨ Inside ScriptIndex dir found := by
  unfold script? at held
  split at held
  · cases held
  extract_lets base stem at held
  have base_eq : base = slashed dir := leads
  -- what is left of the path when a known extension is taken off
  have stemmed : stem = base ∨ ∃ known ∈ scriptExtensions, base = stem ++ "." ++ known := by
    cases last : Text.splitLast? base "." with
    | none => simp [stem, last]
    | some parts =>
      simp only [stem, last]
      split
      · rename_i known
        simp only [Bool.and_eq_true, decide_eq_true_eq] at known
        exact Or.inr ⟨_, known.1, Text.append_of_splitLast last⟩
      · exact Or.inl rfl
  have among := first?_mem held
  simp only [List.cons_append, List.mem_cons, List.mem_append, List.mem_map] at among
  rw [base_eq] at stemmed among
  have own (name : String) (e : String) (known : e ∈ scriptExtensions) :
      ScriptName name (name ++ ("." ++ e)) :=
    Or.inr ⟨e, known, Or.inl (String.append_assoc ..).symm⟩
  rcases among with rfl | ⟨e, known, rfl⟩ | ⟨e, known, rfl⟩
  · refine Or.inl ⟨_, Or.inl rfl, ?_⟩
    simpa using slashed_append dir ""
  · refine Or.inl ?_
    rcases stemmed with same | ⟨old, oldKnown, whole⟩
    · rw [same, String.append_assoc]
      exact ⟨_, own _ e known, slashed_append dir _⟩
    · obtain ⟨b, name, beside⟩ := last_of_extension (not_slash_of_extension old oldKnown) whole
      exact ⟨_, Or.inr ⟨e, known, Or.inr ⟨b, old, oldKnown, name, rfl⟩⟩, beside e⟩
  · refine Or.inr ⟨_, ⟨e, known, rfl⟩, ?_⟩
    simp [String.append_assoc, ← String.toList_inj]

theorem go?_lies {source : String} {dir : List String} (relative : Text.startsWith source "." = true)
    (leads : normalize (parent importer ++ "/" ++ source) = slashed dir)
    (held : p.go? importer source = some found) :
    parent found = slashed dir ∧ Text.endsWith found ".go" = true ∧
      Text.endsWith found "_test.go" = false := by
  rw [go?, if_pos relative, leads] at held
  simpa [and_assoc] using List.find?_some held

theorem joinDir_slashed {dir : List String} (named : ∀ n ∈ dir, Named n) (names : List String)
    (some : names ≠ []) : joinDir (slashed dir) (slashed names) = slashed (dir ++ names) := by
  cases dir with
  | nil => rfl
  | cons d dir =>
    obtain ⟨c, cs, shape⟩ := List.exists_cons_of_ne_nil (named d List.mem_cons_self).nonempty
    have nonempty : (slashed (d :: dir)).isEmpty = false := by
      rw [← Bool.not_eq_true, String.isEmpty_iff, ← String.toList_eq_nil_iff, toList_slashed]
      cases dir <;> simp [Text.join, shape]
    rw [joinDir, nonempty, if_neg Bool.false_ne_true, ← String.toList_inj]
    simp only [String.toList_append, toList_slashed, List.map_append]
    rw [Text.join_append '/' (by simp) (by simpa using some)]
    simp

theorem slashed_dotted (rest : List Char) :
    slashed (dotted rest) = String.ofList (rest.map fun c => if c = '.' then '/' else c) := by
  rw [dotted]
  split
  · rename_i none
    rw [none]
    rfl
  · rw [← Text.join_pieces_other, slashed, Text.joinWith, List.map_map]
    simp

/-- What a dotted module is looked for as, from the directory that its dots lead to. -/
theorem python?_eq {k : Nat} {rest : List Char} {dir : List String} (all : rest.head? ≠ some '.')
    (named : ∀ n ∈ dir, Named n) (leads : up k (parent importer) = slashed dir) :
    p.python? importer (String.ofList (List.replicate (k + 1) '.' ++ rest)) =
      p.first? [slashed (dir ++ dotted rest) ++ ".py", slashed (dir ++ dotted rest) ++ "/__init__.py"] := by
  have dots : (List.replicate (k + 1) '.' ++ rest).takeWhile (· = '.') = List.replicate (k + 1) '.' := by
    rw [List.takeWhile_append_of_pos (by simp)]
    cases rest with
    | nil => simp
    | cons c rest => rw [List.takeWhile_cons_of_neg (by simpa using all), List.append_nil]
  have behind : (List.replicate (k + 1) '.' ++ rest).drop (k + 1) = rest :=
    List.drop_left' (by simp)
  have front : Text.startsWith (String.ofList (List.replicate (k + 1) '.' ++ rest)) "." = true := by
    simp [Text.startsWith, List.replicate_succ]
  have some : (String.ofList (List.replicate (k + 1) '.' ++ rest)).isEmpty = false := by
    simp [List.replicate_succ]
  have base : (if (String.ofList (rest.map fun c => if c = '.' then '/' else c)).isEmpty then slashed dir
      else joinDir (slashed dir) (String.ofList (rest.map fun c => if c = '.' then '/' else c))) =
        slashed (dir ++ dotted rest) := by
    rw [← slashed_dotted]
    by_cases none : rest = []
    · simp [dotted, none, slashed, Text.joinWith, Text.join]
    · have names : dotted rest ≠ [] := by simpa [dotted, none] using Text.pieces_ne_nil '.' rest
      rw [if_neg, joinDir_slashed named _ names]
      rw [slashed_dotted]
      simpa using none
  rw [python?, some, if_neg Bool.false_ne_true]
  simp only [modulePath, front, String.toList_ofList, dots, List.length_replicate, Nat.add_sub_cancel, leads,
    behind, base, if_true]

theorem python?_lies {k : Nat} {rest : List Char} {dir : List String} (all : rest.head? ≠ some '.')
    (named : ∀ n ∈ dir, Named n) (leads : up k (parent importer) = slashed dir)
    (held : p.python? importer (String.ofList (List.replicate (k + 1) '.' ++ rest)) = some found) :
    Beside (fun name n => n = name ++ ".py") (dir ++ dotted rest) found ∨
      Inside (fun n => n = "__init__.py") (dir ++ dotted rest) found := by
  rw [python?_eq all named leads] at held
  rcases List.mem_pair.mp (first?_mem held) with rfl | rfl
  · exact Or.inl (beside_append _ ".py")
  · exact Or.inr ⟨_, rfl, by rw [String.append_assoc]; rfl⟩

theorem supers_replicate {names : List String} (all : names.head? ≠ some "super") (k : Nat)
    (dir : String) : supers dir (List.replicate k "super" ++ names) = (up k dir, names) := by
  induction k generalizing dir with
  | zero =>
    cases names with
    | nil => rfl
    | cons s names =>
      rw [List.replicate_zero, List.nil_append, supers]
      · rfl
      · rintro _ same
        exact all (congrArg some (List.cons.inj same).1)
  | succ k ih => exact ih (parent dir)

theorem longestModule?_lies {dir names : List String} (named : ∀ n ∈ dir, Named n)
    (held : p.longestModule? (slashed dir) names names.length = some found) :
    ∃ n, 0 < n ∧ n ≤ names.length ∧
      (Beside (fun name n => n = name ++ ".rs") (dir ++ names.take n) found ∨
        Inside (fun n => n = "mod.rs") (dir ++ names.take n) found) := by
  obtain ⟨n, positive, small, held, -⟩ := longestModule?_eq_some_iff.mp held
  have some : names.take n ≠ [] := List.ne_nil_of_length_pos (by rw [List.length_take]; omega)
  have found := moduleFile?_eq held
  rw [joinDir_slashed named _ some] at found
  refine ⟨n, positive, small, ?_⟩
  rcases found with rfl | rfl
  · exact Or.inl (beside_append _ ".rs")
  · exact Or.inr ⟨_, rfl, by rw [String.append_assoc]; rfl⟩

theorem rust?_chain {k : Nat} {importer source : String} {names : List String}
    (all : names.head? ≠ some "super")
    (chain : (doubleColons source.toList).map String.ofList = List.replicate (k + 1) "super" ++ names) :
    p.rust? importer source =
      p.longestModule? (up k (parentModuleDir importer)) names names.length := by
  rw [rust?, chain, List.replicate_succ, List.cons_append]
  simp only [supers_replicate all]

/-- The first parent of a file is its directory, unless the file stands for its directory. -/
theorem up_parentModuleDir {dirs : List String} {file : String}
    (named : ∀ n ∈ dirs ++ [file], Named n) (k : Nat) :
    up k (parentModuleDir (slashed (dirs ++ [file]))) =
      up (if file = "mod.rs" then k + 1 else k) (slashed dirs) := by
  rw [parentModuleDir, baseName_slashed named, parent_slashed named]
  split <;> rfl

end Project

/-- A relative import leads to one directory, the one that it denotes unless it climbs above the top; and
a file that it means lies there. -/
theorem target?_settles {p : Project} {dirs climb : List String} {file language source : String}
    {lies : List String → String → Prop} (named : ∀ n ∈ dirs ++ [file], Named n)
    (specifies : Specifies file language source climb lies) :
    ∃ dir, (∀ dir', Settles (dirs ++ climb) dir' ↔ dir' = dir) ∧
      (¬ Climbs (dirs ++ climb) → Cancels (dirs ++ climb) dir) ∧
      ∀ found, p.target? (slashed (dirs ++ [file])) language source = some found →
        found ∈ p.files ∧ lies dir found := by
  have above : ∀ n ∈ dirs, Named n := fun n member => named n (List.mem_append_left _ member)
  refine ⟨settleFrom [] (dirs ++ climb), fun _ => settles_iff, cancels_settleFrom,
    fun found held => ⟨Project.mem_target? held, ?_⟩⟩
  have held := (Option.filter_eq_some_iff.mp held).1
  -- where a climb of steps up alone ends
  have stepped (k : Nat) : settleFrom [] (dirs ++ List.replicate k "..") = (dirs.reverse.drop k).reverse := by
    rw [settleFrom_names (not_up_of_named above), List.append_nil, settleFrom_ups]
  have left (k : Nat) : ∀ n ∈ (dirs.reverse.drop k).reverse, Named n := fun n member =>
    above n (List.mem_reverse.mp (List.mem_of_mem_drop (List.mem_reverse.mp member)))
  have climbed (k : Nat) : Project.up k (slashed dirs) = slashed (dirs.reverse.drop k).reverse := by
    have up := @up_slashed dirs.reverse (by simpa using above) k
    rwa [List.reverse_reverse] at up
  have followed (source : String) : normalize (parent (slashed (dirs ++ [file])) ++ "/" ++ source) =
      slashed (settleFrom [] (dirs ++ segments source)) := by
    rw [parent_slashed named, normalize_eq, segments_join, segments_slashed above]
  cases specifies with
  | script known relative =>
    rcases known with rfl | rfl <;> exact Project.script?_lies (followed _) held
  | go relative => exact Project.go?_lies relative (followed _) held
  | @python k rest all =>
    rw [stepped]
    exact Project.python?_lies all (left k) (by rw [parent_slashed named, climbed]) held
  | rust all chain =>
    rw [stepped]
    have held : p.rust? (slashed (dirs ++ [file])) source = some found := held
    rw [Project.rust?_chain all chain, Project.up_parentModuleDir named, climbed] at held
    exact Project.longestModule?_lies (left _) held

theorem target?_settles_beside :
    (∀ n ∈ ["src", "lib"] ++ ["index.tsx"], Named n) ∧
    Specifies "index.tsx" "typescript" "../util.js" ["..", "util.js"] (fun dir found =>
      Beside ScriptName dir found ∨ Inside ScriptIndex dir found) ∧
    (Project.ofFiles ["src/lib/index.tsx", "src/util.ts"] none).target? "src/lib/index.tsx" "typescript"
      "../util.js" = some "src/util.ts" ∧
    ∃ dir, Cancels ["src", "lib", "..", "util.js"] dir ∧
      (Beside ScriptName dir "src/util.ts" ∨ Inside ScriptIndex dir "src/util.ts") := by
  have named : ∀ n ∈ ["src", "lib"] ++ ["index.tsx"], Named n := by
    intro n member
    simp only [List.cons_append, List.nil_append, List.mem_cons, List.not_mem_nil, or_false] at member
    rcases member with rfl | rfl | rfl <;> exact ⟨by decide, by decide, by decide, by decide⟩
  have steps : segments "../util.js" = ["..", "util.js"] := by decide +kernel
  have specifies : Specifies "index.tsx" "typescript" "../util.js" ["..", "util.js"] (fun dir found =>
      Beside ScriptName dir found ∨ Inside ScriptIndex dir found) :=
    steps ▸ .script (Or.inl rfl) (by decide +kernel)
  have meant : (Project.ofFiles ["src/lib/index.tsx", "src/util.ts"] none).target? "src/lib/index.tsx"
      "typescript" "../util.js" = some "src/util.ts" := by decide +kernel
  have importer : slashed (["src", "lib"] ++ ["index.tsx"]) = "src/lib/index.tsx" := by decide +kernel
  have stays : ¬ Climbs (["src", "lib"] ++ ["..", "util.js"]) := by
    rw [climbs_iff_walk]
    decide +kernel
  obtain ⟨dir, -, cancels, lies⟩ :=
    target?_settles (p := .ofFiles ["src/lib/index.tsx", "src/util.ts"] none) named specifies
  rw [importer] at lies
  exact ⟨named, specifies, meant, dir, cancels stays, (lies _ meant).2⟩

/-- Each way to climb above the top ends at a file nevertheless. -/
theorem climbing_means_file :
    (∃ lies, Specifies "a.ts" "typescript" "../x" ["..", "x"] lies ∧ Climbs ["..", "x"] ∧
      (Project.ofFiles ["a.ts", "x.ts"] none).target? "a.ts" "typescript" "../x" = some "x.ts") ∧
    (∃ lies, Specifies "a.py" "python" "..x" [".."] lies ∧ Climbs [".."] ∧
      (Project.ofFiles ["a.py", "x.py"] none).target? "a.py" "python" "..x" = some "x.py") ∧
    (∃ lies, Specifies "a.rs" "rust" "super::super::x" [".."] lies ∧ Climbs [".."] ∧
      (Project.ofFiles ["a.rs", "x.rs"] none).target? "a.rs" "rust" "super::super::x" = some "x.rs") ∧
    ∃ lies, Specifies "main.go" "go" "../x" ["..", "x"] lies ∧ Climbs ["..", "x"] ∧
      (Project.ofFiles ["main.go", "x/x.go"] none).target? "main.go" "go" "../x" = some "x/x.go" := by
  have steps : segments "../x" = ["..", "x"] := by decide +kernel
  have climbs (rest : List String) : Climbs (".." :: rest) := ⟨[".."], by simp, by decide⟩
  have script := @Specifies.script "a.ts" "typescript" "../x" (Or.inl rfl) (by decide +kernel)
  have python := @Specifies.python "a.py" 1 ['x'] (by decide)
  have rust := @Specifies.rust "a.rs" 1 ["x"] "super::super::x" (by decide) (by decide +kernel)
  have go := @Specifies.go "main.go" "../x" (by decide +kernel)
  rw [steps] at script go
  exact ⟨⟨_, script, climbs _, by decide +kernel⟩, ⟨_, python, climbs _, by decide +kernel⟩,
    ⟨_, rust, climbs _, by decide +kernel⟩, ⟨_, go, climbs _, by decide +kernel⟩⟩

end Resolve

end CodeAgent
