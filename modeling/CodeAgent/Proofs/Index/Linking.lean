import CodeAgent.Outline.OfFile
import CodeAgent.Proofs.Index.Resolving
import CodeAgent.Proofs.Outline.Importing

/-! What a file is linked to by the paths that it names.
Of a path only what stands in front of its last name is kept, since the last name may be an item. So a
file is linked to the modules around what it names: to a module's file by whatever it takes out of the
module, and never by the module's own name. -/
namespace CodeAgent

namespace Resolve.Project

variable {p : Project} {importer : String}

open Outline.Rust

theorem doubleColons_plain {cs : List Char} (plain : ':' ∉ cs) : doubleColons cs = [cs] := by
  induction cs with
  | nil => rfl
  | cons c cs ih =>
    obtain ⟨other, plain⟩ := not_or.mp (mt List.mem_cons.mpr plain)
    rw [doubleColons, ih plain]
    rintro _ rfl
    exact absurd rfl other

theorem doubleColons_append {cs : List Char} (plain : ':' ∉ cs) (rest : List Char) :
    doubleColons (cs ++ ':' :: ':' :: rest) = cs :: doubleColons rest := by
  induction cs with
  | nil => rfl
  | cons c cs ih =>
    obtain ⟨other, plain⟩ := not_or.mp (mt List.mem_cons.mpr plain)
    rw [List.cons_append, doubleColons, ih plain]
    rintro _ rfl
    exact absurd rfl other

theorem doubleColons_colons {path : List String} (some : path ≠ []) (named : ∀ s ∈ path, Segment s) :
    (doubleColons (colons path).toList).map String.ofList = path := by
  induction path with
  | nil => exact absurd rfl some
  | cons s path ih =>
    have first := (named s List.mem_cons_self).plain
    cases path with
    | nil => simp [colons, doubleColons_plain first]
    | cons t path =>
      have text : (colons (s :: t :: path)).toList =
          s.toList ++ ':' :: ':' :: (colons (t :: path)).toList := by
        simp [colons]
      rw [text, doubleColons_append first, List.map_cons,
        ih (List.cons_ne_nil _ _) fun x member => named x (List.mem_cons_of_mem _ member)]
      simp

theorem colons_inj {path path' : List String} (named : ∀ s ∈ path, Segment s)
    (named' : ∀ s ∈ path', Segment s) (same : colons path = colons path') : path = path' := by
  by_cases none : path = []
  · rw [none]
    exact ((colons_eq_empty named').mp (by rw [← same, none]; rfl)).symm
  · have some : path' ≠ [] := by
      rw [Ne, ← colons_eq_empty named', ← same, colons_eq_empty named]
      exact none
    rw [← doubleColons_colons none named, same, doubleColons_colons some named']

/-- A path of a single name means no file. -/
theorem rust?_single {s : String} (plain : ':' ∉ s.toList) : p.rust? importer s = none := by
  rw [rust?, doubleColons_plain plain, List.map_singleton]
  split
  · rename_i names same
    obtain rfl := (List.cons.inj same).2
    cases p.crateRoot? _ _ <;> rfl
  · rename_i same
    obtain rfl := (List.cons.inj same).2
    rfl
  · rename_i same
    obtain rfl := (List.cons.inj same).2
    rfl
  · rfl

theorem target?_single {s : String} (plain : ':' ∉ s.toList) (found : String) :
    ¬ p.target? importer "rust" s = some found := by
  have none : p.rust? importer s = none := rust?_single plain
  simp [target?, none]

/-- A path from the crate root on means the longest module in front. -/
theorem target?_crate {dir : String} {path : List String} (named : ∀ s ∈ path, Segment s)
    (root : p.crateRoot? (importer.length + 1) (Path.parent importer) = some dir) :
    p.target? importer "rust" (colons ("crate" :: path)) =
      (p.longestModule? dir path path.length).filter (· ≠ importer) := by
  have crate : Segment "crate" := ⟨by decide, by decide⟩
  have names : (doubleColons (colons ("crate" :: path)).toList).map String.ofList = "crate" :: path :=
    doubleColons_colons (List.cons_ne_nil _ _) (by simpa using ⟨crate, named⟩)
  have found : p.rust? importer (colons ("crate" :: path)) = p.longestModule? dir path path.length := by
    rw [rust?, names]
    simp only [root, Option.bind_some]
  simp [target?, found]

theorem longestModule?_whole {dir found : String} {path : List String} (some : path ≠ [])
    (held : p.moduleFile? dir path = .some found) :
    p.longestModule? dir path path.length = .some found := by
  refine longestModule?_eq_some_iff.mpr ⟨path.length, List.length_pos_iff.mpr some, Nat.le_refl _, ?_, ?_⟩
  · rwa [List.take_length]
  · intro m more small
    omega

/-- A file or directory of a name, and one that is looked for below that directory under another name
than the directory's own file has. -/
theorem apart_of_below {base inner index extension found : List Char}
    (dot : extension.head? = some '.') (other : inner ≠ index)
    (own : found = base ++ extension ∨ found = base ++ '/' :: (index ++ extension))
    (below : found = base ++ '/' :: (inner ++ extension) ∨
      found = base ++ '/' :: (inner ++ '/' :: (index ++ extension))) : False := by
  have noSlash : extension.head? ≠ some '/' := by rw [dot]; decide
  rcases own with rfl | rfl
  · rcases below with same | same
    all_goals
      have text := List.append_cancel_left same
      rw [text] at noSlash
      exact noSlash rfl
  · rcases below with same | same
    · have text := (List.cons.inj (List.append_cancel_left same)).2
      exact other (List.append_cancel_right text).symm
    · have text := congrArg List.length (List.append_cancel_left same)
      simp at text
      omega

theorem toList_slashed_append {names more : List String} (first : names ≠ []) (second : more ≠ []) :
    (Path.slashed (names ++ more)).toList =
      (Path.slashed names).toList ++ '/' :: (Path.slashed more).toList := by
  simp only [Path.toList_slashed, List.map_append]
  exact Text.join_append '/' (by simpa using first) (by simpa using second)

theorem toList_joinDir_append {names more : List String} (dir : String) (first : names ≠ [])
    (second : more ≠ []) : (joinDir dir (Path.slashed (names ++ more))).toList =
      (joinDir dir (Path.slashed names)).toList ++ '/' :: (Path.slashed more).toList := by
  rw [joinDir, joinDir]
  split <;> simp [toList_slashed_append first second]

/-- The file of a module is that of none of the modules around it. -/
theorem ne_of_around {dir found : String} {path : List String} {last : String} (other : last ≠ "mod")
    (around : p.longestModule? dir path path.length = some found) :
    p.moduleFile? dir (path ++ [last]) ≠ some found := by
  intro held
  obtain ⟨k, positive, small, own, -⟩ := longestModule?_eq_some_iff.mp around
  have some : path.take k ≠ [] := List.ne_nil_of_length_pos (by rw [List.length_take]; omega)
  have whole : path ++ [last] = path.take k ++ (path.drop k ++ [last]) := by
    rw [← List.append_assoc, List.take_append_drop]
  have inner : (Path.slashed (path.drop k ++ [last])).toList ≠ "mod".toList := by
    by_cases none : path.drop k = []
    · rw [none, List.nil_append]
      exact fun same => other (String.toList_inj.mp (by simpa [Path.toList_slashed, Text.join] using same))
    · rw [toList_slashed_append none (List.cons_ne_nil _ _)]
      intro same
      have slash : '/' ∈ "mod".toList := same ▸ by simp
      exact absurd slash (by decide)
  have text := toList_joinDir_append dir some (by simp : path.drop k ++ [last] ≠ [])
  rw [← whole] at text
  refine @apart_of_below (joinDir dir (Path.slashed (path.take k))).toList _ "mod".toList ".rs".toList
    found.toList rfl inner ?_ ?_
  · rcases moduleFile?_eq own with rfl | rfl
    · exact Or.inl (by simp)
    · exact Or.inr (by simp)
  · rcases moduleFile?_eq held with rfl | rfl
    · exact Or.inl (by simp [text])
    · exact Or.inr (by simp [text])

/-- The file that stands for a module at this path. -/
def moduleAt? (p : Project) (path : String) : Option String :=
  p.first? [path ++ ".py", path ++ "/__init__.py"]

theorem moduleAt?_eq {path found : String} (held : p.moduleAt? path = some found) :
    found = path ++ ".py" ∨ found = path ++ "/__init__.py" := List.mem_pair.mp (first?_mem held)

theorem moduleAt?_of_target? {module found : String}
    (held : p.target? importer "python" module = some found) :
    p.moduleAt? (modulePath importer module) = some found := by
  have held : p.python? importer module = some found := (Option.filter_eq_some_iff.mp held).1
  rw [python?] at held
  split at held
  · cases held
  · exact held

/-- The file of a submodule is not that of the package. -/
theorem ne_of_package {base sub found : String} (nonempty : sub ≠ "") (plain : '/' ∉ sub.toList)
    (other : sub ≠ "__init__") (own : p.moduleAt? base = some found) :
    p.moduleAt? (joinDir base sub) ≠ some found := by
  intro held
  have own := moduleAt?_eq own
  have held := moduleAt?_eq held
  by_cases top : base = ""
  · subst top
    have letters : 0 < sub.toList.length := List.length_pos_iff.mpr (by simpa using nonempty)
    have front : ∃ tail, found.toList = sub.toList ++ tail ∧ 3 ≤ tail.length := by
      rcases held with rfl | rfl
      · exact ⟨".py".toList, by simp [joinDir], by decide⟩
      · exact ⟨"/__init__.py".toList, by simp [joinDir], by decide⟩
    obtain ⟨tail, front, long⟩ := front
    rcases own with rfl | rfl
    · have length := congrArg List.length front
      simp at length
      omega
    · obtain ⟨c, cs, shape⟩ := List.exists_cons_of_length_pos letters
      rw [shape] at front plain
      exact plain ((List.cons.inj front).1 ▸ List.mem_cons_self)
  · have text : (joinDir base sub).toList = base.toList ++ '/' :: sub.toList := by
      simp [joinDir, top]
    refine @apart_of_below base.toList sub.toList "__init__".toList ".py".toList found.toList rfl
      (fun same => other (String.toList_inj.mp same)) ?_ ?_
    · rcases own with rfl | rfl
      · exact Or.inl (by simp)
      · exact Or.inr (by simp)
    · rcases held with rfl | rfl
      · exact Or.inl (by simp [text])
      · exact Or.inr (by simp [text])

end Resolve.Project

namespace Index

open Resolve Resolve.Project Syntax Outline.Rust Outline.Python

variable {p : Project} {importer : String} {source : Source} {root : Node} {problem : Option Nat}

/-- The edges of a Rust file: to what stands around the paths that it names, and to the modules that it
declares. -/
theorem mem_targets_rust (usual : Usual source root) (found : String) :
    found ∈ targets p importer (.of "rust" (Outline.Rust.file source root) problem) ↔
      (∃ path, Mentions source root path ∧
        p.target? importer "rust" (colons path.dropLast) = some found) ∨
      ∃ name, Declares source root name ∧ p.target? importer "rust" ("self::" ++ name) = some found := by
  rw [mem_targets_iff]
  exact Outline.Rust.exists_import_file (fun _ plain => Project.target?_single plain found) usual

/-- The edges of a Python file: to the modules that it imports, or imports names from. -/
theorem mem_targets_python (found : String) :
    found ∈ targets p importer (.of "python" (Outline.Python.file source root) problem) ↔
      ∃ module, (From source root module ∨ Imported source root module) ∧
        p.target? importer "python" module = some found := by
  rw [mem_targets_iff]
  exact Outline.Python.exists_import_file (P := fun s => p.target? importer "python" s = some found)

section

variable {dir m : String} {path : List String} (crate : p.RootSearch (Path.parent importer) (some dir))
  (named : ∀ s ∈ path, Segment s) (held : p.moduleFile? dir path = some m)

include crate named held

/-- What is named in a module links to the module's file. -/
theorem target?_of_module (some : path ≠ []) (other : m ≠ importer) (name : String) :
    p.target? importer "rust" (colons ("crate" :: path ++ [name]).dropLast) = .some m := by
  rw [List.dropLast_concat, Project.target?_crate named ((Project.crateRoot?_eq_iff _ _).mpr crate),
    Project.longestModule?_whole some held]
  simp [other]

/-- Naming the module itself does not link to its file. -/
theorem target?_ne_of_module (ordinary : path.getLast? ≠ some "mod") :
    p.target? importer "rust" (colons ("crate" :: path).dropLast) ≠ some m := by
  intro linked
  cases path using List.reverseRecOn with
  | nil =>
    exact Project.target?_single (by decide) m linked
  | append_singleton path last =>
    have above : ∀ s ∈ path, Segment s := fun s member => named s (List.mem_append_left _ member)
    rw [← List.cons_append, List.dropLast_concat,
      Project.target?_crate above ((Project.crateRoot?_eq_iff _ _).mpr crate)] at linked
    exact Project.ne_of_around (by simpa using ordinary) (Option.filter_eq_some_iff.mp linked).1 held

end

/-- A file is linked to the modules around what it names. So whatever a Rust file takes out of a module
of its crate links it to the module's file, but the module's own name does not, since only the modules
around that are looked for; nor does the name of a submodule that a Python file takes out of a package. -/
theorem links_around (p : Project) (importer : String) (source : Source) (root : Node)
    (problem : Option Nat) :
    (Usual source root →
      (∀ found, found ∈ targets p importer (.of "rust" (Outline.Rust.file source root) problem) ↔
        (∃ path, Mentions source root path ∧
          p.target? importer "rust" (colons path.dropLast) = some found) ∨
        ∃ name, Declares source root name ∧
          p.target? importer "rust" ("self::" ++ name) = some found) ∧
      ∀ dir path m, p.RootSearch (Path.parent importer) (some dir) → path ≠ [] →
        (∀ s ∈ path, Segment s) → p.moduleFile? dir path = some m → m ≠ importer →
        (∀ name, Mentions source root ("crate" :: path ++ [name]) →
          m ∈ targets p importer (.of "rust" (Outline.Rust.file source root) problem)) ∧
        (path.getLast? ≠ some "mod" → (∀ l, Mentions source root l → l = "crate" :: path) →
          (∀ name, ¬ Declares source root name) →
          m ∉ targets p importer (.of "rust" (Outline.Rust.file source root) problem))) ∧
    (∀ found, found ∈ targets p importer (.of "python" (Outline.Python.file source root) problem) ↔
      ∃ module, (From source root module ∨ Imported source root module) ∧
        p.target? importer "python" module = some found) ∧
    ∀ module, (∀ l, From source root l ∨ Imported source root l → l = module) →
      ∀ sub m, sub ≠ "" → '/' ∉ sub.toList → sub ≠ "__init__" →
        p.moduleAt? (joinDir (Project.modulePath importer module) sub) = some m →
        m ∉ targets p importer (.of "python" (Outline.Python.file source root) problem) := by
  refine ⟨fun usual => ⟨mem_targets_rust usual, ?_⟩, mem_targets_python, ?_⟩
  · intro dir path m crate some named held other
    refine ⟨fun name mentioned => ?_, fun ordinary only none linked => ?_⟩
    · exact (mem_targets_rust usual m).mpr
        (Or.inl ⟨_, mentioned, target?_of_module crate named held some other name⟩)
    · rcases (mem_targets_rust usual m).mp linked with ⟨l, mentioned, meant⟩ | ⟨name, declared, -⟩
      · rw [only l mentioned] at meant
        exact target?_ne_of_module crate named held ordinary meant
      · exact none name declared
  · intro module only sub m nonempty plain other held linked
    obtain ⟨l, imported, meant⟩ := (mem_targets_python m).mp linked
    rw [only l imported] at meant
    exact Project.ne_of_package nonempty plain other (Project.moduleAt?_of_target? meant) held

/- An item of a module, a module, and a submodule of a package -/

/-- The path of `use crate::config::C;`. -/
def itemNode : Node :=
  .mk .scopedIdentifier (some .argument) ⟨4, 20, 0, 0⟩
    [.mk .scopedIdentifier (some .path) ⟨4, 17, 0, 0⟩
      [.mk .pathRoot (some .path) ⟨4, 9, 0, 0⟩ [], .mk .identifier (some .name) ⟨11, 17, 0, 0⟩ []],
      .mk .identifier (some .name) ⟨19, 20, 0, 0⟩ []]

/-- The path of `use crate::config;`. -/
def moduleNode : Node :=
  .mk .scopedIdentifier (some .argument) ⟨4, 17, 0, 0⟩
    [.mk .pathRoot (some .path) ⟨4, 9, 0, 0⟩ [], .mk .identifier (some .name) ⟨11, 17, 0, 0⟩ []]

/-- A file that uses one path. -/
def declaring (path : Node) : Node :=
  .mk .source none ⟨0, path.span.stop + 2, 0, 1⟩
    [.mk .useDeclaration none ⟨0, path.span.stop + 1, 0, 0⟩ [path]]

/-- The tree of `from pkg import mod`. -/
def importingSubmodule : Node :=
  .mk .source none ⟨0, 20, 0, 1⟩ [.mk .importFrom none ⟨0, 19, 0, 0⟩
    [.mk .dottedName (some .module) ⟨5, 8, 0, 0⟩ [.mk .identifier none ⟨5, 8, 0, 0⟩ []],
      .mk .dottedName (some .name) ⟨16, 19, 0, 0⟩ [.mk .identifier none ⟨16, 19, 0, 0⟩ []]]]

def configured : Project := .ofFiles ["src/a.rs", "src/b.rs", "src/config.rs", "src/lib.rs"] none

def packaged : Project := .ofFiles ["a.py", "pkg/__init__.py", "pkg/mod.py"] none

/-- A file that uses one path names that path and no other, and declares no module. -/
theorem mentions_declaring {path : List String} {last : String} {n : Node}
    (kind : n.kind = .scopedIdentifier) (role : n.role = some .argument)
    (named : ∀ s ∈ path, Segment s) (text : partText source n .path = colons path)
    (name : partText source n .name = last) :
    Usual source (declaring n) ∧ (∀ l, Mentions source (declaring n) l ↔ l = path ++ [last]) ∧
      ∀ l, ¬ Declares source (declaring n) l := by
  have argument : Node.child? (.mk .useDeclaration none ⟨0, n.span.stop + 1, 0, 0⟩ [n]) .argument =
      some n := by
    simp [Node.child?, Node.children, role]
  have uses : Uses source [] [n] [path ++ [last]] := by
    rw [← name]
    exact .item kind named text .nil
  refine ⟨?_, fun l => ⟨?_, ?_⟩, ?_⟩
  · intro d among
    obtain rfl := List.mem_singleton.mp among
    exact ⟨n, _, argument, uses⟩
  · rintro ⟨d, among, tree, ls, given, other, member⟩
    obtain rfl := List.mem_singleton.mp among
    obtain rfl := Option.some.inj (argument.symm.trans given)
    cases other with
    | @item _ path' _ _ _ _ named' text' rest =>
      cases rest
      have same : path' = path := colons_inj named' named (text'.symm.trans text)
      rw [same, name] at member
      simpa using member
    | single plain => simp [isPlain, kind] at plain
    | remark other => rw [kind] at other; cases other
    | renamed other => rw [kind] at other; cases other
    | wildcard other => rw [kind] at other; cases other
    | list other => rw [kind] at other; cases other
    | group other => rw [kind] at other; cases other
  · rintro rfl
    exact ⟨_, List.mem_singleton_self _, n, _, argument, uses, List.mem_singleton_self _⟩
  · rintro l ⟨d, among, -⟩
    cases among

theorem links_around_configured :
    (Usual (.ofString "use crate::config::C;\n") (declaring itemNode) ∧
      Mentions (.ofString "use crate::config::C;\n") (declaring itemNode) ["crate", "config", "C"] ∧
      configured.RootSearch (Path.parent "src/b.rs") (some "src") ∧
      configured.moduleFile? "src" ["config"] = some "src/config.rs" ∧
      "src/config.rs" ∈ targets configured "src/b.rs"
        (.of "rust" (Outline.Rust.file (.ofString "use crate::config::C;\n") (declaring itemNode)) none)) ∧
    (Usual (.ofString "use crate::config;\n") (declaring moduleNode) ∧
      (∀ l, Mentions (.ofString "use crate::config;\n") (declaring moduleNode) l → l = ["crate", "config"]) ∧
      "src/config.rs" ∉ targets configured "src/a.rs"
        (.of "rust" (Outline.Rust.file (.ofString "use crate::config;\n") (declaring moduleNode)) none)) ∧
    (∀ l, From (.ofString "from pkg import mod\n") importingSubmodule l ∨
      Imported (.ofString "from pkg import mod\n") importingSubmodule l → l = "pkg") ∧
    packaged.moduleAt? (joinDir (modulePath "a.py" "pkg") "mod") = some "pkg/mod.py" ∧
    "pkg/mod.py" ∉ targets packaged "a.py"
      (.of "python" (Outline.Python.file (.ofString "from pkg import mod\n") importingSubmodule) none) := by
  have crate : Segment "crate" := ⟨by decide, by decide⟩
  have config : Segment "config" := ⟨by decide, by decide⟩
  have search (importer : String) (found : configured.crateRoot? (importer.length + 1)
      (Path.parent importer) = some "src") : configured.RootSearch (Path.parent importer) (some "src") :=
    (crateRoot?_eq_iff _ _).mp found
  have held : configured.moduleFile? "src" ["config"] = some "src/config.rs" := by decide +kernel
  obtain ⟨usual, mentions, -⟩ := @mentions_declaring (.ofString "use crate::config::C;\n")
    ["crate", "config"] "C" itemNode rfl rfl (by simpa using ⟨crate, config⟩) (by decide +kernel)
    (by decide +kernel)
  obtain ⟨usual', mentions', undeclared⟩ := @mentions_declaring (.ofString "use crate::config;\n")
    ["crate"] "config" moduleNode rfl rfl (by simpa using crate) (by decide +kernel) (by decide +kernel)
  have only : ∀ l, From (.ofString "from pkg import mod\n") importingSubmodule l ∨
      Imported (.ofString "from pkg import mod\n") importingSubmodule l → l = "pkg" := by
    rintro l (⟨d, among, named⟩ | ⟨d, among, -⟩)
    · obtain rfl := List.mem_singleton.mp among
      have text : (Source.ofString "from pkg import mod\n").textAs?
          (.mk .importFrom none ⟨0, 19, 0, 0⟩
            [.mk .dottedName (some .module) ⟨5, 8, 0, 0⟩ [.mk .identifier none ⟨5, 8, 0, 0⟩ []],
              .mk .dottedName (some .name) ⟨16, 19, 0, 0⟩ [.mk .identifier none ⟨16, 19, 0, 0⟩ []]])
          .module = some "pkg" := by decide +kernel
      exact (Option.some.inj (text.symm.trans named)).symm
    · cases among
  have submodule : packaged.moduleAt? (joinDir (modulePath "a.py" "pkg") "mod") = some "pkg/mod.py" := by
    decide +kernel
  have taken := ((links_around configured "src/b.rs" _ _ none).1 usual).2 "src" ["config"] "src/config.rs"
    (search _ (by decide +kernel)) (by decide) (by simpa using config) held (by decide)
  have named := ((links_around configured "src/a.rs" _ _ none).1 usual').2 "src" ["config"] "src/config.rs"
    (search _ (by decide +kernel)) (by decide) (by simpa using config) held (by decide)
  have mentioned := (mentions ["crate", "config", "C"]).mpr rfl
  exact ⟨⟨usual, mentioned, search _ (by decide +kernel), held, taken.1 "C" mentioned⟩,
    ⟨usual', fun l => (mentions' l).mp, named.2 (by decide) (fun l => (mentions' l).mp) undeclared⟩,
    only, submodule, (links_around packaged "a.py" _ _ none).2.2 "pkg" only "mod" "pkg/mod.py" (by decide)
      (by decide) (by decide) submodule⟩

/-- A module that is named by itself stays unlinked, in either language. -/
theorem own_name_unlinked :
    (configured.moduleFile? "src" ["config"] = some "src/config.rs" ∧
      targets configured "src/b.rs"
        (.of "rust" (Outline.Rust.file (.ofString "use crate::config::C;\n") (declaring itemNode)) none) =
          ["src/config.rs"] ∧
      targets configured "src/a.rs"
        (.of "rust" (Outline.Rust.file (.ofString "use crate::config;\n") (declaring moduleNode)) none) = []) ∧
    (targets packaged "a.py" (Outline.ofFile .python "from pkg import mod\n") = ["pkg/__init__.py"] ∧
      targets packaged "pkg/a.py" (Outline.ofFile .python "from . import mod\n") = ["pkg/__init__.py"]) := by
  decide +kernel

end Index

end CodeAgent
