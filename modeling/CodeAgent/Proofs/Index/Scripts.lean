import CodeAgent.Proofs.Index.Relative

/-! Scripts that are imported by their names, without an extension.
The extensions that an import tries are not all of those that make a file a script, and a name that itself
ends like a script loses its end before they are tried. A file that no other can be taken for is found
exactly when neither of the two stands in the way. -/
namespace CodeAgent.Resolve

open CodeAgent.Path

/- Scripts by their paths -/

def scriptLanguages : List Language := [.typeScript, .tsx, .javaScript]

def IsScript (path : String) : Prop := ∃ l ∈ scriptLanguages, Language.ofPath? path = some l

theorem ofPath_extension {stem e : String} (plain : '.' ∉ e.toList) :
    Language.ofPath? (stem ++ "." ++ e) = Language.ofPath? ("." ++ e) := by
  have bare : Text.splitLast? ("." ++ e) "." = some ("", e) :=
    Text.splitLast_eq_some_iff.mpr ⟨by rw [String.empty_append], plain⟩
  rw [Language.ofPath?, Language.ofPath?, Text.splitLast_eq_some_iff.mpr ⟨rfl, plain⟩, bare]

/-- An import tries all extensions of scripts but two. -/
theorem isScript_iff {stem e : String} (plain : '.' ∉ e.toList) :
    IsScript (stem ++ "." ++ e) ↔ e ∈ scriptExtensions ∨ e = "mts" ∨ e = "cts" := by
  rw [IsScript, ofPath_extension plain]
  constructor
  · rintro ⟨l, script, known⟩
    have bare : Text.splitLast? ("." ++ e) "." = some ("", e) :=
      Text.splitLast_eq_some_iff.mpr ⟨by rw [String.empty_append], plain⟩
    rw [Language.ofPath?, bare] at known
    dsimp only at known
    split at known
    all_goals first
      | decide
      | cases known <;> exact absurd script (by decide)
  · rintro (known | rfl | rfl)
    · simp only [scriptExtensions, List.mem_cons, List.not_mem_nil, or_false] at known
      rcases known with rfl | rfl | rfl | rfl | rfl | rfl
      · exact ⟨.typeScript, by decide, by decide +kernel⟩
      · exact ⟨.tsx, by decide, by decide +kernel⟩
      all_goals exact ⟨.javaScript, by decide, by decide +kernel⟩
    · exact ⟨.typeScript, by decide, by decide +kernel⟩
    · exact ⟨.typeScript, by decide, by decide +kernel⟩

/- The end of a name -/

/-- The last name of the path ends in a known extension, which is taken off; but a name that is nothing
else keeps it, unless the path is only this name. -/
def LosesEnd (path : List String) (rest : String) : Prop :=
  ∃ known ∈ scriptExtensions, path.getLastD "" = rest ++ "." ++ known ∧ (rest ≠ "" ∨ path.dropLast = [])

/-- What the extensions are tried behind. -/
def scriptStem (base : String) : String :=
  match Text.splitLast? base "." with
  | some (stem, ext) => if ext ∈ scriptExtensions && !Text.endsWith stem "/" then stem else base
  | none => base

theorem endsWith_slashed {above : List String} {rest : String} (plain : '/' ∉ rest.toList) :
    Text.endsWith (slashed (above ++ [rest])) "/" = true ↔ rest = "" ∧ above ≠ [] := by
  rw [Text.endsWith, List.isSuffixOf_iff_suffix]
  by_cases top : above = []
  · rw [top, List.nil_append, slashed_singleton]
    exact iff_of_false (fun slash => plain (slash.subset (by decide))) fun both => both.2 rfl
  · rw [toList_slashed_concat rest top, and_iff_left top, ← String.toList_eq_nil_iff]
    constructor
    · rintro ⟨front, text⟩
      cases letters : rest.toList using List.reverseRecOn with
      | nil => rfl
      | append_singleton cs c =>
        rw [letters, List.append_cons, ← List.append_assoc] at text
        obtain ⟨-, same⟩ := List.append_inj' text rfl
        rw [letters, ← same] at plain
        exact absurd (by simp) plain
    · intro empty
      exact ⟨(slashed above).toList, by rw [empty]; rfl⟩

theorem slashed_end {path : List String} {rest known : String} (nonempty : path ≠ [])
    (last : path.getLastD "" = rest ++ "." ++ known) :
    slashed path = slashed (path.dropLast ++ [rest]) ++ "." ++ known := by
  rw [String.append_assoc, slashed_append, List.dropLast_concat, List.getLastD_concat, ← String.append_assoc,
    ← last, List.getLastD_eq_getLast?, List.getLast?_eq_getLast_of_ne_nil nonempty, Option.getD_some,
    List.dropLast_append_getLast]

theorem not_dot_of_extension : ∀ e ∈ scriptExtensions, '.' ∉ e.toList := by decide

/-- The slash in front of a name is not part of the name. -/
theorem not_slash_of_end {path : List String} {rest known : String} (named : ∀ n ∈ path, Named n)
    (nonempty : path ≠ []) (last : path.getLastD "" = rest ++ "." ++ known) : '/' ∉ rest.toList := by
  have inside : rest ++ "." ++ known ∈ path := by
    rw [← last, List.getLastD_eq_getLast?, List.getLast?_eq_getLast_of_ne_nil nonempty]
    exact List.getLast_mem nonempty
  exact fun slash => (named _ inside).plain (by simp [slash])

variable {path : List String} {rest : String}

theorem scriptStem_of_loses (named : ∀ n ∈ path, Named n) (nonempty : path ≠ []) (loses : LosesEnd path rest) :
    scriptStem (slashed path) = slashed (path.dropLast ++ [rest]) := by
  obtain ⟨known, among, last, kept⟩ := loses
  have cut : Text.splitLast? (slashed path) "." = some (slashed (path.dropLast ++ [rest]), known) :=
    Text.splitLast_eq_some_iff.mpr ⟨slashed_end nonempty last, not_dot_of_extension known among⟩
  have ends : Text.endsWith (slashed (path.dropLast ++ [rest])) "/" = false := by
    rw [← Bool.not_eq_true, endsWith_slashed (not_slash_of_end named nonempty last), not_and_not_right]
    exact fun empty => kept.resolve_left (not_not.mpr empty)
  simp [scriptStem, cut, among, ends]

theorem scriptStem_of_keeps (named : ∀ n ∈ path, Named n) (nonempty : path ≠ [])
    (keeps : ∀ rest, ¬ LosesEnd path rest) : scriptStem (slashed path) = slashed path := by
  rw [scriptStem]
  split
  · rename_i stem ext cut
    split
    · rename_i taken
      simp only [Bool.and_eq_true, decide_eq_true_eq, Bool.not_eq_true'] at taken
      obtain ⟨known, inner⟩ := taken
      obtain ⟨whole, -⟩ := Text.splitLast_eq_some_iff.mp cut
      obtain ⟨rest, last, -⟩ := last_of_extension (not_slash_of_extension ext known) whole
      have front : stem = slashed (path.dropLast ++ [rest]) := by
        rw [slashed_end nonempty last, String.append_assoc, String.append_assoc] at whole
        exact ((String.append_left_inj _).mp whole).symm
      rw [front, ← Bool.not_eq_true, endsWith_slashed (not_slash_of_end named nonempty last),
        not_and_not_right] at inner
      exact absurd ⟨ext, known, last, not_or_of_imp inner⟩ (keeps rest)
    · rfl
  · rfl

/-- What is left of the name is too short for the name and another extension to be found behind it. -/
theorem not_same_end {e x : String} (nonempty : path ≠ []) (loses : LosesEnd path rest)
    (plain : '.' ∉ x.toList) : slashed path ++ "." ++ e ≠ slashed (path.dropLast ++ [rest]) ++ "." ++ x := by
  obtain ⟨known, -, last, -⟩ := loses
  intro same
  simp only [slashed_end nonempty last, String.append_assoc, String.append_right_inj] at same
  exact plain (by simp [← same])

/- What an import of a script comes to -/

/-- Under this name there is a script with this extension, and nothing else that the name could mean. -/
structure Sole (p : Project) (base e : String) : Prop where
  plain : '.' ∉ e.toList
  script : IsScript (base ++ "." ++ e)
  present : base ++ "." ++ e ∈ p.files
  bare : base ∉ p.files
  others (x : String) : '.' ∉ x.toList → IsScript (base ++ "." ++ x) → base ++ "." ++ x ∈ p.files → x = e
  index (x : String) :
    '.' ∉ x.toList → IsScript (base ++ "/index." ++ x) → base ++ "/index." ++ x ∉ p.files

theorem sole_of_only {p : Project} {base e : String} (plain : '.' ∉ e.toList)
    (script : IsScript (base ++ "." ++ e)) (present : base ++ "." ++ e ∈ p.files)
    (only : ∀ f ∈ p.files, base.toList <+: f.toList → f = base ++ "." ++ e) : Sole p base e where
  plain := plain
  script := script
  present := present
  bare held := by simpa [← String.toList_inj] using only _ held (List.prefix_refl _)
  others x _ _ held := by simpa [← String.toList_inj] using only _ held (by simp)
  index x _ _ held := by simpa [← String.toList_inj] using only _ held (by simp)

namespace Project

variable {p : Project} {base e found : String}

/-- The paths that an import is looked for as. -/
def scriptPaths (base stem : String) : List String :=
  base :: (scriptExtensions.map fun e => stem ++ "." ++ e)
    ++ scriptExtensions.map fun e => base ++ "/index." ++ e

theorem script?_eq {importer source : String} (relative : Text.startsWith source "." = true)
    (leads : normalize (parent importer ++ "/" ++ source) = base) :
    p.script? importer source = p.first? (scriptPaths base (scriptStem base)) := by
  rw [script?, relative, leads]
  rfl

theorem mem_scriptPaths {stem : String} : found ∈ scriptPaths base stem ↔
    found = base ∨ (∃ x ∈ scriptExtensions, found = stem ++ "." ++ x) ∨
      ∃ x ∈ scriptExtensions, found = base ++ "/index." ++ x := by
  simp [scriptPaths, eq_comm]

/-- Of the paths that are looked for only those behind the stem can be files. -/
theorem first?_scriptPaths {stem : String} (sole : Sole p base e)
    (held : p.first? (scriptPaths base stem) = some found) :
    found ∈ p.files ∧ ∃ x ∈ scriptExtensions, found = stem ++ "." ++ x := by
  have present := mem_first? held
  refine ⟨present, ?_⟩
  rcases mem_scriptPaths.mp (first?_mem held) with rfl | behind | ⟨x, known, rfl⟩
  · exact absurd present sole.bare
  · exact behind
  · have plain := not_dot_of_extension x known
    have script : IsScript (base ++ "/index." ++ x) := by
      have parts : base ++ "/index." ++ x = base ++ "/index" ++ "." ++ x := by
        rw [← String.toList_inj]
        simp
      rw [parts]
      exact (isScript_iff plain).mpr (Or.inl known)
    exact absurd present (sole.index x plain script)

theorem first?_of_sole (sole : Sole p base e) :
    p.first? (scriptPaths base base) = if e ∈ scriptExtensions then some (base ++ "." ++ e) else none := by
  have only {found : String} (held : p.first? (scriptPaths base base) = some found) :
      e ∈ scriptExtensions ∧ found = base ++ "." ++ e := by
    obtain ⟨present, x, known, rfl⟩ := first?_scriptPaths sole held
    have plain := not_dot_of_extension x known
    obtain rfl := sole.others x plain ((isScript_iff plain).mpr (Or.inl known)) present
    exact ⟨known, rfl⟩
  cases held : p.first? (scriptPaths base base) with
  | some found =>
    obtain ⟨known, rfl⟩ := only held
    rw [if_pos known]
  | none =>
    split
    · rename_i known
      have among : base ++ "." ++ e ∈ scriptPaths base base :=
        mem_scriptPaths.mpr (Or.inr (Or.inl ⟨e, known, rfl⟩))
      have missed := List.find?_eq_none.mp held _ among
      exact absurd (decide_eq_true sole.present) missed
    · rfl

variable {dirs names : List String} {file : String}

theorem target?_script {l : Language} (script : l ∈ scriptLanguages) (importer source : String) :
    p.target? importer l.name source = (p.script? importer source).filter (· ≠ importer) := by
  simp only [scriptLanguages, List.mem_cons, List.not_mem_nil, or_false] at script
  rcases script with rfl | rfl | rfl <;> rfl

/-- Names behind a dot are followed from the directory of the importing file. -/
theorem normalize_here (named : ∀ n ∈ dirs ++ [file], Named n) (below : ∀ n ∈ names, Named n) :
    normalize (parent (slashed (dirs ++ [file])) ++ "/" ++ ("./" ++ slashed names)) =
      slashed (dirs ++ names) := by
  have above : ∀ n ∈ dirs, Named n := fun n member => named n (List.mem_append_left _ member)
  have here : segments ("./" ++ slashed names) = names := by
    have text : "./" ++ slashed names = "." ++ "/" ++ slashed names := by
      rw [← String.toList_inj]
      simp
    rw [text, segments_join, segments_slashed below]
    rfl
  have plain : ".." ∉ dirs ++ names := by
    rw [List.mem_append, not_or]
    exact ⟨not_up_of_named above, not_up_of_named below⟩
  have settled : settleFrom [] (dirs ++ names) = dirs ++ names := by
    have all : settleFrom [] (dirs ++ names ++ []) = settleFrom ((dirs ++ names).reverse ++ []) [] :=
      settleFrom_names plain
    simpa [settleFrom_nil] using all
  rw [parent_slashed named, normalize_eq, segments_join, segments_slashed above, here, settled]

end Project

/-- An import by the name of a script means the script exactly when its extension is tried and the name
keeps its end. A name that keeps its end never means another file; one that loses it means at most a file
that is named by what is left of it. -/
theorem script_imported {p : Project} {dirs names : List String} {file e : String} {l : Language}
    (named : ∀ n ∈ dirs ++ [file], Named n) (below : ∀ n ∈ names, Named n) (nonempty : names ≠ [])
    (script : l ∈ scriptLanguages) (sole : Sole p (slashed (dirs ++ names)) e)
    (other : slashed (dirs ++ names) ++ "." ++ e ≠ slashed (dirs ++ [file])) :
    (p.target? (slashed (dirs ++ [file])) l.name ("./" ++ slashed names) =
        some (slashed (dirs ++ names) ++ "." ++ e) ↔
      e ∈ scriptExtensions ∧ ∀ rest, ¬ LosesEnd (dirs ++ names) rest) ∧
    ∀ found, p.target? (slashed (dirs ++ [file])) l.name ("./" ++ slashed names) = some found →
      found ≠ slashed (dirs ++ names) ++ "." ++ e →
      ∃ rest, LosesEnd (dirs ++ names) rest ∧
        ∃ x ∈ scriptExtensions, found = slashed ((dirs ++ names).dropLast ++ [rest]) ++ "." ++ x := by
  have all : ∀ n ∈ dirs ++ names, Named n := fun n member =>
    (List.mem_append.mp member).elim (fun above => named n (List.mem_append_left _ above)) (below n)
  have nonempty : dirs ++ names ≠ [] := by simp [nonempty]
  have searched := Project.target?_script script (p := p) (slashed (dirs ++ [file])) ("./" ++ slashed names)
  have relative : Text.startsWith ("./" ++ slashed names) "." = true := by simp [Text.startsWith]
  rw [Project.script?_eq relative (Project.normalize_here named below)] at searched
  rw [searched]
  by_cases keeps : ∀ rest, ¬ LosesEnd (dirs ++ names) rest
  · rw [scriptStem_of_keeps all nonempty keeps, Project.first?_of_sole sole, and_iff_left keeps]
    by_cases known : e ∈ scriptExtensions
    · simp [known, other, Option.filter]
    · simp [known]
  · obtain ⟨rest, loses⟩ := not_forall_not.mp keeps
    rw [scriptStem_of_loses all nonempty loses]
    have behind {found : String}
        (held : (p.first? (Project.scriptPaths (slashed (dirs ++ names))
          (slashed ((dirs ++ names).dropLast ++ [rest])))).filter (· ≠ slashed (dirs ++ [file])) = some found) :
        ∃ x ∈ scriptExtensions, found = slashed ((dirs ++ names).dropLast ++ [rest]) ++ "." ++ x :=
      (Project.first?_scriptPaths sole (Option.eq_some_of_filter_eq_some held)).2
    refine ⟨iff_of_false (fun held => ?_) fun both => keeps both.2,
      fun found held _ => ⟨rest, loses, behind held⟩⟩
    obtain ⟨x, tried, same⟩ := behind held
    exact not_same_end nonempty loses (not_dot_of_extension x tried) same

/-- Scripts of every kind of name beside the file that imports them. -/
def beside : Project := ⟨["lib/a.ts", "lib/b.js.ts", "lib/m.mts", "lib/x.y.tsx"], none⟩

theorem script_imported_beside :
    (Sole beside "lib/x.y" "tsx" ∧
      beside.target? "lib/a.ts" "typescript" "./x.y" = some "lib/x.y.tsx") ∧
    (Sole beside "lib/m" "mts" ∧
      beside.target? "lib/a.ts" "typescript" "./m" ≠ some "lib/m.mts") := by
  have named (n : String) (member : n ∈ ["lib", "a.ts", "x.y", "m"]) : Named n := by
    simp only [List.mem_cons, List.not_mem_nil, or_false] at member
    rcases member with rfl | rfl | rfl | rfl <;> exact ⟨by decide, by decide, by decide, by decide⟩
  have above : ∀ n ∈ ["lib"] ++ ["a.ts"], Named n := by simp [named]
  have keeps (rest : String) : ¬ LosesEnd ["lib", "x.y"] rest := by
    rintro ⟨known, among, last, -⟩
    have cut := Text.splitLast_eq_some_iff.mpr ⟨last, not_dot_of_extension known among⟩
    have parts : Text.splitLast? "x.y" "." = some ("x", "y") := by decide +kernel
    obtain ⟨-, rfl⟩ := Prod.mk.inj (Option.some.inj (parts.symm.trans cut))
    exact absurd among (by decide)
  have tried : Sole beside "lib/x.y" "tsx" :=
    sole_of_only (by decide) ((isScript_iff (by decide)).mpr (by decide)) (by decide) (by decide)
  have untried : Sole beside "lib/m" "mts" :=
    sole_of_only (by decide) ((isScript_iff (by decide)).mpr (by decide)) (by decide) (by decide)
  have dotted : ∀ n ∈ ["x.y"], Named n := by simp [named]
  have single : ∀ n ∈ ["m"], Named n := by simp [named]
  have found := script_imported (l := .typeScript) above dotted (by decide) (by decide) tried (by decide)
  have missed := script_imported (l := .typeScript) above single (by decide) (by decide) untried (by decide)
  exact ⟨⟨tried, found.1.mpr ⟨by decide, keeps⟩⟩,
    ⟨untried, fun held => absurd (missed.1.mp held).1 (by decide)⟩⟩

/-- Neither of these scripts is found by its name. -/
theorem scripts_unimported :
    Sole beside "lib/m" "mts" ∧ beside.target? "lib/a.ts" "typescript" "./m" = none ∧
      Sole beside "lib/b.js" "ts" ∧ beside.target? "lib/a.ts" "typescript" "./b.js" = none :=
  ⟨sole_of_only (by decide) ((isScript_iff (by decide)).mpr (by decide)) (by decide) (by decide),
    by decide +kernel,
    sole_of_only (by decide) ((isScript_iff (by decide)).mpr (by decide)) (by decide) (by decide),
    by decide +kernel⟩

end CodeAgent.Resolve
