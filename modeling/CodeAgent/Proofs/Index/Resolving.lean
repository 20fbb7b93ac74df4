import CodeAgent.Proofs.Index.Graph
import CodeAgent.Proofs.Path.Parent

/-! Imports resolved once and for all.
What an import means depends on the files and on its source alone, not on its kind; so settling the
imports of all outlines gives exactly the edges that the imports mean, turns the kinds of those that
mean a file, and has nothing left to do when it is done again. The searches that a resolution makes on
its way go up through directories or along a path, and each of them arrives. -/
namespace CodeAgent

namespace Resolve.Project

variable {p : Project}

/- Going up to the crate root -/

/-- A crate has its root file in the directory. -/
def HasRoot (p : Project) (dir : String) : Prop :=
  joinDir dir "lib.rs" ∈ p.files ∨ joinDir dir "main.rs" ∈ p.files

/-- The search for a crate root, step by step: it is here, or there is none up to the top, or the search
goes on one directory up. -/
inductive RootSearch (p : Project) : String → Option String → Prop where
  | here {dir : String} (root : HasRoot p dir) : RootSearch p dir (some dir)
  | top (absent : ¬ HasRoot p "") : RootSearch p "" none
  | up {dir : String} {found : Option String} (absent : ¬ HasRoot p dir) (below : dir ≠ "")
      (search : RootSearch p (Path.parent dir) found) : RootSearch p dir found

theorem rootSearch_crateRoot? {fuel : Nat} {dir : String} (enough : dir.length < fuel) :
    RootSearch p dir (p.crateRoot? fuel dir) := by
  induction fuel generalizing dir with
  | zero => cases enough
  | succ fuel ih =>
    have root : (["lib.rs", "main.rs"].any (joinDir dir · ∈ p.files)) = true ↔ HasRoot p dir := by
      simp [HasRoot]
    rw [crateRoot?]
    split
    · rename_i held
      exact .here (root.mp held)
    · rename_i none
      have none : ¬ HasRoot p dir := mt root.mpr none
      split
      · rename_i top
        obtain rfl : dir = "" := by simpa using top
        exact .top none
      · rename_i below
        have below : dir ≠ "" := by simpa using below
        have shorter := Path.length_parent_lt below
        exact .up none below (ih (by omega))

theorem RootSearch.unique {dir : String} {found found' : Option String}
    (search : RootSearch p dir found) (search' : RootSearch p dir found') : found = found' := by
  induction search with
  | here root =>
    cases search' with
    | here => rfl
    | top none => exact absurd root none
    | up none => exact absurd root none
  | top none =>
    cases search' with
    | here root => exact absurd root none
    | top => rfl
    | up _ below => exact absurd rfl below
  | up none below _ ih =>
    cases search' with
    | here root => exact absurd root none
    | top => exact absurd rfl below
    | up _ _ search => exact ih search

theorem length_parent_le (path : String) : (Path.parent path).length ≤ path.length := by
  by_cases empty : path = ""
  · rw [empty]
    exact Nat.le_refl _
  · exact Nat.le_of_lt (Path.length_parent_lt empty)

/-- Whatever the search for the crate root of a file comes to, that is what is taken. -/
theorem crateRoot?_eq_iff (importer : String) (found : Option String) :
    p.crateRoot? (importer.length + 1) (Path.parent importer) = found ↔
      RootSearch p (Path.parent importer) found := by
  have ended : RootSearch p (Path.parent importer)
      (p.crateRoot? (importer.length + 1) (Path.parent importer)) :=
    rootSearch_crateRoot? (Nat.lt_succ_of_le (length_parent_le importer))
  constructor
  · rintro rfl
    exact ended
  · exact ended.unique

/- Going up a chain of parents -/

theorem supers_eq (dir : String) (segments : List String) :
    ∃ k rest, segments = List.replicate k "super" ++ rest ∧ rest.head? ≠ some "super" ∧
      supers dir segments = (up k dir, rest) := by
  induction segments generalizing dir with
  | nil => exact ⟨0, [], rfl, by simp, rfl⟩
  | cons s rest ih =>
    by_cases parent : s = "super"
    · subst parent
      obtain ⟨k, rest', whole, stops, ended⟩ := ih (Path.parent dir)
      exact ⟨k + 1, rest', by rw [whole]; rfl, stops, by rw [supers, ended]; rfl⟩
    · refine ⟨0, s :: rest, rfl, by simpa using parent, ?_⟩
      rw [supers]
      · rfl
      · rintro _ same
        exact parent (List.cons.inj same).1

/- Going back along a path -/

/-- The file of the module that is named so below a directory. -/
def moduleFile? (p : Project) (dir : String) (names : List String) : Option String :=
  p.first? [joinDir dir (Path.slashed names) ++ ".rs", joinDir dir (Path.slashed names) ++ "/mod.rs"]

theorem first?_mem {candidates : List String} {found : String} (held : p.first? candidates = some found) :
    found ∈ candidates := List.mem_of_find?_eq_some held

theorem moduleFile?_eq {dir found : String} {names : List String}
    (held : p.moduleFile? dir names = some found) :
    found = joinDir dir (Path.slashed names) ++ ".rs" ∨
      found = joinDir dir (Path.slashed names) ++ "/mod.rs" :=
  List.mem_pair.mp (first?_mem held)

theorem longestModule?_succ (dir : String) (segments : List String) (n : Nat) :
    p.longestModule? dir segments (n + 1) =
      (p.moduleFile? dir (segments.take (n + 1))).or (p.longestModule? dir segments n) := by
  rw [longestModule?, moduleFile?]
  split
  · rename_i held
    rw [held, Option.some_or]
  · rename_i none
    rw [none, Option.none_or]

/-- The longest beginning of up to `n` names that is a module decides. -/
theorem longestModule?_eq_some_iff {dir found : String} {segments : List String} {n : Nat} :
    p.longestModule? dir segments n = some found ↔
      ∃ k, 0 < k ∧ k ≤ n ∧ p.moduleFile? dir (segments.take k) = some found ∧
        ∀ m, k < m → m ≤ n → p.moduleFile? dir (segments.take m) = none := by
  induction n with
  | zero =>
    constructor
    · intro wrong
      cases wrong
    · rintro ⟨k, positive, small, -⟩
      omega
  | succ n ih =>
    rw [longestModule?_succ, Option.or_eq_some_iff, ih]
    constructor
    · rintro (held | ⟨none, k, positive, small, held, later⟩)
      · exact ⟨n + 1, Nat.succ_pos n, Nat.le_refl _, held, fun m more small => by omega⟩
      · refine ⟨k, positive, Nat.le_succ_of_le small, held, fun m more small => ?_⟩
        rcases Nat.lt_or_eq_of_le small with shorter | rfl
        · exact later m more (Nat.le_of_lt_succ shorter)
        · exact none
    · rintro ⟨k, positive, small, held, later⟩
      rcases Nat.lt_or_eq_of_le small with shorter | rfl
      · exact Or.inr ⟨later (n + 1) shorter (Nat.le_refl _), k, positive, Nat.le_of_lt_succ shorter,
          held, fun m more small => later m more (Nat.le_succ_of_le small)⟩
      · exact Or.inl held

/-- What the searches of a resolution come to, from whatever file and along whatever path. -/
structure SearchesEnd (p : Project) : Prop where
  crateRoot (importer : String) (found : Option String) :
    p.crateRoot? (importer.length + 1) (Path.parent importer) = found ↔
      RootSearch p (Path.parent importer) found
  parents (dir : String) (segments : List String) :
    ∃ k rest, segments = List.replicate k "super" ++ rest ∧ rest.head? ≠ some "super" ∧
      supers dir segments = (up k dir, rest)
  longestModule (dir found : String) (segments : List String) :
    p.longestModule? dir segments segments.length = some found ↔
      ∃ k, 0 < k ∧ k ≤ segments.length ∧ p.moduleFile? dir (segments.take k) = some found ∧
        ∀ m, k < m → m ≤ segments.length → p.moduleFile? dir (segments.take m) = none

theorem ne_of_target? {importer language source found : String}
    (held : p.target? importer language source = some found) : found ≠ importer := by
  simpa using (Option.filter_eq_some_iff.mp held).2

end Resolve.Project

namespace Index

variable {p : Resolve.Project} {path language : String}

/-- An import and what is left of it: its kind is internal as soon as it means a file. -/
structure Upgraded (p : Resolve.Project) (path language : String) (i i' : Import) : Prop where
  only : { i' with kind := i.kind } = i
  internal : i'.kind = .internal ↔
    i.kind = .internal ∨ ∃ target, p.target? path language i.source = some target
  otherwise : i'.kind ≠ .internal → i'.kind = i.kind

theorem upgraded_settleImport (i : Import) :
    Upgraded p path language i (settleImport p path language i).1 := by
  rw [settleImport]
  split
  · rename_i target meant
    exact ⟨rfl, by simp [meant], fun other => absurd rfl other⟩
  · rename_i none
    exact ⟨rfl, by simp [none], fun _ => rfl⟩

theorem settleImport_settled (i : Import) :
    settleImport p path language (settleImport p path language i).1 =
      settleImport p path language i := by
  have source : (settleImport p path language i).1.source = i.source := by
    rw [settleImport]
    split <;> rfl
  cases meant : p.target? path language i.source with
  | some target => simp [settleImport, meant]
  | none => simp [settleImport, meant]

theorem settleOutline_settled (o : Outline) :
    settleOutline p path (settleOutline p path o) = settleOutline p path o := by
  simp [settleOutline, settleImport_settled]

theorem targets_settled (o : Outline) : targets p path (settleOutline p path o) = targets p path o := by
  have same : (fun i => (settleImport p path o.language i).2.map fun t => (t, ())) ∘
      (fun i => (settleImport p path o.language i).1) =
        fun i => (settleImport p path o.language i).2.map fun t => (t, ()) := by
    funext i
    rw [Function.comp_apply, settleImport_settled]
  rw [targets, targets, settleOutline, List.filterMap_map]
  exact congrArg (fun f => (Table.ofList (o.imports.filterMap f)).keys) same

/-- The outlines after their imports were settled, and the edges, against the outlines before. -/
structure Settled (p : Resolve.Project) (before after : Table Outline)
    (edges : Table (List String)) : Prop where
  listed : edges.keys = before.keys
  ascending (path : String) (ts : List String) : edges.get? path = some ts → ts.Pairwise (· < ·)
  /-- A file's edges are what its imports mean. -/
  meant (path : String) (o : Outline) (ts : List String) :
    before.get? path = some o → edges.get? path = some ts →
      ∀ t, t ∈ ts ↔ ∃ i ∈ o.imports, p.target? path o.language i.source = some t
  inside (path : String) (ts : List String) :
    edges.get? path = some ts → ∀ t ∈ ts, t ∈ p.files ∧ t ≠ path
  kept : after.keys = before.keys
  /-- Nothing but kinds of imports is another. -/
  upgraded (path : String) (o o' : Outline) :
    before.get? path = some o → after.get? path = some o' →
      { o' with imports := o.imports } = o ∧
        List.Forall₂ (Upgraded p path o.language) o.imports o'.imports

theorem keys_mapValues (t : Table α) (f : String → α → β) : (t.mapValues f).keys = t.keys := by
  simp [Table.keys, Table.mapValues]

theorem settled_settle (p : Resolve.Project) (outlines : Table Outline) :
    Settled p outlines (settle p outlines).1 (settle p outlines).2 where
  listed := keys_mapValues outlines _
  ascending path ts held := by
    obtain ⟨o, -, rfl⟩ := Option.map_eq_some_iff.mp ((Table.get?_mapValues _).symm.trans held)
    exact ascending_targets
  meant path o ts before held t := by
    obtain ⟨o', before', rfl⟩ := Option.map_eq_some_iff.mp ((Table.get?_mapValues _).symm.trans held)
    obtain rfl := Option.some.inj (before.symm.trans before')
    exact mem_targets_iff
  inside path ts held t target := by
    obtain ⟨o, -, rfl⟩ := Option.map_eq_some_iff.mp ((Table.get?_mapValues _).symm.trans held)
    obtain ⟨i, -, meant⟩ := mem_targets_iff.mp target
    exact ⟨Resolve.Project.mem_target? meant, Resolve.Project.ne_of_target? meant⟩
  kept := keys_mapValues outlines _
  upgraded path o o' before held := by
    obtain ⟨o₁, before', rfl⟩ := Option.map_eq_some_iff.mp ((Table.get?_mapValues _).symm.trans held)
    obtain rfl := Option.some.inj (before.symm.trans before')
    exact ⟨rfl, List.forall₂_map_right_iff.mpr (List.forall₂_same.mpr fun i _ => upgraded_settleImport i)⟩

theorem settle_settled (p : Resolve.Project) (outlines : Table Outline) :
    settle p (settle p outlines).1 = settle p outlines := by
  refine Prod.ext (Table.ext_get? fun path => ?_) (Table.ext_get? fun path => ?_)
  · simp only [settle, Table.get?_mapValues, Option.map_map]
    exact congrFun (congrArg Option.map (funext settleOutline_settled)) _
  · simp only [settle, Table.get?_mapValues, Option.map_map]
    exact congrFun (congrArg Option.map (funext targets_settled)) _

/-- Settling the imports of outlines gives each file the edges that its imports mean and no others, and
leaves the outlines as they were but for the kinds of those imports; settling them again gives the same.
None of the searches on the way goes on forever. -/
theorem settle_exact (p : Resolve.Project) (outlines : Table Outline) :
    Settled p outlines (settle p outlines).1 (settle p outlines).2 ∧
      settle p (settle p outlines).1 = settle p outlines ∧ p.SearchesEnd :=
  ⟨settled_settle p outlines, settle_settled p outlines, ⟨Resolve.Project.crateRoot?_eq_iff,
    Resolve.Project.supers_eq, fun _ _ _ => Resolve.Project.longestModule?_eq_some_iff⟩⟩

end Index

end CodeAgent
