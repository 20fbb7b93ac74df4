import CodeAgent.Proofs.Path.Canonical
import CodeAgent.Proofs.Project.Contents
import Mathlib

/-! What an indented tree says about the files in it.
Its lines, read from the top with the directories that are open, name the files and directories down to a
depth; what lies deeper is in the numbers of the directories that are not opened. -/
namespace CodeAgent.Listing

/- The lines of a tree -/

/-- What a line stands for: a file, a directory with what is in it below, or one that is counted only. -/
inductive Entry where
  | file
  | opened
  | closed (files : Nat)
deriving DecidableEq

def Entry.isFile : Entry → Bool
  | file => true
  | _ => false

/-- The files that a line counts without a line for each. -/
def Entry.counted : Entry → Nat
  | closed files => files
  | _ => 0

structure Line where
  depth : Nat
  name : String
  entry : Entry
deriving DecidableEq

def Line.text (l : Line) : String :=
  match l.entry with
  | .file => indent l.depth ++ l.name
  | .opened => indent l.depth ++ l.name ++ "/"
  | .closed files => indent l.depth ++ l.name ++ "/ (" ++ toString files ++ " files)"

/-- A line with the directories that it stands in. -/
structure Row where
  above : List String
  name : String
  entry : Entry
deriving DecidableEq

namespace Row

def full (r : Row) : List String := r.above ++ [r.name]

/-- As deep as the directories above it. -/
def line (r : Row) : Line := ⟨r.above.length, r.name, r.entry⟩

theorem length_full (r : Row) : r.full.length = r.above.length + 1 := by
  rw [full, List.length_append, List.length_singleton]

end Row

/-- Reads lines from the top. A line stands in the directories that are open as far as its depth, and
opens one more when it is a directory's. -/
def readRows (opened : List String) : List Line → List Row
  | [] => []
  | l :: rest =>
    let above := opened.take l.depth
    ⟨above, l.name, l.entry⟩ :: readRows (if l.entry = .opened then above ++ [l.name] else above) rest

mutual

/-- The rows of a tree below some directories, down to a depth. -/
def rows (above : List String) (maxDepth : Nat) : Listing → List Row
  | mk ds fs => directoryRows above maxDepth ds ++ fs.map (⟨above, ·, .file⟩)

def directoryRows (above : List String) (maxDepth : Nat) : List (String × Listing) → List Row
  | [] => []
  | (name, t) :: rest =>
    (if above.length + 1 ≥ maxDepth then [⟨above, name, .closed t.count⟩]
      else ⟨above, name, .opened⟩ :: rows (above ++ [name]) maxDepth t)
    ++ directoryRows above maxDepth rest

end

section

variable {maxDepth : Nat}

theorem linesAt_eq (above : List String) (t : Listing) :
    linesAt above.length maxDepth t = (rows above maxDepth t).map (·.line.text) := by
  induction t using induction generalizing above with
  | step ds fs each =>
    have inside : directoryLines above.length maxDepth ds =
        (directoryRows above maxDepth ds).map (·.line.text) := by
      induction ds with
      | nil => rfl
      | cons d ds ih =>
        obtain ⟨name, t⟩ := d
        obtain ⟨first, rest⟩ := List.forall_mem_cons.mp each
        rw [directoryLines, directoryRows, List.map_append, ih rest]
        congr 1
        split
        · rfl
        · have deeper := first (above ++ [name])
          rw [List.length_append, List.length_singleton] at deeper
          rw [List.map_cons, ← deeper]
          rfl
    rw [linesAt, rows, List.map_append, inside, List.map_map]
    rfl

/-- Rows are read back from their lines below the directories they stand in, which are open after them. -/
def Reads (above : List String) (part : List Row) : Prop :=
  ∀ opened rest, opened.take above.length = above →
    ∃ opened', opened'.take above.length = above ∧
      readRows opened (part.map Row.line ++ rest) = part ++ readRows opened' rest

namespace Reads

variable {above : List String} {part more : List Row}

theorem nil : Reads above [] := fun opened _ below => ⟨opened, below, rfl⟩

theorem append (first : Reads above part) (second : Reads above more) : Reads above (part ++ more) := by
  intro opened rest below
  obtain ⟨opened₁, below₁, read₁⟩ := first opened (more.map Row.line ++ rest) below
  obtain ⟨opened₂, below₂, read₂⟩ := second opened₁ rest below₁
  refine ⟨opened₂, below₂, ?_⟩
  rw [List.map_append, List.append_assoc, read₁, read₂, List.append_assoc]

theorem shut {name : String} {entry : Entry} (shut : entry ≠ .opened) :
    Reads above [⟨above, name, entry⟩] := by
  intro opened rest below
  refine ⟨above, List.take_length, ?_⟩
  simp only [Row.line, List.map_cons, List.map_nil, List.cons_append, List.nil_append, readRows, below,
    if_neg shut]

theorem opening {name : String} (inside : Reads (above ++ [name]) part) :
    Reads above (⟨above, name, .opened⟩ :: part) := by
  intro opened rest below
  obtain ⟨opened', below', read⟩ := inside (above ++ [name]) rest List.take_length
  refine ⟨opened', ?_, ?_⟩
  · have shorter := congrArg (List.take above.length) below'
    rwa [List.take_take, List.take_left, List.length_append, List.length_singleton,
      Nat.min_eq_left (Nat.le_succ _)] at shorter
  · simp only [Row.line, List.map_cons, List.cons_append, readRows, below, if_true]
    rw [← read]

end Reads

theorem reads_rows (above : List String) (t : Listing) : Reads above (rows above maxDepth t) := by
  induction t using induction generalizing above with
  | step ds fs each =>
    refine Reads.append ?_ ?_
    · induction ds with
      | nil => exact .nil
      | cons d ds ih =>
        obtain ⟨first, rest⟩ := List.forall_mem_cons.mp each
        refine Reads.append ?_ (ih rest)
        split
        · exact .shut nofun
        · exact .opening (first _)
    · induction fs with
      | nil => exact .nil
      | cons f fs ih =>
        have first : Reads above [⟨above, f, .file⟩] := .shut nofun
        exact first.append ih

theorem readRows_rows (t : Listing) : readRows [] ((rows [] maxDepth t).map Row.line) = rows [] maxDepth t := by
  have reads : Reads [] (rows [] maxDepth t) := reads_rows [] t
  obtain ⟨opened, -, read⟩ := reads [] [] rfl
  rwa [List.append_nil, readRows, List.append_nil] at read

end

/- What the rows tell -/

/-- A directory and what lies in it, however deep. -/
def Inside (d p : List String) : Prop := d <+: p ∧ d.length < p.length

instance (d p : List String) : Decidable (Inside d p) :=
  inferInstanceAs (Decidable (d <+: p ∧ d.length < p.length))

def under (d : List String) (paths : List (List String)) : List (List String) :=
  paths.filter fun p => Inside d p

theorem contentsIn_eq (ds : List (String × Listing)) :
    contentsIn ds = ds.flatMap fun d => d.2.contents.map (d.1 :: ·) := by
  induction ds with
  | nil => rfl
  | cons d ds ih => rw [contentsIn, ih, List.flatMap_cons]

theorem directoryRows_eq (above : List String) (maxDepth : Nat) (ds : List (String × Listing)) :
    directoryRows above maxDepth ds = ds.flatMap fun d =>
      if above.length + 1 ≥ maxDepth then [⟨above, d.1, .closed d.2.count⟩]
      else ⟨above, d.1, .opened⟩ :: rows (above ++ [d.1]) maxDepth d.2 := by
  induction ds with
  | nil => rfl
  | cons d ds ih => rw [directoryRows, ih, List.flatMap_cons]

theorem under_map (name : String) (d : List String) (paths : List (List String)) :
    under (name :: d) (paths.map (name :: ·)) = (under d paths).map (name :: ·) := by
  rw [under, under, List.filter_map]
  congr 2
  funext p
  exact decide_eq_decide.mpr (by simp [Inside])

theorem under_other {name other : String} (apart : other ≠ name) (d : List String)
    (paths : List (List String)) : under (name :: d) (paths.map (other :: ·)) = [] := by
  rw [under, List.filter_map, List.map_eq_nil_iff, List.filter_eq_nil_iff]
  intro p _
  simp [Inside, Ne.symm apart]

theorem under_nil {paths : List (List String)} (named : ∀ p ∈ paths, p ≠ []) : under [] paths = paths := by
  rw [under, List.filter_eq_self]
  intro p member
  simp [Inside, List.length_pos_iff.mpr (named p member)]

/-- Of a tree's files those below one of its directories are that directory's. -/
theorem under_contents {ds : List (String × Listing)} {fs : List String} {e : String × Listing}
    (ascending : Entries.Ascending ds) (member : e ∈ ds) (d : List String) :
    under (e.1 :: d) (mk ds fs).contents = (under d e.2.contents).map (e.1 :: ·) := by
  have own : under (e.1 :: d) (fs.map ([·])) = [] := by
    rw [under, List.filter_map, List.map_eq_nil_iff, List.filter_eq_nil_iff]
    intro f _
    simp [Inside]
  have inside : under (e.1 :: d) (contentsIn ds) = (under d e.2.contents).map (e.1 :: ·) := by
    induction ds with
    | nil => cases member
    | cons first ds ih =>
      obtain ⟨below, tail⟩ := List.pairwise_cons.mp ascending
      rw [contentsIn, under, List.filter_append, ← under, ← under]
      rcases List.mem_cons.mp member with rfl | later
      · have rest : under (e.1 :: d) (contentsIn ds) = [] := by
          rw [contentsIn_eq, under, List.filter_eq_nil_iff]
          intro p among
          obtain ⟨e', later, q⟩ := List.mem_flatMap.mp among
          obtain ⟨q, -, rfl⟩ := List.mem_map.mp q
          have apart : e.1 ≠ e'.1 := fun same => String.lt_irrefl _ (same ▸ below e' later)
          simp [Inside, apart]
        rw [under_map, rest, List.append_nil]
      · have apart : first.1 ≠ e.1 := fun same => String.lt_irrefl _ (same ▸ below e later)
        rw [under_other apart, List.nil_append, ih tail later]
  rw [contents, under, List.filter_append, ← under, ← under, own, inside, List.append_nil]

/-- What an entry tells of a file or a directory, when so many levels are left to show. -/
def Tells (levels : Nat) (paths : List (List String)) (d : List String) : Entry → Prop
  | .file => d.length ≤ levels ∧ d ∈ paths
  | .opened => d.length < levels ∧ under d paths ≠ []
  | .closed files => d.length = levels ∧ files = (under d paths).length ∧ under d paths ≠ []

theorem Tells.deeper {levels : Nat} {ds : List (String × Listing)} {fs : List String}
    {e : String × Listing} {d : List String} {entry : Entry} (ascending : Entries.Ascending ds)
    (member : e ∈ ds) (tells : Tells levels e.2.contents d entry) :
    Tells (levels + 1) (mk ds fs).contents (e.1 :: d) entry := by
  have below : under (e.1 :: d) (mk ds fs).contents = _ := under_contents ascending member d
  cases entry with
  | file =>
    refine ⟨Nat.succ_le_succ tells.1, ?_⟩
    rw [contents, contentsIn_eq]
    exact List.mem_append_left _ (List.mem_flatMap.mpr ⟨e, member, List.mem_map_of_mem tells.2⟩)
  | opened =>
    refine ⟨Nat.succ_lt_succ tells.1, ?_⟩
    rw [below]
    exact mt List.map_eq_nil_iff.mp tells.2
  | closed files =>
    refine ⟨congrArg (· + 1) tells.1, ?_, ?_⟩
    · rw [below, List.length_map]
      exact tells.2.1
    · rw [below]
      exact mt List.map_eq_nil_iff.mp tells.2.2

section

variable {maxDepth : Nat}

theorem tells_rows {t : Listing} (ordered : Ordered t) (above : List String) (levels : Nat)
    (room : maxDepth = above.length + (levels + 1)) :
    ∀ r ∈ rows above maxDepth t, ∃ d, d ≠ [] ∧ r.full = above ++ d ∧ Tells (levels + 1) t.contents d r.entry := by
  induction t using induction generalizing above levels with
  | step ds fs each =>
    cases ordered with
    | mk ascending ordered filled =>
      intro r member
      rw [rows, List.mem_append] at member
      rcases member with directory | file
      · rw [directoryRows_eq] at directory
        obtain ⟨e, among, here⟩ := List.mem_flatMap.mp directory
        have whole : under [e.1] (mk ds fs).contents = e.2.contents.map (e.1 :: ·) := by
          rw [under_contents ascending among, under_nil fun p => ne_nil_of_mem]
        have some : under [e.1] (mk ds fs).contents ≠ [] := by
          rw [whole]
          exact mt List.map_eq_nil_iff.mp (filled e among)
        split at here
        · rename_i last
          obtain rfl := List.mem_singleton.mp here
          refine ⟨[e.1], List.cons_ne_nil _ _, rfl, ?_, ?_, some⟩
          · rw [List.length_singleton]
            omega
          · rw [whole, List.length_map, count_eq]
        · rename_i deeper
          obtain ⟨levels, rfl⟩ : ∃ n, levels = n + 1 := ⟨levels - 1, by omega⟩
          rcases List.mem_cons.mp here with rfl | below
          · exact ⟨[e.1], List.cons_ne_nil _ _, rfl, by simp, some⟩
          · obtain ⟨d, named, full, tells⟩ := each e among (ordered e among) (above ++ [e.1]) levels
              (by rw [List.length_append, List.length_singleton]; omega) r below
            refine ⟨e.1 :: d, List.cons_ne_nil _ _, ?_, tells.deeper ascending among⟩
            rw [full, List.append_assoc, List.singleton_append]
      · obtain ⟨f, among, rfl⟩ := List.mem_map.mp file
        refine ⟨[f], List.cons_ne_nil _ _, rfl, by simp, ?_⟩
        rw [contents]
        exact List.mem_append_right _ (List.mem_map_of_mem among)

/-- Every directory that is not too deep has a row. -/
theorem exists_row {t : Listing} (above : List String) {d : List String} (named : d ≠ [])
    (room : above.length + d.length ≤ maxDepth) (filled : under d t.contents ≠ []) :
    ∃ r ∈ rows above maxDepth t, r.entry.isFile = false ∧ r.full = above ++ d := by
  induction t using induction generalizing above d with
  | step ds fs each =>
    obtain ⟨name, d, rfl⟩ := List.exists_cons_of_ne_nil named
    obtain ⟨p, found⟩ := List.exists_mem_of_ne_nil _ filled
    obtain ⟨among, inside⟩ := List.mem_filter.mp found
    obtain ⟨⟨rest, rfl⟩, longer⟩ := of_decide_eq_true inside
    have deep : rest ≠ [] := by
      rintro rfl
      simp at longer
    rw [contents, List.mem_append] at among
    rcases among with below | own
    · rw [contentsIn_eq] at below
      obtain ⟨e, member, q⟩ := List.mem_flatMap.mp below
      obtain ⟨q, file, same⟩ := List.mem_map.mp q
      obtain ⟨rfl, rfl⟩ := List.cons.inj same
      rw [List.length_cons] at room
      by_cases last : above.length + 1 ≥ maxDepth
      · obtain rfl : d = [] := List.eq_nil_of_length_eq_zero (by omega)
        refine ⟨⟨above, e.1, .closed e.2.count⟩, ?_, rfl, rfl⟩
        rw [rows, directoryRows_eq]
        refine List.mem_append_left _ (List.mem_flatMap.mpr ⟨e, member, ?_⟩)
        rw [if_pos last]
        exact List.mem_singleton_self _
      · have opens : ∀ r ∈ (⟨above, e.1, .opened⟩ :: rows (above ++ [e.1]) maxDepth e.2 : List Row),
            r ∈ rows above maxDepth (mk ds fs) := by
          intro r inside
          rw [rows, directoryRows_eq]
          refine List.mem_append_left _ (List.mem_flatMap.mpr ⟨e, member, ?_⟩)
          rwa [if_neg last]
        by_cases own : d = []
        · subst own
          exact ⟨_, opens _ List.mem_cons_self, rfl, rfl⟩
        · have inside : under d e.2.contents ≠ [] := by
            refine List.ne_nil_of_mem (List.mem_filter.mpr ⟨file, decide_eq_true ⟨List.prefix_append _ _, ?_⟩⟩)
            change d.length < (d ++ rest).length
            rw [List.length_append]
            exact Nat.lt_add_of_pos_right (List.length_pos_iff.mpr deep)
          obtain ⟨r, member, directory, full⟩ := each e member (above ++ [e.1]) own
            (by rw [List.length_append, List.length_singleton]; omega) inside
          exact ⟨r, opens r (List.mem_cons_of_mem _ member), directory, by rw [full, List.append_assoc]; rfl⟩
    · obtain ⟨f, -, same⟩ := List.mem_map.mp own
      have nothing : d ++ rest = [] := (List.cons.inj same).2.symm
      exact absurd (List.append_eq_nil_iff.mp nothing).2 deep

/-- The rows of files are the files that are not too deep, in their order. -/
theorem files_rows (t : Listing) (above : List String) (levels : Nat)
    (room : maxDepth = above.length + (levels + 1)) :
    ((rows above maxDepth t).filter (·.entry.isFile)).map Row.full =
      (t.contents.filter (·.length ≤ levels + 1)).map (above ++ ·) := by
  induction t using induction generalizing above levels with
  | step ds fs each =>
    have own : ((fs.map fun f => (⟨above, f, .file⟩ : Row)).filter (·.entry.isFile)).map Row.full =
        ((fs.map ([·])).filter (·.length ≤ levels + 1)).map (above ++ ·) := by
      rw [List.filter_eq_self.mpr, List.filter_eq_self.mpr, List.map_map, List.map_map]
      · rfl
      · intro p member
        obtain ⟨f, -, rfl⟩ := List.mem_map.mp member
        simp
      · intro r member
        obtain ⟨f, -, rfl⟩ := List.mem_map.mp member
        rfl
    have inside : ((directoryRows above maxDepth ds).filter (·.entry.isFile)).map Row.full =
        ((contentsIn ds).filter (·.length ≤ levels + 1)).map (above ++ ·) := by
      induction ds with
      | nil => rfl
      | cons e ds ih =>
        obtain ⟨first, rest⟩ := List.forall_mem_cons.mp each
        rw [directoryRows, contentsIn, List.filter_append, List.map_append, List.filter_append,
          List.map_append, ih rest]
        congr 1
        split
        · rename_i last
          have none : (e.2.contents.map (e.1 :: ·)).filter (·.length ≤ levels + 1) = [] := by
            rw [List.filter_eq_nil_iff]
            intro p member
            obtain ⟨q, file, rfl⟩ := List.mem_map.mp member
            have some := List.length_pos_iff.mpr (ne_nil_of_mem file)
            simp only [List.length_cons, decide_eq_true_eq]
            omega
          rw [none]
          rfl
        · rename_i deeper
          obtain ⟨levels, rfl⟩ : ∃ n, levels = n + 1 := ⟨levels - 1, by omega⟩
          have below := first (above ++ [e.1]) levels (by rw [List.length_append, List.length_singleton]; omega)
          rw [List.filter_map, List.map_map]
          refine below.trans ?_
          have shorter : (fun p : List String => decide (p.length ≤ levels + 1 + 1)) ∘ (e.1 :: ·) =
              fun p => decide (p.length ≤ levels + 1) := by
            funext p
            exact decide_eq_decide.mpr (by simp)
          rw [shorter]
          refine List.map_congr_left fun p _ => ?_
          rw [List.append_assoc]
          rfl
    rw [rows, contents, List.filter_append, List.map_append, List.filter_append, List.map_append, own, inside]

/-- No directory has two rows. -/
theorem nodup_rows {t : Listing} (ordered : Ordered t) (above : List String) (levels : Nat)
    (room : maxDepth = above.length + (levels + 1)) :
    (((rows above maxDepth t).filter (!·.entry.isFile)).map Row.full).Nodup := by
  induction t using induction generalizing above levels with
  | step ds fs each =>
    cases ordered with
    | mk ascending ordered filled =>
      have own : (fs.map fun f => (⟨above, f, .file⟩ : Row)).filter (!·.entry.isFile) = [] := by
        rw [List.filter_eq_nil_iff]
        intro r member
        obtain ⟨f, -, rfl⟩ := List.mem_map.mp member
        simp [Entry.isFile]
      rw [rows, List.filter_append, own, List.append_nil, directoryRows_eq, List.filter_flatMap,
        List.map_flatMap]
      -- what lies in a directory begins with its name
      have begins (e : String × Listing) (among : e ∈ ds) (x : List String)
          (member : x ∈ (((if above.length + 1 ≥ maxDepth then [⟨above, e.1, .closed e.2.count⟩]
            else ⟨above, e.1, .opened⟩ :: rows (above ++ [e.1]) maxDepth e.2) : List Row).filter
              (!·.entry.isFile)).map Row.full) : ∃ d, x = above ++ e.1 :: d := by
        obtain ⟨r, here, rfl⟩ := List.mem_map.mp member
        have here := List.mem_of_mem_filter here
        split at here
        · obtain rfl := List.mem_singleton.mp here
          exact ⟨[], rfl⟩
        · rename_i deeper
          rcases List.mem_cons.mp here with rfl | below
          · exact ⟨[], rfl⟩
          · obtain ⟨d, -, full, -⟩ := tells_rows (ordered e among) (above ++ [e.1]) (levels - 1)
              (by rw [List.length_append, List.length_singleton]; omega) r below
            exact ⟨d, by rw [full, List.append_assoc]; rfl⟩
      refine List.nodup_flatMap.mpr ⟨fun e among => ?_, ?_⟩
      · split
        · exact List.nodup_singleton _
        · rename_i deeper
          have room : maxDepth = (above ++ [e.1]).length + (levels - 1 + 1) := by
            rw [List.length_append, List.length_singleton]
            omega
          refine List.nodup_cons.mpr ⟨fun again => ?_, each e among (ordered e among) _ _ room⟩
          obtain ⟨r, here, same⟩ := List.mem_map.mp again
          obtain ⟨d, named, full, -⟩ :=
            tells_rows (ordered e among) _ _ room r (List.mem_of_mem_filter here)
          rw [full] at same
          exact named (List.append_right_eq_self.mp same)
      · refine ascending.imp_of_mem fun {e e'} first second less => ?_
        intro x left right
        obtain ⟨d, rfl⟩ := begins e first x left
        obtain ⟨d', same⟩ := begins e' second _ right
        have names := (List.cons.inj (List.append_cancel_left same)).1
        exact String.lt_irrefl _ (names ▸ less)

/-- The files that a line stands for. -/
def Entry.files : Entry → Nat
  | file => 1
  | opened => 0
  | closed files => files

theorem sum_files (part : List Row) : (part.map (·.entry.files)).sum =
    (part.filter (·.entry.isFile)).length + (part.map (·.entry.counted)).sum := by
  induction part with
  | nil => rfl
  | cons r part ih =>
    rw [List.map_cons, List.sum_cons, List.map_cons, List.sum_cons, ih, List.filter_cons]
    cases r.entry with
    | file => simp [Entry.isFile, Entry.files, Entry.counted]; omega
    | opened => simp [Entry.isFile, Entry.files, Entry.counted]
    | closed files => simp [Entry.isFile, Entry.files, Entry.counted]; omega

/-- Every file is on a line of its own or in the number of one directory. -/
theorem sum_rows (t : Listing) (above : List String) :
    ((rows above maxDepth t).map (·.entry.files)).sum = t.count := by
  induction t using induction generalizing above with
  | step ds fs each =>
    have own : ((fs.map fun f => (⟨above, f, .file⟩ : Row)).map (·.entry.files)).sum = fs.length := by
      simp [Function.comp_def, Entry.files]
    have inside : ((directoryRows above maxDepth ds).map (·.entry.files)).sum = countAll ds := by
      induction ds with
      | nil => rfl
      | cons e ds ih =>
        obtain ⟨first, rest⟩ := List.forall_mem_cons.mp each
        rw [directoryRows, List.map_append, List.sum_append, ih rest, countAll]
        congr 1
        split
        · exact Nat.add_zero _
        · exact (Nat.zero_add _).trans (first (above ++ [e.1]))
    rw [rows, List.map_append, List.sum_append, own, inside, count, Nat.add_comm]

end

/- The tree of some paths -/

/-- What rows must say of files with these names, down to a depth. -/
structure Faithful (paths : List (List String)) (maxDepth : Nat) (part : List Row) : Prop where
  /-- The lines of files are the files that are not too deep, each once. -/
  files : ((part.filter (·.entry.isFile)).map Row.full).Perm (paths.filter (·.length ≤ maxDepth))
  once : ((part.filter (!·.entry.isFile)).map Row.full).Nodup
  /-- The lines of directories are the directories that are not too deep. -/
  directories (d : List String) : d ∈ (part.filter (!·.entry.isFile)).map Row.full ↔
    d ≠ [] ∧ d.length ≤ maxDepth ∧ ∃ p ∈ paths, Inside d p
  opened {r : Row} (member : r ∈ part) (opened : r.entry = .opened) : r.full.length < maxDepth
  closed {r : Row} {files : Nat} (member : r ∈ part) (closed : r.entry = .closed files) :
    r.full.length = maxDepth ∧ files = (under r.full paths).length
  /-- Nothing of what a directory only counts has a line. -/
  hidden {r r' : Row} {files : Nat} (member : r ∈ part) (closed : r.entry = .closed files)
    (other : r' ∈ part) : ¬ r.full <+: r'.above
  total : (part.filter (·.entry.isFile)).length + (part.map (·.entry.counted)).sum = paths.length

theorem under_perm {ps qs : List (List String)} (same : ps.Perm qs) (d : List String) :
    (under d ps).Perm (under d qs) := same.filter _

theorem exists_inside {d : List String} {paths : List (List String)} :
    under d paths ≠ [] ↔ ∃ p ∈ paths, Inside d p := by
  rw [under, ne_eq, List.filter_eq_nil_iff]
  simp

theorem Tells.shallow {levels : Nat} {paths : List (List String)} {d : List String} {entry : Entry}
    (tells : Tells levels paths d entry) : d.length ≤ levels := by
  cases entry with
  | file => exact tells.1
  | opened => exact Nat.le_of_lt tells.1
  | closed files => exact Nat.le_of_eq tells.1

/-- Something is in a directory that has a row. -/
theorem Tells.exists_inside {levels : Nat} {paths : List (List String)} {d : List String} {entry : Entry}
    (tells : Tells levels paths d entry) (directory : entry.isFile = false) :
    ∃ p ∈ paths, Inside d p := by
  apply Listing.exists_inside.mp
  cases entry with
  | file => cases directory
  | opened => exact tells.2
  | closed files => exact tells.2.2

/-- What every row of the whole tree tells. -/
theorem tells_ofPaths {paths : List String} {maxDepth : Nat} {r : Row} (some : 1 ≤ maxDepth)
    (member : r ∈ rows [] maxDepth (ofPaths paths)) :
    r.full ≠ [] ∧ Tells maxDepth (ofPaths paths).contents r.full r.entry := by
  obtain ⟨levels, rfl⟩ : ∃ n, maxDepth = n + 1 := ⟨maxDepth - 1, by omega⟩
  obtain ⟨d, named, full, tells⟩ :=
    tells_rows (ordered_ofPaths paths) [] levels (Nat.zero_add _).symm r member
  rw [full]
  exact ⟨named, tells⟩

theorem faithful_ofPaths (paths : List String) {maxDepth : Nat} (some : 1 ≤ maxDepth) :
    Faithful (namesOf paths) maxDepth (rows [] maxDepth (ofPaths paths)) := by
  have same := contents_ofPaths paths
  have room : maxDepth = ([] : List String).length + (maxDepth - 1 + 1) := by
    rw [List.length_nil]
    omega
  have shut {r : Row} {files : Nat} (member : r ∈ rows [] maxDepth (ofPaths paths))
      (closed : r.entry = .closed files) : r.full.length = maxDepth ∧
        files = (under r.full (ofPaths paths).contents).length := by
    have told := (tells_ofPaths some member).2
    rw [closed] at told
    exact ⟨told.1, told.2.1⟩
  refine ⟨?_, nodup_rows (ordered_ofPaths paths) [] _ room, fun d => ⟨fun member => ?_, fun wanted => ?_⟩,
    ?_, ?_, ?_, ?_⟩
  · rw [files_rows (ofPaths paths) [] _ room, Nat.sub_add_cancel some]
    simp only [List.nil_append, List.map_id']
    exact same.filter _
  · obtain ⟨r, here, rfl⟩ := List.mem_map.mp member
    obtain ⟨here, directory⟩ := List.mem_filter.mp here
    obtain ⟨named, told⟩ := tells_ofPaths some here
    obtain ⟨p, among, inside⟩ := told.exists_inside (by simpa using directory)
    exact ⟨named, told.shallow, p, same.subset among, inside⟩
  · obtain ⟨named, shallow, p, among, inside⟩ := wanted
    have depth : ([] : List String).length + d.length ≤ maxDepth := by
      rw [List.length_nil, Nat.zero_add]
      exact shallow
    obtain ⟨r, member, directory, full⟩ :=
      exists_row [] named depth (exists_inside.mpr ⟨p, same.symm.subset among, inside⟩)
    exact List.mem_map.mpr ⟨r, List.mem_filter.mpr ⟨member, by rw [directory]; rfl⟩, full⟩
  · intro r member opened
    have told := (tells_ofPaths some member).2
    rw [opened] at told
    exact told.1
  · intro r files member closed
    obtain ⟨deep, counted⟩ := shut member closed
    exact ⟨deep, counted.trans (under_perm same r.full).length_eq⟩
  · intro r r' files member closed other front
    have deep := (shut member closed).1
    have bound := (tells_ofPaths some other).2.shallow
    rw [r'.length_full] at bound
    have longer := front.length_le
    omega
  · rw [← sum_files, sum_rows, count_eq, same.length_eq, namesOf, List.length_map]

/-- A name is never more than a part of a path. -/
theorem plain_name {paths : List String} {maxDepth : Nat} {r : Row} (some : 1 ≤ maxDepth)
    (member : r ∈ rows [] maxDepth (ofPaths paths)) :
    ∃ path ∈ paths, r.name ∈ Text.splitOn '/' path := by
  obtain ⟨-, tells⟩ := tells_ofPaths some member
  obtain ⟨p, among, front⟩ : ∃ p ∈ (ofPaths paths).contents, r.full <+: p := by
    cases kind : r.entry.isFile with
    | true =>
      cases entry : r.entry with
      | file => exact ⟨r.full, (entry ▸ tells).2, List.prefix_rfl⟩
      | opened => rw [entry] at kind; cases kind
      | closed files => rw [entry] at kind; cases kind
    | false =>
      obtain ⟨p, among, inside⟩ := tells.exists_inside kind
      exact ⟨p, among, inside.1⟩
  have last : r.name ∈ r.full := List.mem_append_right _ (List.mem_singleton_self _)
  obtain ⟨path, inside, rfl⟩ := List.mem_map.mp ((contents_ofPaths paths).subset among)
  exact ⟨path, inside, front.subset last⟩

/-- A line with a slash is a directory's. -/
theorem slash_text {paths : List String} {maxDepth : Nat} {r : Row} (some : 1 ≤ maxDepth)
    (member : r ∈ rows [] maxDepth (ofPaths paths)) :
    '/' ∈ r.line.text.toList ↔ r.entry.isFile = false := by
  obtain ⟨path, -, name⟩ := plain_name some member
  obtain ⟨piece, among, named⟩ := List.mem_map.mp name
  have plain : '/' ∉ r.name.toList := by
    rw [← named, String.toList_ofList]
    exact Path.not_mem_of_pieces among
  rw [Line.text]
  cases entry : r.entry with
  | file => simp [Row.line, entry, indent, plain, Entry.isFile]
  | opened => simp [Row.line, entry, Entry.isFile]
  | closed files => simp [Row.line, entry, Entry.isFile]

theorem lines_ofPaths (paths : List String) (maxDepth : Nat) :
    (ofPaths paths).lines maxDepth = (rows [] maxDepth (ofPaths paths)).map (·.line.text) :=
  linesAt_eq [] (ofPaths paths)

end CodeAgent.Listing
