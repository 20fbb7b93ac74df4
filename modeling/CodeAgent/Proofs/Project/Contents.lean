import CodeAgent.Project.Listing
import CodeAgent.Proofs.Store.Tables

/-! The files that a tree of files holds.
A path that is put in is there once more, behind the directories on the way to it; these stay in order,
and none of them is ever empty. -/
namespace CodeAgent.Listing

mutual

/-- The names on the way to each file, its own the last. -/
def contents : Listing → List (List String)
  | mk ds fs => contentsIn ds ++ fs.map ([·])

def contentsIn : List (String × Listing) → List (List String)
  | [] => []
  | (name, t) :: rest => (contents t).map (name :: ·) ++ contentsIn rest

end

/-- What holds of a tree when it holds of its directories holds of every tree. -/
theorem induction {motive : Listing → Prop}
    (step : ∀ ds fs, (∀ d ∈ ds, motive d.2) → motive (mk ds fs)) (t : Listing) : motive t :=
  @Listing.rec motive (fun ds => ∀ d ∈ ds, motive d.2) (fun d => motive d.2) step
    (List.forall_mem_nil _) (fun _ _ first rest => List.forall_mem_cons.mpr ⟨first, rest⟩)
    (fun _ _ below => below) t

theorem ne_nil_of_mem {t : Listing} {p : List String} (member : p ∈ t.contents) : p ≠ [] := by
  obtain ⟨ds, fs⟩ := t
  rw [contents, List.mem_append] at member
  rcases member with below | own
  · induction ds with
    | nil => cases below
    | cons d ds ih =>
      rw [contentsIn, List.mem_append] at below
      rcases below with first | rest
      · obtain ⟨q, -, rfl⟩ := List.mem_map.mp first
        exact List.cons_ne_nil _ _
      · exact ih rest
  · obtain ⟨f, -, rfl⟩ := List.mem_map.mp own
    exact List.cons_ne_nil _ _

theorem count_eq (t : Listing) : t.count = t.contents.length := by
  induction t using induction with
  | step ds fs each =>
    have inside : countAll ds = (contentsIn ds).length := by
      induction ds with
      | nil => rfl
      | cons d ds ih =>
        obtain ⟨first, rest⟩ := List.forall_mem_cons.mp each
        rw [countAll, contentsIn, List.length_append, List.length_map, first, ih rest]
    rw [count, contents, List.length_append, List.length_map, inside, Nat.add_comm]

/-- Directories in ascending order at every level, each with a file somewhere in it. -/
inductive Ordered : Listing → Prop where
  | mk {ds : List (String × Listing)} {fs : List String} (ascending : Entries.Ascending ds)
      (each : ∀ d ∈ ds, Ordered d.2) (filled : ∀ d ∈ ds, d.2.contents ≠ []) : Ordered (mk ds fs)

section

variable {dir : String} {names : List String}

theorem contentsIn_insertInto (insert_perm : ∀ t, (insert names t).contents.Perm (names :: t.contents))
    (ds : List (String × Listing)) :
    (contentsIn (insertInto dir names ds)).Perm ((dir :: names) :: contentsIn ds) := by
  induction ds with
  | nil =>
    rw [insertInto, contentsIn, contentsIn, contentsIn, List.append_nil]
    exact (insert_perm empty).map _
  | cons d ds ih =>
    obtain ⟨name, t⟩ := d
    rw [insertInto]
    split
    · rename_i same
      subst same
      rw [contentsIn, contentsIn]
      exact ((insert_perm t).map _).append_right _
    · split
      · rw [contentsIn]
        exact ((insert_perm empty).map _).append_right _
      · rw [contentsIn, contentsIn]
        exact (ih.append_left _).trans List.perm_middle

/-- A file that is put in is there once more. -/
theorem contents_insert (some : names ≠ []) (t : Listing) :
    (insert names t).contents.Perm (names :: t.contents) := by
  induction names generalizing t with
  | nil => exact absurd rfl some
  | cons name rest ih =>
    obtain ⟨ds, fs⟩ := t
    cases rest with
    | nil =>
      rw [insert, contents, contents, List.map_append, ← List.append_assoc]
      exact List.perm_append_singleton _ _
    | cons next rest =>
      rw [insert, contents, contents]
      exact (contentsIn_insertInto (ih (List.cons_ne_nil _ _)) ds).append_right _

/-- A file goes into the entry of its directory, new or not. -/
theorem insertInto_eq {ds : List (String × Listing)} (ascending : Entries.Ascending ds) :
    insertInto dir names ds = Entries.insert dir (insert names ((Entries.lookup dir ds).getD empty)) ds := by
  induction ds with
  | nil =>
    rw [insertInto]
    rfl
  | cons d ds ih =>
    obtain ⟨name, t⟩ := d
    obtain ⟨below, tail⟩ := List.pairwise_cons.mp ascending
    rw [insertInto, Entries.insert, Entries.lookup]
    split
    · rename_i same
      rw [same]
      rfl
    · split
      · rename_i less
        have missing : Entries.lookup dir ds = none := by
          cases found : Entries.lookup dir ds with
          | none => rfl
          | some t' =>
            have later := below _ (Entries.mem_of_lookup found)
            exact absurd (String.lt_trans less later) (String.lt_irrefl dir)
        rw [missing]
        rfl
      · rw [ih tail]

theorem ordered_insert (some : names ≠ []) {t : Listing} (ordered : Ordered t) :
    Ordered (insert names t) := by
  induction names generalizing t with
  | nil => exact absurd rfl some
  | cons name rest ih =>
    cases ordered with
    | mk ascending each filled =>
      rename_i ds fs
      cases rest with
      | nil =>
        rw [insert]
        exact .mk ascending each filled
      | cons next rest =>
        have fresh : Ordered empty := .mk .nil (List.forall_mem_nil _) (List.forall_mem_nil _)
        have old : Ordered ((Entries.lookup name ds).getD empty) := by
          cases found : Entries.lookup name ds with
          | none => exact fresh
          | some t => exact each _ (Entries.mem_of_lookup found)
        rw [insert, insertInto_eq ascending]
        refine .mk (Entries.ascending_insert _ _ ascending) (fun d member => ?_) fun d member => ?_
        · rcases Entries.mem_insert member with rfl | before
          · exact ih (List.cons_ne_nil _ _) old
          · exact each d before
        · rcases Entries.mem_insert member with rfl | before
          · intro none
            have grown := (contents_insert (List.cons_ne_nil next rest) ((Entries.lookup name ds).getD empty)).length_eq
            rw [none] at grown
            cases grown
          · exact filled d before

end

/-- The paths of a tree, each as its names. -/
def namesOf (paths : List String) : List (List String) := paths.map (Text.splitOn '/')

theorem splitOn_ne_nil (sep : Char) (s : String) : Text.splitOn sep s ≠ [] :=
  mt List.map_eq_nil_iff.mp (Text.pieces_ne_nil sep s.toList)

theorem contents_ofPaths (paths : List String) : (ofPaths paths).contents.Perm (namesOf paths) := by
  have folds (t : Listing) : (paths.foldl (fun t path => t.insert (Text.splitOn '/' path)) t).contents.Perm
      (t.contents ++ namesOf paths) := by
    induction paths generalizing t with
    | nil => rw [namesOf, List.map_nil, List.append_nil]; exact .refl _
    | cons path paths ih =>
      refine (ih _).trans ?_
      refine ((contents_insert (splitOn_ne_nil '/' path) t).append_right _).trans ?_
      exact List.perm_middle.symm
  exact folds empty

theorem ordered_ofPaths (paths : List String) : Ordered (ofPaths paths) := by
  have folds (t : Listing) (ordered : Ordered t) :
      Ordered (paths.foldl (fun t path => t.insert (Text.splitOn '/' path)) t) := by
    induction paths generalizing t with
    | nil => exact ordered
    | cons path paths ih => exact ih _ (ordered_insert (splitOn_ne_nil '/' path) ordered)
  exact folds empty (.mk .nil (List.forall_mem_nil _) (List.forall_mem_nil _))

end CodeAgent.Listing
