import CodeAgent.Index.Resolve
import CodeAgent.Proofs.Path.Containing
import CodeAgent.Proofs.Path.Parent
import CodeAgent.Proofs.Text.Cutting

/-! Paths that are followed as if the top were above itself.
A step up takes back the name in front of it, as everywhere; but where none is left it is passed over.
So every path leads somewhere, and where a path stays below the top it leads to what it cancels to. -/
namespace CodeAgent

namespace Text

/-- Pieces joined by another separator. -/
theorem join_pieces_other (sep other : Char) (cs : List Char) :
    join other (pieces sep cs) = cs.map fun c => if c = sep then other else c := by
  induction cs with
  | nil => rfl
  | cons c cs ih =>
    obtain ⟨p, ps, shape⟩ := List.exists_cons_of_ne_nil (pieces_ne_nil sep cs)
    rw [List.map_cons, ← ih, pieces]
    split
    · rw [shape]
      rfl
    · rw [shape]
      cases ps <;> rfl

end Text

namespace Path

/-- Where segments lead when a step up that finds no name in front of it is passed over. -/
inductive Settles : List String → List String → Prop where
  | names {l : List String} (plain : ".." ∉ l) : Settles l l
  | back {pre post names : List String} {n : String} (name : n ≠ "..")
      (rest : Settles (pre ++ post) names) : Settles (pre ++ n :: ".." :: post) names
  | top {post names : List String} (rest : Settles post names) : Settles (".." :: post) names

/-- Follows segments, the names so far in reverse. -/
def settleFrom (done : List String) : List String → List String
  | [] => done.reverse
  | s :: rest => if s = ".." then settleFrom done.tail rest else settleFrom (s :: done) rest

variable {l done names : List String}

theorem settleFrom_nil (done : List String) : settleFrom done [] = done.reverse := rfl

theorem settleFrom_cons (done : List String) (s : String) (l : List String) :
    settleFrom done (s :: l) = if s = ".." then settleFrom done.tail l else settleFrom (s :: done) l := rfl

theorem settles_settleFrom (plain : ".." ∉ done) : Settles (done.reverse ++ l) (settleFrom done l) := by
  induction l generalizing done with
  | nil =>
    rw [List.append_nil, settleFrom_nil]
    exact .names (by simpa using plain)
  | cons s l ih =>
    rw [settleFrom_cons]
    split
    · rename_i up
      subst up
      cases done with
      | nil => exact .top (@ih [] List.not_mem_nil)
      | cons d done =>
        obtain ⟨here, later⟩ := not_or.mp (mt List.mem_cons.mpr plain)
        rw [List.reverse_cons, List.append_assoc]
        exact .back (Ne.symm here) (ih later)
    · rename_i name
      have longer := @ih (s :: done) (mt List.mem_cons.mp (not_or.mpr ⟨Ne.symm name, plain⟩))
      simpa using longer

theorem settleFrom_names {l' : List String} (plain : ".." ∉ l) :
    settleFrom done (l ++ l') = settleFrom (l.reverse ++ done) l' := by
  induction l generalizing done with
  | nil => rfl
  | cons s l ih =>
    obtain ⟨here, later⟩ := not_or.mp (mt List.mem_cons.mpr plain)
    rw [List.cons_append, settleFrom_cons, if_neg (Ne.symm here), ih later]
    simp

theorem settleFrom_cancel {pre post : List String} {n : String} (name : n ≠ "..") :
    settleFrom done (pre ++ n :: ".." :: post) = settleFrom done (pre ++ post) := by
  induction pre generalizing done with
  | nil => rw [List.nil_append, settleFrom_cons, if_neg name, settleFrom_cons, if_pos rfl, List.tail_cons,
      List.nil_append]
  | cons s pre ih =>
    rw [List.cons_append, List.cons_append, settleFrom_cons, settleFrom_cons]
    split
    · exact ih
    · exact ih

theorem Settles.eq_settleFrom (settles : Settles l names) : names = settleFrom [] l := by
  induction settles with
  | @names l plain =>
    have all : settleFrom [] (l ++ []) = settleFrom (l.reverse ++ []) [] := settleFrom_names plain
    simpa [settleFrom_nil] using all.symm
  | back name _ ih => rw [settleFrom_cancel name, ih]
  | top _ ih => exact ih

/-- Every path leads to one place. -/
theorem settles_iff : Settles l names ↔ names = settleFrom [] l := by
  refine ⟨Settles.eq_settleFrom, ?_⟩
  rintro rfl
  exact settles_settleFrom List.not_mem_nil

theorem settleFrom_of_walk (walked : walk done (l.map Part.ofSegment) = some names) :
    settleFrom done l = names := by
  induction l generalizing done with
  | nil => exact Option.some.inj walked
  | cons s l ih =>
    rw [List.map_cons] at walked
    rw [settleFrom_cons]
    split
    · rename_i up
      rw [up, ofSegment_up] at walked
      cases done with
      | nil => cases walked
      | cons d done => exact ih walked
    · rename_i name
      rw [ofSegment_of_ne name] at walked
      exact ih walked

theorem climbs_iff_walk : Climbs l ↔ walk [] (l.map Part.ofSegment) = none := by
  rw [walk_none_iff]
  simp [Climbs]

/-- A path that stays below the top leads where its segments cancel to. -/
theorem cancels_settleFrom (stays : ¬ Climbs l) : Cancels l (settleFrom [] l) := by
  cases walked : walk [] (l.map Part.ofSegment) with
  | none => exact absurd (climbs_iff_walk.mpr walked) stays
  | some names =>
    rw [settleFrom_of_walk walked]
    exact (cancels_of_walk walked List.not_mem_nil).1

theorem settleFrom_ups (k : Nat) (done : List String) :
    settleFrom done (List.replicate k "..") = (done.drop k).reverse := by
  induction k generalizing done with
  | zero => rfl
  | succ k ih => rw [List.replicate_succ, settleFrom_cons, if_pos rfl, ih, List.drop_tail]

theorem not_up_of_named (named : ∀ n ∈ l, Named n) : ".." ∉ l := fun up => (named _ up).notUp rfl

/- Segments of relative paths -/

theorem segments_join (dir path : String) : segments (dir ++ "/" ++ path) = segments dir ++ segments path := by
  have text : (dir ++ "/" ++ path).toList = dir.toList ++ '/' :: path.toList := by simp
  rw [segments, segments, segments, Text.splitOn, text, Text.pieces_append_cons, List.map_append,
    List.filter_append]
  rfl

theorem segments_slashed (named : ∀ n ∈ names, Named n) : segments (slashed names) = names := by
  cases names with
  | nil => rfl
  | cons n names =>
    have kept : ∀ x ∈ n :: names, counts x = true := by
      intro x member
      have letters : x ≠ "" := by
        rintro rfl
        exact (named _ member).nonempty rfl
      have noDot : x ≠ "." := by
        rintro rfl
        exact (named _ member).notHere rfl
      simp [counts, letters, noDot]
    have texts : String.ofList ∘ String.toList = id := by
      funext x
      simp
    rw [segments, Text.splitOn, toList_slashed, pieces_names named (by simp), List.map_map, texts,
      List.map_id, List.filter_eq_self.mpr kept]

theorem baseName_slashed {n : String} (named : ∀ x ∈ names ++ [n], Named x) :
    baseName (slashed (names ++ [n])) = n := by
  rw [baseName, toList_slashed, pieces_names named (by simp)]
  simp

/-- More text behind the names of a path belongs to the last of them. -/
theorem slashed_append (names : List String) (text : String) :
    slashed names ++ text = slashed (names.dropLast ++ [names.getLastD "" ++ text]) := by
  cases names using List.reverseRecOn with
  | nil => simp [slashed, Text.joinWith, Text.join]
  | append_singleton names n =>
    rw [List.dropLast_concat, List.getLastD_concat]
    cases names with
    | nil => rw [List.nil_append, List.nil_append, slashed_singleton, slashed_singleton]
    | cons m names =>
      rw [← String.toList_inj, String.toList_append, toList_slashed_concat n (by simp),
        toList_slashed_concat _ (by simp)]
      simp

end Path

namespace Resolve

open CodeAgent.Path

theorem normalizeFrom_eq (done ps : List (List Char)) :
    (normalizeFrom done ps).map String.ofList =
      settleFrom (done.map String.ofList) ((ps.map String.ofList).filter counts) := by
  induction ps generalizing done with
  | nil => simp [normalizeFrom, settleFrom_nil]
  | cons p ps ih =>
    have same (s : String) : String.ofList p = s ↔ p = s.toList := by
      rw [← String.toList_inj, String.toList_ofList]
    have kept : counts (String.ofList p) = true ↔ ¬ (p = [] ∨ p = ['.']) := by
      simp [counts, same]
    have up : String.ofList p = ".." ↔ p = ['.', '.'] := same ".."
    rw [normalizeFrom, List.map_cons, List.filter_cons]
    by_cases idle : p = [] ∨ p = ['.']
    · rw [if_pos (by simpa using idle), if_neg (by rw [kept]; exact not_not.mpr idle), ih]
    · rw [if_neg (by simpa using idle), if_pos (kept.mpr idle), settleFrom_cons]
      by_cases above : p = ['.', '.']
      · rw [if_pos above, if_pos (up.mpr above), ih, List.map_tail]
      · rw [if_neg above, if_neg (mt up.mp above), ih, List.map_cons]

/-- Dots are followed from the top on. -/
theorem normalize_eq (path : String) : normalize path = slashed (settleFrom [] (segments path)) := by
  have read := normalizeFrom_eq [] (Text.pieces '/' path.toList)
  rw [List.map_nil] at read
  rw [segments, Text.splitOn, ← read, normalize, slashed, Text.joinWith, List.map_map]
  simp

theorem up_slashed {done : List String} (named : ∀ n ∈ done, Named n) (k : Nat) :
    Project.up k (slashed done.reverse) = slashed (done.drop k).reverse := by
  induction k generalizing done with
  | zero => rfl
  | succ k ih =>
    cases done with
    | nil =>
      have top : parent (slashed [].reverse) = slashed [].reverse := rfl
      rw [Project.up, top, ih named, List.drop_nil, List.drop_nil]
    | cons d done =>
      have above : parent (slashed (d :: done).reverse) = slashed done.reverse := by
        rw [List.reverse_cons]
        exact parent_slashed fun x member => named x (by simpa [or_comm] using member)
      rw [Project.up, above, List.drop_succ_cons]
      exact ih fun n member => named n (List.mem_cons_of_mem _ member)

end Resolve

end CodeAgent
