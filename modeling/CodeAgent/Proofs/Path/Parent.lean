import CodeAgent.Proofs.Path.Canonical

/-! The directory that a path is in.
It is shorter than the path, so whoever goes up from directory to directory arrives at the top; and of
names with slashes between them it has all but the last. -/
namespace CodeAgent

namespace Text

theorem length_le_join {sep : Char} {p : List Char} {ps : List (List Char)} (member : p ∈ ps) :
    p.length ≤ (join sep ps).length := by
  induction ps with
  | nil => cases member
  | cons q ps ih =>
    cases ps with
    | nil =>
      obtain rfl := List.mem_singleton.mp member
      exact Nat.le_refl _
    | cons r ps =>
      have length : (join sep (q :: r :: ps)).length = q.length + ((join sep (r :: ps)).length + 1) :=
        List.length_append
      rcases List.mem_cons.mp member with rfl | later
      · omega
      · have inner := ih later
        omega

end Text

namespace Path

theorem dropIdle_suffix (absolute : Bool) (ps : List (List Char)) : dropIdle absolute ps <:+ ps := by
  induction ps with
  | nil => exact List.suffix_refl _
  | cons p ps ih =>
    have shorter := ih.trans (List.suffix_cons p ps)
    rw [dropIdle]
    split
    · split
      · rename_i last
        simp only [Bool.and_eq_true, List.isEmpty_iff] at last
        exact last.1 ▸ List.suffix_refl _
      · exact shorter
    · split
      · exact shorter
      · exact List.suffix_refl _

/-- A path is longer than its directory: at least its last name comes behind. -/
theorem length_parent_lt {path : String} (nonempty : path ≠ "") :
    (parent path).length < path.length := by
  have letters : 0 < path.toList.length := List.length_pos_iff.mpr (by simpa using nonempty)
  rw [← String.length_toList, ← String.length_toList]
  unfold parent
  extract_lets cs absolute
  split
  · exact letters
  · exact letters
  rename_i p rest last kept
  obtain ⟨pre, front⟩ := dropIdle_suffix absolute (Text.pieces '/' cs).reverse
  rw [kept] at front
  obtain ⟨mid, back⟩ := dropIdle_suffix absolute rest
  generalize dropIdle absolute rest = above at back ⊢
  -- the pieces of the directory, and what is left out behind them
  have whole : Text.pieces '/' cs = above.reverse ++ (pre ++ p :: mid).reverse := by
    rw [← List.reverse_append, ← List.reverse_inj, ← front, ← back]
    simp
  have behind : 1 ≤ (Text.join '/' (pre ++ p :: mid).reverse).length :=
    Nat.le_trans (List.length_pos_iff.mpr last) (Text.length_le_join (by simp))
  by_cases top : above = []
  · subst top
    simpa [Text.join] using letters
  have length : path.toList.length =
      (Text.join '/' above.reverse).length + ((Text.join '/' (pre ++ p :: mid).reverse).length + 1) := by
    have text := Text.join_pieces '/' cs
    rw [whole, Text.join_append '/' (by simpa using top) (by simp)] at text
    have letters := congrArg List.length text
    rw [List.length_append, List.length_cons] at letters
    exact letters.symm
  split
  · rw [length]
    change 1 < _
    omega
  · rw [length, String.toList_ofList]
    omega

/-- The names of a relative path, without the last one, are those of its directory. -/
theorem parent_slashed {names : List String} {n : String} (named : ∀ x ∈ names ++ [n], Named x) :
    parent (slashed (names ++ [n])) = slashed names := by
  have last := named n (by simp)
  have relative : isAbsolute (slashed (names ++ [n])).toList = false := by
    cases names with
    | nil => simpa [isAbsolute] using head_slashed last []
    | cons m names => simpa [isAbsolute] using head_slashed (named m (by simp)) (names ++ [n])
  have pieces : Text.pieces '/' (slashed (names ++ [n])).toList = (names ++ [n]).map String.toList := by
    rw [toList_slashed, pieces_names named (by simp)]
  have whole : dropIdle false ((names ++ [n]).map String.toList).reverse =
      n.toList :: names.reverse.map String.toList := by
    simp [dropIdle, last.nonempty, last.notHere]
  have above : dropIdle false (names.reverse.map String.toList) = names.reverse.map String.toList := by
    cases names using List.reverseRecOn with
    | nil => rfl
    | append_singleton names m =>
      have next := named m (by simp)
      simp [dropIdle, next.nonempty, next.notHere]
  unfold parent
  simp only [pieces, relative, whole]
  obtain ⟨c, cs, shape⟩ := List.exists_cons_of_ne_nil last.nonempty
  simp only [shape, above]
  have text : String.ofList (Text.join '/' (names.reverse.map String.toList).reverse) = slashed names := by
    rw [← List.map_reverse, List.reverse_reverse, ← toList_slashed, String.ofList_toList]
  rw [← text]
  cases names using List.reverseRecOn with
  | nil => rfl
  | append_singleton names m =>
    have next := named m (by simp)
    split
    · rename_i single
      simp [next.nonempty] at single
    · rfl

end Path

end CodeAgent
