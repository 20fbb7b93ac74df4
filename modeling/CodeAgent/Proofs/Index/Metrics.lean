import CodeAgent.Index.Metrics
import CodeAgent.Proofs.Store.Documents
import CodeAgent.Proofs.Text.Mending
import Mathlib

/-! How large the measures of a file can be.
None is larger than the number of its letters, but for the one path that runs through every file; so
each is held wherever the file's size is. -/
namespace CodeAgent

namespace Metrics

/-- The number of letters of all lines. -/
def letters (lines : List (List Char)) : Nat := (lines.map List.length).sum

theorem letters_cons (line : List Char) (lines : List (List Char)) :
    letters (line :: lines) = line.length + letters lines := rfl

theorem letters_filter_le (keep : List Char → Bool) (lines : List (List Char)) :
    letters (lines.filter keep) ≤ letters lines := by
  induction lines with
  | nil => exact Nat.le_refl _
  | cons line lines ih =>
    rw [List.filter_cons, letters_cons]
    split
    · rw [letters_cons]
      omega
    · omega

/-- Each line of code has a letter. -/
theorem length_code_le (lines : List (List Char)) :
    (lines.filter isCode).length ≤ letters (lines.filter isCode) := by
  have written (line : List Char) (code : isCode line = true) : 1 ≤ line.length := by
    cases line with
    | nil => cases code
    | cons c cs => simp
  induction lines with
  | nil => exact Nat.le_refl _
  | cons line lines ih =>
    rw [List.filter_cons]
    split
    · rename_i code
      have letter := written line code
      rw [letters_cons, List.length_cons]
      omega
    · exact ih

theorem countBranches_le (atWord : Bool) (skip : Nat) (cs : List Char) :
    countBranches atWord skip cs ≤ cs.length := by
  induction cs generalizing atWord skip with
  | nil => cases skip <;> exact Nat.le_refl _
  | cons c rest ih =>
    rw [List.length_cons]
    cases skip with
    | succ skip => exact Nat.le_succ_of_le (ih _ skip)
    | zero =>
      rw [countBranches]
      split
      · rename_i after _
        have later := ih (Text.isWordChar c) (rest.length - after.length)
        omega
      · exact Nat.le_succ_of_le (ih _ 0)

/-- Braces never close more than was open, so no depth is above the number of letters. -/
theorem braceDepth_le (lines : List (List Char)) : braceDepth lines ≤ letters lines := by
  have deepest (cs : List Char) (d : Nat × Nat) (within : d.1 ≤ d.2) :
      (cs.foldl braceStep d).2 ≤ d.2 + cs.length := by
    induction cs generalizing d with
    | nil => exact Nat.le_refl _
    | cons c cs ih =>
      have step : (braceStep d c).1 ≤ (braceStep d c).2 ∧ (braceStep d c).2 ≤ d.2 + 1 := by
        unfold braceStep
        split
        · exact ⟨by omega, by omega⟩
        split
        · exact ⟨by omega, by omega⟩
        · exact ⟨within, by omega⟩
      have later := ih (braceStep d c) step.1
      rw [List.foldl_cons, List.length_cons]
      omega
  rw [braceDepth, ← List.foldl_flatten, letters, ← List.length_flatten]
  have bound := deepest lines.flatten (0, 0) (Nat.le_refl _)
  omega

theorem foldl_add_eq (ns : List Nat) (n : Nat) : ns.foldl (· + ·) n = n + ns.sum := by
  induction ns generalizing n with
  | nil => rfl
  | cons k ns ih => rw [List.foldl_cons, ih, List.sum_cons, Nat.add_assoc]

/-- No blank counts for more than one level. -/
theorem indentDepth_le (line : List Char) : indentDepth line ≤ line.length := by
  have weight (cs : List Char) : (cs.map fun c => if c = '\t' then 4 else 1).sum ≤ 4 * cs.length := by
    induction cs with
    | nil => exact Nat.le_refl _
    | cons c cs ih =>
      rw [List.map_cons, List.sum_cons, List.length_cons]
      split <;> omega
  have front : (line.takeWhile Text.isBlank).length ≤ line.length := (List.takeWhile_sublist _).length_le
  have blanks := weight (line.takeWhile Text.isBlank)
  rw [indentDepth, foldl_add_eq]
  omega

theorem sum_branches_le (lines : List (List Char)) :
    (lines.map (countBranches false 0)).sum ≤ letters lines := by
  induction lines with
  | nil => exact Nat.le_refl _
  | cons line lines ih =>
    have here := countBranches_le false 0 line
    rw [List.map_cons, List.sum_cons, letters_cons]
    omega

theorem max_indent_le (lines : List (List Char)) (n : Nat) :
    (lines.map indentDepth).foldl max n ≤ n + letters lines := by
  induction lines generalizing n with
  | nil => exact Nat.le_refl _
  | cons line lines ih =>
    have here := indentDepth_le line
    have later := ih (max n (indentDepth line))
    rw [List.map_cons, List.foldl_cons, letters_cons]
    omega

theorem fits_ofLines {lines : List String} (language : Option String)
    (small : letters (lines.map String.toList) < Json.maxWord) : (ofLines lines language).Fits := by
  have code := letters_filter_le isCode (lines.map String.toList)
  constructor
  · exact Nat.le_trans (length_code_le _) (by omega)
  · dsimp only [ofLines]
    split
    · have deepest := max_indent_le ((lines.map String.toList).filter isCode) 0
      omega
    · have deepest := braceDepth_le ((lines.map String.toList).filter isCode)
      omega
  · have branches := sum_branches_le ((lines.map String.toList).filter isCode)
    dsimp only [ofLines]
    rw [foldl_add_eq]
    omega
  · exact Nat.le_trans (Nat.min_le_right _ 100) (by decide)

end Metrics

theorem Text.letters_pieces_le (sep : Char) (cs : List Char) :
    Metrics.letters (pieces sep cs) ≤ cs.length := by
  induction cs with
  | nil => exact Nat.le_refl _
  | cons c rest ih =>
    rw [pieces, List.length_cons]
    split
    · rw [Metrics.letters_cons]
      exact Nat.le_succ_of_le (by simpa using ih)
    · split
      · simp [Metrics.letters]
      · rename_i piece more split
        rw [split, Metrics.letters_cons] at ih
        rw [Metrics.letters_cons, List.length_cons]
        omega

theorem Text.length_le_utf8ByteSize (s : String) : s.toList.length ≤ s.utf8ByteSize := by
  have whole := length_le_utf8Len s.toList
  rwa [← String.utf8ByteSize_ofList, String.ofList_toList] at whole

/-- The lines of a text have no more letters than the text has bytes. -/
theorem Text.letters_lines_le (s : String) :
    Metrics.letters ((lines s).map String.toList) ≤ s.utf8ByteSize := by
  have split : (lines s).map String.toList = pieces '\n' s.toList := by
    simp [lines, splitOn, Function.comp_def]
  rw [split]
  exact Nat.le_trans (letters_pieces_le _ _) (length_le_utf8ByteSize s)

end CodeAgent
