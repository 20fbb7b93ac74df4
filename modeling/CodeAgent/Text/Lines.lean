/-! Text as lines and as pieces between separators.
Splitting keeps every piece, the empty ones too, so joining restores the text. -/
namespace CodeAgent.Text

/-- The pieces between separators, one more than there are separators. -/
def pieces (sep : Char) : List Char → List (List Char)
  | [] => [[]]
  | c :: rest =>
    if c = sep then [] :: pieces sep rest
    else
      match pieces sep rest with
      | [] => [[c]]
      | piece :: more => (c :: piece) :: more

/-- Pieces with a separator between each two. -/
def join (sep : Char) : List (List Char) → List Char
  | [] => []
  | [piece] => piece
  | piece :: more => piece ++ sep :: join sep more

theorem pieces_ne_nil (sep : Char) (cs : List Char) : pieces sep cs ≠ [] := by
  cases cs with
  | nil => simp [pieces]
  | cons c rest =>
    by_cases h : c = sep
    · simp [pieces, h]
    · rw [pieces, if_neg h]
      split <;> simp

theorem join_pieces (sep : Char) (cs : List Char) : join sep (pieces sep cs) = cs := by
  induction cs with
  | nil => rfl
  | cons c rest ih =>
    by_cases h : c = sep
    · rw [pieces, if_pos h]
      cases hp : pieces sep rest with
      | nil => exact absurd hp (pieces_ne_nil sep rest)
      | cons piece more => rw [hp] at ih; simp [join, ih, h]
    · rw [pieces, if_neg h]
      cases hp : pieces sep rest with
      | nil => exact absurd hp (pieces_ne_nil sep rest)
      | cons piece more =>
        rw [hp] at ih
        cases more with
        | nil => simpa [join] using ih
        | cons next others => simpa [join] using ih

theorem pieces_of_not_mem {sep : Char} {cs : List Char} (h : sep ∉ cs) : pieces sep cs = [cs] := by
  induction cs with
  | nil => rfl
  | cons c rest ih =>
    simp only [List.mem_cons, not_or] at h
    rw [pieces, if_neg (Ne.symm h.1), ih h.2]

theorem pieces_append {sep : Char} {cs : List Char} (h : sep ∉ cs) (rest : List Char) :
    pieces sep (cs ++ sep :: rest) = cs :: pieces sep rest := by
  induction cs with
  | nil => simp [pieces]
  | cons c cs ih =>
    simp only [List.mem_cons, not_or] at h
    rw [List.cons_append, pieces, if_neg (Ne.symm h.1), ih h.2]

/-- Pieces free of the separator come back from their join. -/
theorem pieces_join {sep : Char} {ps : List (List Char)} (nonempty : ps ≠ [])
    (free : ∀ p ∈ ps, sep ∉ p) : pieces sep (join sep ps) = ps := by
  induction ps with
  | nil => exact absurd rfl nonempty
  | cons p more ih =>
    cases more with
    | nil => exact pieces_of_not_mem (free p (by simp))
    | cons q others =>
      rw [join, pieces_append (free p (by simp)), ih (by simp)]
      · intro x hx
        exact free x (List.mem_cons_of_mem _ hx)
      · simp

def splitOn (sep : Char) (s : String) : List String := (pieces sep s.toList).map String.ofList

def joinWith (sep : Char) (ss : List String) : String :=
  String.ofList (join sep (ss.map String.toList))

/-- The lines of a file; a text of n line feeds has n + 1. -/
def lines (s : String) : List String := splitOn '\n' s

def unlines (ss : List String) : String := joinWith '\n' ss

theorem unlines_lines (s : String) : unlines (lines s) = s := by
  simp only [unlines, lines, joinWith, splitOn, List.map_map]
  have : (String.toList ∘ String.ofList) = id := by
    funext cs
    simp
  rw [this, List.map_id, join_pieces, String.ofList_toList]

/-- The lines of a report: a line feed ends a line, and a carriage return before it goes too. -/
def reportLines (s : String) : List String :=
  let ps := pieces '\n' s.toList
  let ps := if ps.getLast? = some [] then ps.dropLast else ps
  ps.map fun cs => String.ofList (if cs.getLast? = some '\r' then cs.dropLast else cs)

end CodeAgent.Text
