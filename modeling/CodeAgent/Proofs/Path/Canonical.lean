import CodeAgent.Path.Lexical
import Mathlib.Data.List.Induction

/-! Paths in the one form that a file system gives them: a slash before every name, and nothing else.
A path below a root is named within the project by the names behind the root, and found again by them. -/
namespace CodeAgent

namespace Text

theorem join_append (sep : Char) {ps qs : List (List Char)} (first : ps ≠ []) (second : qs ≠ []) :
    join sep (ps ++ qs) = join sep ps ++ sep :: join sep qs := by
  induction ps with
  | nil => exact absurd rfl first
  | cons p ps ih =>
    cases ps with
    | nil =>
      obtain ⟨q, qs, rfl⟩ := List.exists_cons_of_ne_nil second
      rfl
    | cons p' ps =>
      have rest := ih (List.cons_ne_nil _ _)
      simp only [List.cons_append] at rest
      simp [join, rest]

end Text

namespace Path

/-- A name of a file or directory, which a path's piece is unless it is read otherwise. -/
structure Named (name : String) : Prop where
  nonempty : name.toList ≠ []
  notHere : name.toList ≠ ['.']
  notUp : name.toList ≠ ['.', '.']
  plain : '/' ∉ name.toList

/-- The path of these names from the root directory on. -/
def absolute (names : List String) : String := "/" ++ slashed names

def Canonical (path : String) : Prop := ∃ names, (∀ n ∈ names, Named n) ∧ path = absolute names

section

variable {names : List String}

theorem toList_slashed (names : List String) :
    (slashed names).toList = Text.join '/' (names.map String.toList) := by
  simp [slashed, Text.joinWith]

theorem toList_slashed_concat (n : String) (some : names ≠ []) :
    (slashed (names ++ [n])).toList = (slashed names).toList ++ '/' :: n.toList := by
  rw [toList_slashed, toList_slashed, List.map_append,
    Text.join_append '/' (by simpa using some) (by simp)]
  simp [Text.join]

theorem slashed_singleton (n : String) : slashed [n] = n := by
  simp [slashed, Text.joinWith, Text.join]

theorem toList_absolute (names : List String) :
    (absolute names).toList = '/' :: Text.join '/' (names.map String.toList) := by
  rw [absolute, String.toList_append, toList_slashed]
  rfl

theorem bodyParts_names (named : ∀ n ∈ names, Named n) (front : Bool) :
    bodyParts front (names.map String.toList) = names.map Part.name := by
  induction names generalizing front with
  | nil => rfl
  | cons n names ih =>
    have first := named n List.mem_cons_self
    rw [List.map_cons, bodyParts, ih fun x member => named x (List.mem_cons_of_mem _ member)]
    simp [first.nonempty, first.notHere, first.notUp]

theorem pieces_names (named : ∀ n ∈ names, Named n) (some : names ≠ []) :
    Text.pieces '/' (Text.join '/' (names.map String.toList)) = names.map String.toList := by
  apply Text.pieces_join (by simpa using some)
  intro p member
  obtain ⟨x, isName, rfl⟩ := List.mem_map.mp member
  exact (named x isName).plain

theorem bodyParts_ends (front : Bool) (ps : List (List Char)) :
    bodyParts front (ps ++ [[]]) = bodyParts front ps := by
  induction ps generalizing front with
  | nil => rfl
  | cons p ps ih => simp only [List.cons_append, bodyParts, ih]

/-- Reading a canonical path gives its names. -/
theorem parts_absolute (named : ∀ n ∈ names, Named n) :
    parts (absolute names) = .root :: names.map Part.name := by
  have body : bodyParts false (Text.pieces '/' (Text.join '/' (names.map String.toList))) =
      names.map Part.name := by
    cases names with
    | nil => rfl
    | cons n names => rw [pieces_names named (List.cons_ne_nil n names), bodyParts_names named]
  rw [parts, toList_absolute]
  simp [isAbsolute, Text.pieces, bodyParts, body]

theorem head_slashed {n : String} (named : Named n) (names : List String) :
    (slashed (n :: names)).toList.head? ≠ some '/' := by
  obtain ⟨c, cs, same⟩ := List.exists_cons_of_ne_nil named.nonempty
  have notSlash : c ≠ '/' := by
    rintro rfl
    exact named.plain (by simp [same])
  rw [toList_slashed]
  cases names <;> simpa [Text.join, same] using notSlash

theorem getLast_slashed {n : String} (named : Named n) (names : List String) :
    ∃ c, (slashed (names ++ [n])).toList.getLast? = some c ∧ c ≠ '/' := by
  obtain ⟨cs, c, same⟩ : ∃ cs c, n.toList = cs ++ [c] := by
    cases shape : n.toList using List.reverseRecOn with
    | nil => exact absurd shape named.nonempty
    | append_singleton cs c => exact ⟨cs, c, rfl⟩
  have notSlash : c ≠ '/' := by
    rintro rfl
    exact named.plain (by simp [same])
  refine ⟨c, ?_, notSlash⟩
  rw [toList_slashed, List.map_append]
  cases names with
  | nil => simp [Text.join, same]
  | cons m names =>
    rw [Text.join_append '/' (by simp) (by simp)]
    simp [Text.join, same, List.getLast?_append, List.getLast?_cons]

/-- A directory and what is put behind it, with a slash between them unless there is one. -/
theorem join_slashed {dirs : List String} (above : ∀ n ∈ dirs, Named n)
    (relative : isAbsolute (slashed names).toList = false) :
    join (absolute dirs) (slashed names) =
      if dirs = [] then absolute names else absolute dirs ++ "/" ++ slashed names := by
  rw [join, relative, if_neg Bool.false_ne_true]
  cases dirs using List.reverseRecOn with
  | nil => rfl
  | append_singleton dirs d =>
    obtain ⟨c, ends, notSlash⟩ := getLast_slashed (above d (by simp)) dirs
    have last : (absolute (dirs ++ [d])).toList.getLast? = some c := by
      rw [toList_absolute, ← toList_slashed, List.getLast?_cons, ends]
      rfl
    have nonempty : (absolute (dirs ++ [d])).isEmpty = false := by simp [absolute]
    rw [nonempty, last]
    simp [notSlash]

theorem join_absolute {dirs : List String} (above : ∀ n ∈ dirs, Named n)
    (named : ∀ n ∈ names, Named n) (some : names ≠ []) :
    join (absolute dirs) (slashed names) = absolute (dirs ++ names) := by
  have relative : isAbsolute (slashed names).toList = false := by
    obtain ⟨n, names, rfl⟩ := List.exists_cons_of_ne_nil some
    simpa [isAbsolute] using head_slashed (named n List.mem_cons_self) names
  rw [join_slashed above relative]
  split
  · rename_i top
    rw [top, List.nil_append]
  · rename_i below
    rw [← String.toList_inj, absolute, absolute]
    simp only [String.toList_append, toList_slashed, List.map_append]
    rw [Text.join_append '/' (by simpa using below) (by simpa using some)]
    simp

theorem absolute_concat {n : String} (above : ∀ x ∈ names, Named x) (named : Named n) :
    ∃ tail, absolute (names ++ [n]) = absolute names ++ tail := by
  have single : ∀ x ∈ [n], Named x := by simpa using named
  have relative : isAbsolute (slashed [n]).toList = false := by
    simpa [isAbsolute] using head_slashed named []
  have joined := join_slashed above relative
  rw [join_absolute above single (by simp)] at joined
  split at joined
  · rename_i top
    exact ⟨slashed [n], by rw [joined, top]; rfl⟩
  · exact ⟨"/" ++ slashed [n], by rw [joined, String.append_assoc]⟩

theorem parts_join_nil {dirs : List String} (above : ∀ n ∈ dirs, Named n) :
    parts (join (absolute dirs) (slashed [])) = parts (absolute dirs) := by
  rw [join_slashed above rfl]
  split
  · rename_i top
    rw [top]
  · rename_i below
    have text : (absolute dirs ++ "/" ++ slashed []).toList =
        '/' :: Text.join '/' (dirs.map String.toList ++ [[]]) := by
      rw [Text.join_append '/' (by simpa using below) (by simp)]
      simp [absolute, toList_slashed, Text.join]
    have pieces : Text.pieces '/' (Text.join '/' (dirs.map String.toList ++ [[]])) =
        dirs.map String.toList ++ [[]] := by
      apply Text.pieces_join (by simp)
      intro p member
      rcases List.mem_append.mp member with name | last
      · obtain ⟨x, isName, rfl⟩ := List.mem_map.mp name
        exact (above x isName).plain
      · simp [List.mem_singleton.mp last]
    rw [parts_absolute above, parts, text]
    simp [isAbsolute, Text.pieces, bodyParts, pieces, bodyParts_ends, bodyParts_names above]

theorem append_of_dropParts {head l rest : List Part} (dropped : dropParts? head l = some rest) :
    l = head ++ rest := by
  induction head generalizing l with
  | nil => exact Option.some.inj dropped
  | cons p head ih =>
    cases l with
    | nil => cases dropped
    | cons q l =>
      rw [dropParts?] at dropped
      split at dropped
      · rename_i same
        rw [same, ih dropped, List.cons_append]
      · cases dropped

theorem dropParts_append (head rest : List Part) : dropParts? head (head ++ rest) = some rest := by
  induction head with
  | nil => rfl
  | cons p head ih => simpa [dropParts?] using ih

/-- Within a project a path is named by what is behind the root. -/
theorem relative_absolute {dirs : List String} (above : ∀ n ∈ dirs, Named n)
    (named : ∀ n ∈ names, Named n) :
    relative (absolute dirs) (absolute (dirs ++ names)) = slashed names := by
  have whole : ∀ n ∈ dirs ++ names, Named n := by
    intro n member
    rcases List.mem_append.mp member with first | second
    · exact above n first
    · exact named n second
  have dropped : dropParts? (.root :: dirs.map Part.name)
      (.root :: (dirs ++ names).map Part.name) = some (names.map Part.name) := by
    rw [List.map_append, ← List.cons_append, dropParts_append]
  have texts : Part.text ∘ Part.name = id := rfl
  rw [relative, parts_absolute above, parts_absolute whole, dropped]
  simp [texts]

theorem parent_absolute {n : String} (named : ∀ x ∈ names ++ [n], Named x) :
    parent (absolute (names ++ [n])) = absolute names := by
  have last := named n (by simp)
  have pieces : Text.pieces '/' (absolute (names ++ [n])).toList =
      [] :: (names ++ [n]).map String.toList := by
    rw [toList_absolute, Text.pieces, if_pos rfl, pieces_names named (by simp)]
  have above : dropIdle true (names.reverse.map String.toList ++ [[]]) =
      names.reverse.map String.toList ++ [[]] := by
    cases names using List.reverseRecOn with
    | nil => rfl
    | append_singleton names m =>
      have next := named m (by simp)
      simp [dropIdle, next.nonempty, next.notHere]
  have rooted : isAbsolute (absolute (names ++ [n])).toList = true := by
    rw [toList_absolute]
    rfl
  have whole : dropIdle true ([] :: (names ++ [n]).map String.toList).reverse =
      n.toList :: (names.reverse.map String.toList ++ [[]]) := by
    simp [dropIdle, last.nonempty, last.notHere]
  unfold parent
  simp only [pieces, rooted, whole]
  obtain ⟨c, cs, shape⟩ := List.exists_cons_of_ne_nil last.nonempty
  simp only [shape, above]
  cases names using List.reverseRecOn with
  | nil => rfl
  | append_singleton names m =>
    have text : Text.join '/' (List.map String.toList (names ++ [m]).reverse ++ [[]]).reverse =
        (absolute (names ++ [m])).toList := by
      rw [toList_absolute, List.reverse_append, ← List.map_reverse, List.reverse_reverse]
      cases names <;> rfl
    split
    · rename_i single
      simp at single
    · rw [text, String.ofList_toList]

end

/- What tools are given -/

theorem named_of_walk {ps : List Part} {done names : List String}
    (walked : walk done ps = some names) (above : ∀ n ∈ done, Named n)
    (parts : ∀ s, .name s ∈ ps → Named s) : ∀ n ∈ names, Named n := by
  induction ps generalizing done with
  | nil =>
    obtain rfl := Option.some.inj walked
    simpa using above
  | cons p ps ih =>
    have later : ∀ s, .name s ∈ ps → Named s := fun s member => parts s (List.mem_cons_of_mem _ member)
    cases p with
    | root => cases walked
    | here => exact ih walked above later
    | name s =>
      refine ih walked ?_ later
      intro n member
      rcases List.mem_cons.mp member with rfl | earlier
      · exact parts n List.mem_cons_self
      · exact above n earlier
    | up =>
      cases done with
      | nil => cases walked
      | cons d done => exact ih walked (fun n member => above n (List.mem_cons_of_mem _ member)) later

theorem not_mem_of_pieces {sep : Char} {cs p : List Char} (member : p ∈ Text.pieces sep cs) :
    sep ∉ p := by
  induction cs generalizing p with
  | nil => simp_all [Text.pieces]
  | cons c cs ih =>
    rw [Text.pieces] at member
    split at member
    · rcases List.mem_cons.mp member with rfl | later
      · simp
      · exact ih later
    · rename_i other
      cases shape : Text.pieces sep cs with
      | nil => exact absurd shape (Text.pieces_ne_nil sep cs)
      | cons q qs =>
        simp only [shape, List.mem_cons] at member ih
        rcases member with rfl | later
        · simp only [List.mem_cons, not_or]
          exact ⟨Ne.symm other, ih (Or.inl rfl)⟩
        · exact ih (Or.inr later)

theorem named_of_bodyParts {front : Bool} {ps : List (List Char)} {s : String}
    (member : .name s ∈ bodyParts front ps) (plain : ∀ p ∈ ps, '/' ∉ p) : Named s := by
  induction ps generalizing front with
  | nil => cases member
  | cons p ps ih =>
    have later := fun q member => plain q (List.mem_cons_of_mem p member)
    rw [bodyParts] at member
    split at member
    · exact ih member later
    · rename_i nonempty
      split at member
      · split at member
        · exact ih (by simpa using member) later
        · exact ih member later
      · rename_i notHere
        split at member
        · exact ih (by simpa using member) later
        · rename_i notUp
          rcases List.mem_cons.mp member with same | behind
          · obtain rfl := Part.name.inj same
            exact ⟨by simpa using nonempty, by simpa using notHere, by simpa using notUp,
              by simpa using plain p List.mem_cons_self⟩
          · exact ih behind later

theorem named_of_parts {path s : String} (member : .name s ∈ parts path) : Named s := by
  unfold parts at member
  extract_lets cs at member
  have plain : ∀ p ∈ Text.pieces '/' cs, '/' ∉ p := fun p => not_mem_of_pieces
  split at member
  · exact named_of_bodyParts (by simpa using member) plain
  · exact named_of_bodyParts member plain

theorem named_of_below {root given : String} {names : List String}
    (found : below root given = .ok names) : ∀ n ∈ names, Named n := by
  unfold below at found
  extract_lets trimmed ps ps' at found
  split at found
  · cases found
  · split at found
    · rename_i walked
      obtain rfl := Except.ok.inj found
      refine named_of_walk walked (by simp) fun s member => ?_
      have given : .name s ∈ parts trimmed := by
        cases dropped : dropParts? (parts root) ps with
        | none => simpa [ps', dropped] using member
        | some rest =>
          have member : .name s ∈ rest := by simpa [ps', dropped] using member
          change .name s ∈ ps
          rw [append_of_dropParts dropped]
          exact List.mem_append_right _ member
      exact named_of_parts given
    · cases found

/-- A path that a tool is given stands for names below the root. -/
theorem resolve_eq {root given path : String} (resolved : resolve root given = .ok path) :
    ∃ names, (∀ n ∈ names, Named n) ∧ path = join root (slashed names) := by
  unfold resolve at resolved
  cases found : below root given with
  | error r => rw [found] at resolved; cases resolved
  | ok names =>
    rw [found] at resolved
    exact ⟨names, named_of_below found, (Except.ok.inj resolved).symm⟩

/- One path behind another -/

/-- A directory up to where a path behind it begins. -/
def edge (dir : String) : String :=
  if dir.isEmpty || dir.toList.getLast? = some '/' then dir else dir ++ "/"

theorem join_eq {path : String} (relative : isAbsolute path.toList = false) (dir : String) :
    join dir path = edge dir ++ path := by
  rw [join, relative, if_neg Bool.false_ne_true, edge]
  split <;> rfl

theorem edge_edge (dir : String) : edge (edge dir) = edge dir := by
  by_cases ends : (dir.isEmpty || dir.toList.getLast? = some '/') = true
  · have same : edge dir = dir := if_pos ends
    rw [same, same]
  · have longer : edge dir = dir ++ "/" := if_neg ends
    rw [longer, edge, if_pos (by simp)]

theorem edge_append {dir inner : String} (closed : edge dir = dir) :
    edge (dir ++ inner) = dir ++ edge inner := by
  by_cases none : inner = ""
  · subst none
    simpa [edge] using closed
  · have last : (dir ++ inner).toList.getLast? = inner.toList.getLast? := by
      have letters : inner.toList ≠ [] := by simpa using none
      rw [String.toList_append, List.getLast?_append, List.getLast?_eq_some_getLast letters]
      rfl
    have some : (dir ++ inner).isEmpty = false := by simp [none]
    have some' : inner.isEmpty = false := by simp [none]
    rw [edge, edge, last, some, some']
    split
    · rfl
    · exact String.append_assoc

theorem isAbsolute_join {inner path : String} (below : isAbsolute inner.toList = false)
    (relative : isAbsolute path.toList = false) : isAbsolute (join inner path).toList = false := by
  rw [join_eq relative, edge]
  cases letters : inner.toList with
  | nil => simp [String.toList_eq_nil_iff.mp letters, relative]
  | cons c cs =>
    rw [letters] at below
    split <;> simpa [letters, isAbsolute] using below

/-- Where a path behind an inner path leads does not depend on which of the two is put in place first. -/
theorem join_join {dir inner path : String} (below : isAbsolute inner.toList = false)
    (relative : isAbsolute path.toList = false) :
    join (join dir inner) path = join dir (join inner path) := by
  rw [join_eq (isAbsolute_join below relative), join_eq relative, join_eq below, join_eq relative,
    edge_append (edge_edge dir), String.append_assoc]

end Path

end CodeAgent
